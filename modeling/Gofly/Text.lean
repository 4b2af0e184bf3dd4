import Mathlib.Data.List.DropRight
/-! Texts as lists: trimming at both ends, and pieces joined by a separator that may also
stand inside them. -/
namespace Gofly.Text
open List (append_assoc cons_ne_nil splitOn)

variable {α : Type} {p : α → Bool} {s : List α}
def trim (p : α → Bool) (s : List α) : List α := (s.dropWhile p).rdropWhile p

structure Trimmed (p : α → Bool) (s : List α) : Prop where
  front : ∀ c, s.head? = some c → p c = false
  back : ∀ c, s.getLast? = some c → p c = false

theorem droppedFront (p) (s : List α) (c) (first : (s.dropWhile p).head? = some c) : p c = false := by
  have front := List.head?_dropWhile_not p s
  rwa [first] at front

theorem trimTrimmed (p : α → Bool) (s) : Trimmed p (trim p s) := by
  refine ⟨fun c first => ?_,fun c last => ?_⟩
  · obtain ⟨rest,eq⟩ := List.rdropWhile_prefix p (s.dropWhile p)
    refine droppedFront p s c ?_
    rw [← eq,List.head?_append,show ((s.dropWhile p).rdropWhile p).head? = some c from first]
    rfl
  rw [trim,List.rdropWhile,List.getLast?_reverse] at last
  exact droppedFront p _ c last

theorem trimSelf (trimmed : Trimmed p s) : trim p s = s := by
  have front : s.dropWhile p = s := by
    cases s with
    | nil => rfl
    | cons c => simp [trimmed.front c rfl]
  rw [trim,front,List.rdropWhile_eq_self_iff]
  intro full
  simp [trimmed.back _ (List.getLast?_eq_some_getLast full)]

theorem trimMark (mark : p c = true) (s) : trim p (c :: s) = trim p s := by
  rw [trim,trim,List.dropWhile_cons_of_pos mark]

theorem trimTwice (p : α → Bool) (s) : trim p (trim p s) = trim p s := trimSelf (trimTrimmed p s)

theorem trimmedMap (eq : ∀ c, p (f c) = p c) (trimmed : Trimmed p s) : Trimmed p (s.map f) := by
  refine ⟨fun c first => ?_,fun c last => ?_⟩
  · rw [List.head?_map] at first
    obtain ⟨d,got,rfl⟩ := Option.map_eq_some_iff.mp first
    rw [eq,trimmed.front d got]
  rw [List.getLast?_map] at last
  obtain ⟨d,got,rfl⟩ := Option.map_eq_some_iff.mp last
  rw [eq,trimmed.back d got]

theorem trimmedCons (kept : p c = false) (trimmed : Trimmed p s) : Trimmed p (c :: s) := by
  refine ⟨fun d first => ?_,fun d last => ?_⟩
  · cases first
    exact kept
  rw [List.getLast?_cons] at last
  cases back : s.getLast? with
  | none =>
    rw [back] at last
    cases last
    exact kept
  | some e =>
    rw [back] at last
    cases last
    exact trimmed.back e back

theorem trimmedTail (p) (s : List α) : ∃ tail, s = s.rdropWhile p ++ tail ∧ ∀ c ∈ tail, p c = true := by
  refine ⟨(s.reverse.takeWhile p).reverse,?_,fun c mem => List.mem_takeWhile_imp (List.mem_reverse.mp mem)⟩
  rw [List.rdropWhile,← List.reverse_append,List.takeWhile_append_dropWhile,List.reverse_reverse]

theorem trimSpread (p : α → Bool) (s) :
    ∃ old after, s = old ++ trim p s ++ after ∧ (∀ c ∈ old, p c = true) ∧ ∀ c ∈ after, p c = true := by
  obtain ⟨after,parts,every⟩ := trimmedTail p (s.dropWhile p)
  refine ⟨s.takeWhile p,after,?_,fun c mem => List.mem_takeWhile_imp mem,every⟩
  rw [append_assoc,trim,← parts,List.takeWhile_append_dropWhile]

def trimSuffix [BEq α] (tail s : List α) : List α := if tail.isSuffixOf s then s.take (s.length - tail.length) else s
def join (mark : α) (parts : List (List α)) : List α := [mark].intercalate parts

@[simp] theorem joinNone (mark : α) : join mark [] = [] := rfl

@[simp] theorem joinOne (mark : α) (part) : join mark [part] = part := List.intercalate_singleton

theorem joinAppend (mark) (some : a ≠ []) (more : b ≠ []) :
    join mark (a ++ b) = join mark a ++ mark :: join mark b := by
  induction a with
  | nil => contradiction
  | cons _ rest ih =>
    cases rest with
    | nil =>
      obtain ⟨next,later,rfl⟩ := List.exists_cons_of_ne_nil more
      simp [join]
    | cons =>
      have later := ih (cons_ne_nil _ _)
      simp only [join,List.cons_append,List.intercalate_cons_cons,append_assoc] at later ⊢
      rw [later]

theorem joinFilled (mark) (some : part ≠ []) (rest) : join mark (part :: rest) ≠ [] := by
  cases rest <;> simp [join,some]

theorem joinTrimmed (full : ∀ part ∈ parts, part ≠ [] ∧ Trimmed p part) : Trimmed p (join mark parts) := by
  induction parts with
  | nil => exact ⟨fun c first => by simp at first,fun c last => by simp at last⟩
  | cons part rest ih =>
    obtain ⟨some,trimmed⟩ := full part List.mem_cons_self
    cases rest with
    | nil => rwa [joinOne]
    | cons next rest =>
      have later := ih fun part mem => full part (List.mem_cons_of_mem _ mem)
      have more := joinFilled mark (full next (by simp)).1 rest
      rw [show part :: next :: rest = [part] ++ (next :: rest) from rfl, joinAppend mark (by simp) (by simp),joinOne]
      refine ⟨fun c first => trimmed.front c ?_,fun c last => later.back c ?_⟩
      · rwa [List.head?_append_of_ne_nil _ some] at first
      rwa [List.getLast?_append_of_ne_nil _ (cons_ne_nil _ _),List.getLast?_cons_of_ne_nil more] at last

section
variable [BEq α] [LawfulBEq α]

theorem pieceWhole (mem : piece ∈ s.splitOn mark) : mark ∉ piece := by
  induction s generalizing piece with
  | nil => simp [List.mem_singleton.mp mem]
  | cons _ rest ih =>
    rw [List.splitOn_cons_eq_if_modifyHead] at mem
    split at mem
    · rcases List.mem_cons.mp mem with rfl | later
      · simp
      · exact ih later
    rename_i other
    obtain ⟨first,pieces,cut⟩ := List.exists_cons_of_ne_nil (List.splitOn_ne_nil mark rest)
    rw [cut] at mem
    rcases List.mem_cons.mp mem with rfl | later
    · have clean := ih (cut ▸ List.mem_cons_self)
      intro inside
      rcases List.mem_cons.mp inside with rfl | inside
      · simp at other
      exact clean inside
    exact ih (cut ▸ List.mem_cons_of_mem _ later)

theorem markedSame {mark : α} (first : mark ∉ a) (second : mark ∉ b)
    (eq : a ++ mark :: c = b ++ mark :: d) : a = b ∧ c = d := by
  have cut := congrArg (splitOn mark) eq
  rw [List.splitOn_append_cons_self_of_not_mem first,List.splitOn_append_cons_self_of_not_mem second] at cut
  cases (List.cons.inj cut).1
  exact ⟨rfl,(List.cons.inj (List.append_cancel_left eq)).2⟩

theorem cleanTrimmed {mark : α} (clean : mark ∉ part) : Trimmed (· == mark) part := by
  have whole : ∀ c ∈ part, (c == mark) = false := by
    intro c mem
    rw [beq_eq_false_iff_ne]
    rintro rfl
    exact clean mem
  exact ⟨fun c first => whole c (List.mem_of_mem_head? first),fun c last => whole c (List.mem_of_mem_getLast? last)⟩

theorem joinCut (mark : α) (some : parts ≠ []) :
    (join mark parts).splitOn mark = parts.flatMap (splitOn mark) := by
  induction parts with
  | nil => contradiction
  | cons _ rest ih =>
    cases rest with
    | nil => simp
    | cons =>
      rw [join,List.intercalate_cons_cons,append_assoc,List.singleton_append,List.splitOn_append_cons_self]
      exact congrArg _ (ih (cons_ne_nil _ _))

theorem joinSame (mark : α) (some : parts ≠ []) (more : rest ≠ []) : join mark parts = join mark rest ↔
      parts.flatMap (splitOn mark) = rest.flatMap (splitOn mark) := by
  rw [← joinCut mark some,← joinCut mark more]
  refine ⟨congrArg _,fun eq => ?_⟩
  have back := congrArg (List.intercalate [mark]) eq
  rwa [List.intercalate_splitOn,List.intercalate_splitOn] at back

theorem joinClean {mark : α} (some : parts ≠ []) (more : rest ≠ []) (clean : ∀ part ∈ parts, mark ∉ part)
    (also : ∀ part ∈ rest, mark ∉ part) (eq : join mark parts = join mark rest) : parts = rest := by
  have whole {list : List (List α)} (clean : ∀ part ∈ list, mark ∉ part) : list.flatMap (splitOn mark) = list := by
    rw [List.flatMap_congr fun part mem => List.splitOn_eq_singleton (clean part mem)]
    simp
  have cut := (joinSame mark some more).mp eq
  rwa [whole clean,whole also] at cut
end
end Gofly.Text
