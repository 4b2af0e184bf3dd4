import Mathlib.Data.List.Sort
/-! A list in the order of a comparison function: a stable sort, and the first element of the
sorted list that meets a condition. -/
namespace Gofly.Ranking
open List (filter_cons mem_cons mem_cons_of_mem mem_filter)

variable {α : Type} {less : α → α → Bool} {p : α → Bool} {list : List α} {x y : α} {i j : Nat}

structure Weak (less : α → α → Bool) : Prop where
  asymm : ∀ {x y}, less x y = true → less y x = false
  apart : ∀ {x y z}, less x y = false → less y z = false → less x z = false

theorem Weak.level (weak : Weak less) (x) : less x x = false := by
  cases self : less x x with
  | false => rfl
  | true => exact self ▸ weak.asymm self

def stableSort (less : α → α → Bool) (list : List α) : List α :=
  list.insertionSort fun x y => less y x = false

def best (less : α → α → Bool) (p : α → Bool) : List α → Option α
  | [] => none
  | x :: rest => if p x && (best less p rest).all (fun y => !less y x) then some x else best less p rest

structure Leads (less : α → α → Bool) (p : α → Bool) (list : List α) (i : Nat) (x : α) : Prop where
  found : list[i]? = some x
  meets : p x = true
  beats : ∀ j y, list[j]? = some y → p y = true → less y x = false ∧ (less x y = false → i ≤ j)

theorem sortSorted (weak : Weak less) (list) : (stableSort less list).Pairwise fun x y => less y x = false := by
  have total : Std.Total fun x y => less y x = false := by
    refine ⟨fun x y => ?_⟩
    cases ne : less y x with
    | false => exact .inl rfl
    | true => exact .inr (weak.asymm ne)
  have trans : IsTrans α fun x y => less y x = false := ⟨fun _ _ _ first second => weak.apart second first⟩
  exact List.pairwise_insertionSort _ list

theorem sortTwice (weak : Weak less) (list) : stableSort less (stableSort less list) = stableSort less list :=
  (sortSorted weak list).insertionSort_eq

theorem memSort : x ∈ stableSort less list ↔ x ∈ list := List.mem_insertionSort _

theorem insertedFind (weak : Weak less) (sorted : list.Pairwise fun x y => less y x = false) (x) :
    (list.orderedInsert (fun x y => less y x = false) x).find? p =
      if p x && (list.find? p).all (fun y => !less y x) then some x else list.find? p := by
  induction list with
  | nil => simp
  | cons y rest ih =>
    obtain ⟨below,sorted⟩ := List.pairwise_cons.mp sorted
    rw [List.orderedInsert_cons]
    cases ne : less y x with
    | false =>
      have lower : ((y :: rest).find? p).all (fun z => !less z x) = true := by
        rw [Option.all_eq_true_iff_get]
        intro got
        have mem := List.mem_of_find?_eq_some (Option.some_get got).symm
        rcases mem_cons.mp mem with eq | later
        · rw [eq,ne]
          rfl
        rw [weak.apart (below _ later) ne]
        rfl
      simp
      split <;> simp_all
    | true =>
      by_cases meets : p y = true
      · simp [meets,ne]
      simp [meets,ih sorted]

theorem sortFind (weak : Weak less) (list) : (stableSort less list).find? p = best less p list := by
  induction list with
  | nil => rfl
  | cons x rest ih =>
    have inserted := insertedFind (p := p) weak (sortSorted weak rest) x
    rw [ih] at inserted
    exact inserted

theorem bestNone : best less p list = none ↔ ∀ x ∈ list, p x = false := by
  induction list with
  | nil => simp [best]
  | cons =>
    simp only [best]
    split <;> simp_all
    intro below
    simp_all

theorem leadsOnly (leads : Leads less p list i x) (also : Leads less p list j y) : i = j ∧ x = y := by
  obtain ⟨notBelow,old⟩ := leads.beats j y also.found also.meets
  obtain ⟨notAbove,after⟩ := also.beats i x leads.found leads.meets
  have eq : i = j := Nat.le_antisymm (old notAbove) (after notBelow)
  subst eq
  exact ⟨rfl,Option.some.inj (leads.found.symm.trans also.found)⟩

theorem bestLeading (weak : Weak less) (got : best less p list = some x) : ∃ i, Leads less p list i x := by
  induction list generalizing x with
  | nil => cases got
  | cons z rest ih =>
    simp only [best] at got
    split at got
    · rename_i wins
      cases got
      obtain ⟨meets,tops⟩ := Bool.and_eq_true_iff.mp wins
      refine ⟨0,rfl,meets,fun j y seen also => ⟨?_,fun _ => Nat.zero_le j⟩⟩
      cases j with
      | zero =>
        cases seen
        exact weak.level _
      | succ j =>
        cases later : best less p rest with
        | none => exact absurd also (by rw [bestNone.mp later y (List.mem_of_getElem? seen)]; simp)
        | some =>
          obtain ⟨i,leads⟩ := ih later
          have below := (leads.beats j y seen also).1
          rw [later] at tops
          exact weak.apart below (by simpa using tops)
    rename_i loses
    obtain ⟨i,leads⟩ := ih got
    refine ⟨i + 1,leads.found,leads.meets,fun j y seen also => ?_⟩
    cases j with
    | zero =>
      cases seen
      rw [got] at loses
      have above : less x z = true := by simpa [also] using loses
      exact ⟨weak.asymm above,fun level => by rw [above] at level; cases level⟩
    | succ j =>
      obtain ⟨below,order⟩ := leads.beats j y seen also
      exact ⟨below,fun level => Nat.succ_le_succ (order level)⟩

theorem bestLeads (weak : Weak less) : best less p list = some x ↔ ∃ i, Leads less p list i x := by
  refine ⟨bestLeading weak,fun ⟨i,leads⟩ => ?_⟩
  cases got : best less p list with
  | none => exact absurd leads.meets (by rw [bestNone.mp got x (List.mem_of_getElem? leads.found)]; simp)
  | some =>
    obtain ⟨j,also⟩ := bestLeading weak got
    rw [(leadsOnly leads also).2]

theorem bestMap {β : Type} (f : β → α) (list) :
    best less p (list.map f) = (best (fun x y => less (f x) (f y)) (fun x => p (f x)) list).map f := by
  induction list with
  | nil => rfl
  | cons x rest ih =>
    simp only [List.map_cons,best,ih]
    cases best (fun x y => less (f x) (f y)) (fun x => p (f x)) rest with
    | none => by_cases meets : p (f x) = true <;> simp
    | some y => by_cases meets : p (f x) = true <;> by_cases above : less (f y) (f x) = true <;> simp [meets,above]

section
variable (weak : Weak less) (got : best less p list = some x)
include weak got

theorem bestAbove (mem : y ∈ list) (meets : p y = true) : less y x = false := by
  obtain ⟨i,leads⟩ := bestLeading weak got
  obtain ⟨j,seen⟩ := List.getElem?_of_mem mem
  exact (leads.beats j y seen meets).1

theorem bestMem : x ∈ list ∧ p x = true := by
  obtain ⟨i,leads⟩ := bestLeading weak got
  exact ⟨List.mem_of_getElem? leads.found,leads.meets⟩

theorem bestFilter (kept : q x = true) : best less p (list.filter q) = some x := by
  induction list with
  | nil => cases got
  | cons y rest ih =>
    have whole := got
    simp only [best] at got
    split at got
    · rename_i wins
      cases got
      have meets : p x = true := (Bool.and_eq_true_iff.mp wins).1
      have tops : (best less p (rest.filter q)).all (fun z => !less z x) = true := by
        rw [Option.all_eq_true]
        intro z later
        obtain ⟨mem,also⟩ := bestMem weak later
        rw [bestAbove weak whole (mem_cons_of_mem x (mem_filter.mp mem).1) also]
        rfl
      simp only [filter_cons,kept,if_true,best,meets,tops,Bool.and_self]
    rename_i loses
    have later := ih got
    cases also : q y with
    | false => simpa only [filter_cons,also,Bool.false_eq_true,if_false] using later
    | true =>
      simp only [filter_cons,also,if_true,best,later]
      rw [got] at loses
      rw [if_neg loses]
end

section
variable {κ : Type} [DecidableEq κ] {key : α → κ}

def firsts (key : α → κ) (seen : List κ) : List α → List α
  | [] => []
  | x :: rest => if key x ∈ seen then firsts key seen rest else x :: firsts key (key x :: seen) rest

theorem firstsMap {β : Type} (f : β → α) (seen list) :
    firsts key seen (list.map f) = (firsts (fun x => key (f x)) seen list).map f := by
  induction list generalizing seen with
  | nil => rfl
  | cons _ _ ih =>
    simp only [List.map_cons,firsts,ih]
    split <;> rfl

theorem firstsBest (weak : Weak less) (seen)
    (eq : ∀ x ∈ list, ∀ y ∈ list, key x = key y → p x = p y ∧ less x y = false) :
    best less p (firsts key seen list) = best less p (list.filter fun x => key x ∉ seen) := by
  induction list generalizing seen with
  | nil => rfl
  | cons x rest ih =>
    replace ih := fun seen => ih seen fun y mem z also =>
      eq y (mem_cons_of_mem x mem) z (mem_cons_of_mem x also)
    by_cases old : key x ∈ seen
    · simpa only [firsts,old,if_true,filter_cons,not_true,decide_false,Bool.false_eq_true,
        if_false] using ih seen
    have fewer : (rest.filter fun y => key y ∉ key x :: seen) =
        (rest.filter fun y => key y ∉ seen).filter fun y => key y ≠ key x := by
      rw [List.filter_filter]
      simp only [mem_cons,not_or,Bool.decide_and]
    simp only [firsts,old,if_false,filter_cons,not_false_eq_true,decide_true,if_true,best,ih,fewer]
    cases later : best less p (rest.filter fun y => key y ∉ seen) with
    | none =>
      have none : best less p ((rest.filter fun y => key y ∉ seen).filter fun y => key y ≠ key x) = none :=
        bestNone.mpr fun y mem => bestNone.mp later y (mem_filter.mp mem).1
      rw [none]
    | some z =>
      by_cases alike : key z = key x
      · have mem := (mem_filter.mp (bestMem weak later).1).1
        obtain ⟨meets,level⟩ := eq z (mem_cons_of_mem x mem) x List.mem_cons_self alike
        have own : p x = true := meets ▸ (bestMem weak later).2
        have above : (best less p ((rest.filter fun y => key y ∉ seen).filter fun y => key y ≠ key x)).all
            (fun y => !less y x) = true := by
          rw [Option.all_eq_true]
          intro y got
          obtain ⟨mem,also⟩ := bestMem weak got
          rw [weak.apart (bestAbove weak later (mem_filter.mp mem).1 also) level]
          rfl
        simp only [own,above,Bool.and_self,if_true,Option.all_some,level,Bool.not_false]
      rw [bestFilter weak later (by simpa using alike)]
end

section
variable {q : α → Bool}

def replaceFirst (q : α → Bool) (x : α) : List α → List α
  | [] => []
  | y :: rest => if q y then x :: rest else y :: replaceFirst q x rest

theorem setFirst (got : list.findIdx? q = some i) (x) : list.set i x = replaceFirst q x list := by
  induction list generalizing i with
  | nil => cases got
  | cons y _ ih =>
    rw [List.findIdx?_cons] at got
    cases meets : q y with
    | true =>
      rw [meets] at got
      cases got
      simp [replaceFirst,meets]
    | false =>
      rw [meets] at got
      obtain ⟨j,later,rfl⟩ := Option.map_eq_some_iff.mp got
      simp [replaceFirst,meets,ih later]

theorem replaceMember (mem : y ∈ replaceFirst q x list) : y = x ∨ y ∈ list := by
  induction list with
  | nil => cases mem
  | cons z _ ih =>
    unfold replaceFirst at mem
    split at mem
    · exact (mem_cons.mp mem).imp id (mem_cons_of_mem z)
    rcases mem_cons.mp mem with rfl | later
    · exact .inr List.mem_cons_self
    exact (ih later).imp id (mem_cons_of_mem z)

theorem eraseFirst (got : list.findIdx? q = some i) : list.eraseIdx i = list.eraseP q := by
  induction list generalizing i with
  | nil => cases got
  | cons y _ ih =>
    rw [List.findIdx?_cons] at got
    cases meets : q y with
    | true =>
      rw [meets] at got
      cases got
      simp [meets]
    | false =>
      rw [meets] at got
      obtain ⟨j,later,rfl⟩ := Option.map_eq_some_iff.mp got
      simp [meets,ih later]

def insertLast (less : α → α → Bool) (x : α) : List α → List α
  | [] => [x]
  | y :: rest => if less x y then x :: y :: rest else y :: insertLast less x rest

section
variable (weak : Weak less)
include weak

theorem insertedLast (a x list) : (insertLast less x list).orderedInsert (fun x y => less y x = false) a =
      insertLast less x (list.orderedInsert (fun x y => less y x = false) a) := by
  induction list with
  | nil => cases ne : less x a <;> simp [insertLast,ne]
  | cons b _ ih =>
    cases above : less x b with
    | true =>
      cases higher : less x a with
      | true => cases ne : less b a <;> simp [insertLast,above,higher,ne]
      | false =>
        have ne : less b a = false := by
          by_contra below
          have back := weak.apart higher (weak.asymm (Bool.not_eq_false _ ▸ below))
          rw [above] at back
          cases back
        simp [insertLast,above,higher,ne]
    | false =>
      cases ne : less b a with
      | true => simp [insertLast,above,ne,ih]
      | false => simp [insertLast,above,ne,weak.apart above ne]

theorem sortLast (list x) : stableSort less (list ++ [x]) = insertLast less x (stableSort less list) := by
  induction list with
  | nil => rfl
  | cons _ _ ih =>
    rw [List.cons_append,stableSort,List.insertionSort_cons]
    rw [stableSort] at ih
    rw [ih,insertedLast weak]
    rfl

theorem sortAppend (list x) : stableSort less (stableSort less list ++ [x]) = stableSort less (list ++ [x]) := by
  rw [sortLast weak,sortLast weak,sortTwice weak]

theorem insertedReplaced (level : ∀ y, q y = true → less x y = false ∧ less y x = false) (a list) :
    replaceFirst q x (list.orderedInsert (fun x y => less y x = false) a) =
      if q a then list.orderedInsert (fun x y => less y x = false) x
      else (replaceFirst q x list).orderedInsert (fun x y => less y x = false) a := by
  induction list with
  | nil => cases meets : q a <;> simp [replaceFirst,meets]
  | cons b _ ih =>
    cases meets : q a with
    | true =>
      have eq := level a meets
      cases ne : less b a with
      | false => simp [replaceFirst,meets,ne,weak.apart ne eq.2]
      | true =>
        have other : q b = false := by
          by_contra also
          have below := weak.apart (level b (Bool.not_eq_false _ ▸ also)).2 eq.1
          rw [ne] at below
          cases below
        have above : less b x = true := by
          by_contra below
          have back := weak.apart (Bool.not_eq_true _ ▸ below) eq.1
          rw [ne] at back
          cases back
        simpa [replaceFirst,other,ne,above,meets] using ih
    | false =>
      cases also : q b with
      | false => cases ne : less b a <;> simp_all [replaceFirst]
      | true =>
        have eq := level b also
        cases ne : less b a with
        | false => simp [replaceFirst,meets,also,ne,weak.apart eq.1 ne]
        | true =>
          have above : less x a = true := by
            by_contra below
            have back := weak.apart eq.2 (Bool.not_eq_true _ ▸ below)
            rw [ne] at back
            cases back
          simp [replaceFirst,also,ne,above]

theorem sortReplace (level : ∀ y, q y = true → less x y = false ∧ less y x = false)
    (list) : replaceFirst q x (stableSort less list) = stableSort less (replaceFirst q x list) := by
  induction list with
  | nil => rfl
  | cons _ _ ih =>
    rw [stableSort,List.insertionSort_cons,insertedReplaced weak level]
    rw [stableSort] at ih
    rw [ih,replaceFirst]
    split <;> rfl

theorem insertedErased (level : ∀ y z, q y = true → q z = true → less y z = false)
    (sorted : list.Pairwise fun x y => less y x = false) (a) :
    (list.orderedInsert (fun x y => less y x = false) a).eraseP q =
      if q a then list else (list.eraseP q).orderedInsert (fun x y => less y x = false) a := by
  induction list with
  | nil => cases meets : q a <;> simp [meets]
  | cons b rest ih =>
    obtain ⟨below,sorted⟩ := List.pairwise_cons.mp sorted
    have ih := ih sorted
    cases ne : less b a with
    | false =>
      cases meets : q a with
      | true => simp [ne,meets]
      | false =>
        cases also : q b with
        | false => simp [ne,meets,also]
        | true =>
          cases rest with
          | nil => simp [ne,meets,also]
          | cons c => simp [ne,meets,also,weak.apart (below c List.mem_cons_self) ne]
    | true =>
      cases meets : q a with
      | true =>
        have other : q b = false := by
          by_contra also
          have eq := level b a (Bool.not_eq_false _ ▸ also) meets
          rw [ne] at eq
          cases eq
        rw [meets] at ih
        simpa [ne,other] using ih
      | false => cases also : q b <;> simp_all

theorem sortErase (level : ∀ y z, q y = true → q z = true → less y z = false)
    (list) : (stableSort less list).eraseP q = stableSort less (list.eraseP q) := by
  induction list with
  | nil => rfl
  | cons a rest ih =>
    have step := insertedErased weak level (sortSorted weak rest) a
    rw [stableSort] at ih step
    rw [stableSort,List.insertionSort_cons,step,ih,List.eraseP_cons]
    cases q a <;> rfl
end
end
end Gofly.Ranking
