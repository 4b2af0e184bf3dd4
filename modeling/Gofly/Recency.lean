import Mathlib.Data.List.AList
import Mathlib.Data.List.Sort
/-! Association lists in the order of recency, the newest entry first: every entry carries a
stamp, and an inserted entry gets a stamp above all others and goes to the front. -/
namespace Gofly.Recency
open List (NodupKeys kerase)

variable {κ β ω : Type}

section
variable [LT ω] {stamp : β → ω}

def Descending (stamp : β → ω) (list : List ((_ : κ) × β)) : Prop :=
  list.Pairwise fun newer older => stamp older.2 < stamp newer.2

theorem descendingSorted [LE ω] [DecidableLE ω] {list : List ((_ : κ) × β)}
    (desc : Descending stamp list) (total : ∀ x y : ω, x ≤ y ∨ y ≤ x)
    (antisymm : ∀ {x y : ω}, x ≤ y → y ≤ x → x = y) (ne : ∀ {x y : ω}, x < y → x ≠ y)
    (trans : ∀ {x y z : ω}, x ≤ y → y ≤ z → x ≤ z) (le : ∀ {x y : ω}, x < y → x ≤ y) :
    list.insertionSort (fun x y => stamp x.2 ≤ stamp y.2) = list.reverse := by
  have nodup : (list.map fun row => stamp row.2).Nodup :=
    List.pairwise_map.mpr (desc.imp fun less => (ne less).symm)
  have inj := List.inj_on_of_nodup_map nodup
  have : Std.Total fun x y : (_ : κ) × β => stamp x.2 ≤ stamp y.2 := ⟨fun x y => total _ _⟩
  have : IsTrans ((_ : κ) × β) fun x y => stamp x.2 ≤ stamp y.2 := ⟨fun _ _ _ => trans⟩
  refine List.Perm.eq_of_pairwise ?_ (List.pairwise_insertionSort _ list)
    (List.pairwise_reverse.mpr (desc.imp le))
    ((List.perm_insertionSort _ list).trans list.reverse_perm.symm)
  intro x y first second up down
  exact inj ((List.mem_insertionSort _).mp first) (List.mem_reverse.mp second) (antisymm up down)
end
section
variable [LT ω] [DecidableLT ω] {stamp : β → ω}

def pick (stamp : β → ω) (found : Option (κ × ω)) (row : (_ : κ) × β) : Option (κ × ω) :=
  match found with
  | none => some (row.1,stamp row.2)
  | some (key,order) =>
    if stamp row.2 < order then some (row.1,stamp row.2) else some (key,order)

def least (stamp : β → ω) (list : List ((_ : κ) × β)) : Option (κ × ω) :=
  list.foldl (pick stamp) none

theorem foldAbove {list : List ((_ : κ) × β)}
    (start : ∀ best ∈ got, low < best.2) (above : ∀ row ∈ list, low < stamp row.2) :
    ∀ best ∈ list.foldl (pick stamp) got, low < best.2 := by
  induction list generalizing got with
  | nil => exact start
  | cons row _ ih =>
    refine ih ?_ fun r mem => above r (List.mem_cons_of_mem _ mem)
    intro best eq
    have here := above row List.mem_cons_self
    unfold pick at eq
    split at eq
    · cases eq
      exact here
    split at eq <;> cases eq
    · exact here
    exact start _ rfl

theorem leastLast (desc : Descending stamp (list ++ [x])) :
    least stamp (list ++ [x]) = some (x.1,stamp x.2) := by
  have above : ∀ row ∈ list, stamp x.2 < stamp row.2 := by
    have ne := (List.pairwise_append.mp desc).2.2
    exact fun row mem => ne row mem x List.mem_cons_self
  -- Whatever the pass holds when it comes to x, x is below it.
  have last : ∀ best ∈ list.foldl (pick stamp) none, stamp x.2 < best.2 := foldAbove (by simp) above
  rw [least,List.foldl_append]
  cases held : list.foldl (pick stamp) none with
  | none => rfl
  | some best => exact if_pos (last best held)
end

theorem absentBefore {old : List ((_ : κ) × β)} (nodup : (old ++ row :: after).NodupKeys) : row.1 ∉ old.keys := by
  simp only [NodupKeys,List.keys,List.map_append] at nodup
  have ne := (List.nodup_append.mp nodup).2.2
  exact fun mem => ne row.1 mem row.1 List.mem_cons_self rfl

section
variable [DecidableEq κ] {list : List ((_ : κ) × β)} {key : κ} {b : β}

theorem keraseLast (nodup : (list ++ [x]).NodupKeys) : kerase x.1 (list ++ [x]) = list := by
  rw [List.kerase_append_right (absentBefore nodup),List.kerase_cons_eq rfl,List.append_nil]

theorem kreplaceMiddle {before : List ((_ : κ) × β)} (gone : key ∉ before.keys) :
    List.kreplace key b (before ++ ⟨key,old⟩ :: after) = before ++ ⟨key,b⟩ :: after := by
  induction before with
  | nil => exact List.lookmap_cons_some _ _ (if_pos rfl)
  | cons _ _ ih =>
    simp only [List.keys,List.map_cons,List.mem_cons,not_or] at gone
    have later := ih gone.2
    unfold List.kreplace at later ⊢
    simp only [List.cons_append,List.lookmap_cons,if_neg gone.1,later]

theorem descendingInsert [LT ω] {stamp : β → ω} (desc : Descending stamp list)
    (newest : ∀ row ∈ list, stamp row.2 < stamp b) : Descending stamp (List.kinsert key b list) :=
  List.pairwise_cons.mpr ⟨fun row member => newest row ((List.kerase_sublist key list).mem member),
    desc.sublist (List.kerase_sublist key list)⟩

def Aged (touched keys : List κ) : Prop :=
  keys.Pairwise fun newer older => touched.idxOf newer < touched.idxOf older

theorem agedTouch (aged : Aged touched keys) (nodup : keys.Nodup) :
    Aged (key :: touched) (key :: keys.erase key) := by
  have rest : ∀ other ∈ keys.erase key, key ≠ other := by
    rintro other mem rfl
    exact nodup.not_mem_erase mem
  refine List.pairwise_cons.mpr ⟨fun other mem => ?_,?_⟩
  · simp [List.idxOf_cons_ne _ (rest other mem)]
  refine (aged.sublist List.erase_sublist).imp_of_mem ?_
  intro newer older first second earlier
  rw [List.idxOf_cons_ne _ (rest newer first),List.idxOf_cons_ne _ (rest older second)]
  omega

variable [LT ω] [DecidableLT ω]

def trim (stamp : β → ω) (max : Nat) :
    Nat → AList (fun _ : κ => β) → AList (fun _ : κ => β) × List κ
  | 0,table => (table,[])
  | fuel + 1,table =>
    if max < table.entries.length then
      match least stamp table.entries with
      | some (key,_) =>
        let rest := trim stamp max fuel (table.erase key)
        (rest.1,key :: rest.2)
      | none => (table,[])
    else (table,[])

theorem trimTakes {stamp : β → ω} {max : Nat} {table : AList fun _ : κ => β}
    (desc : Descending stamp table.entries) (enough : table.entries.length ≤ fuel) :
    (trim stamp max fuel table).1.entries = table.entries.take max ∧
      (trim stamp max fuel table).2 = (table.entries.drop max).keys.reverse := by
  induction fuel generalizing table with
  | zero =>
    have empty : table.entries = [] := List.length_eq_zero_iff.mp (Nat.le_zero.mp enough)
    simp [trim,empty]
  | succ fuel ih =>
    unfold trim
    split
    · rename_i beyond
      rcases List.eq_nil_or_concat table.entries with empty | ⟨init,x,rows⟩
      · simp [empty] at beyond
      rw [List.concat_eq_append] at rows
      have nodup := table.nodupKeys
      have erased : (table.erase x.1).entries = init := by
        show kerase x.1 table.entries = init
        rw [rows] at nodup ⊢
        exact keraseLast nodup
      rw [rows] at desc enough beyond
      rw [rows,leastLast desc]
      have shorter : (table.erase x.1).entries.length ≤ fuel := by rw [erased]; simp at enough; exact enough
      have rest := ih (erased ▸ (List.pairwise_append.mp desc).1) shorter
      rw [erased] at rest
      have within : max ≤ init.length := by simp at beyond; omega
      rw [List.take_append_of_le_length within,List.drop_append_of_le_length within]
      simp only [rest.1,rest.2,List.keys,List.map_append,List.map_cons,List.map_nil,
        List.reverse_append,List.reverse_cons,List.reverse_nil,List.nil_append,
        List.singleton_append,and_self]
    rename_i fits
    have fits := Nat.le_of_not_lt fits
    simp [List.take_of_length_le fits,List.drop_of_length_le fits]
end
end Gofly.Recency
