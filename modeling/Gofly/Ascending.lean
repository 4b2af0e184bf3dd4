import Mathlib.Data.List.Sort
/-! Lists in strictly ascending order of a key: the part up to a key, which grows by one element
at a time, and the neighbours of an element. -/
namespace Gofly.Ascending

variable {α κ : Type} [LinearOrder κ] {key : α → κ} {list : List α} {x y : α} {k : κ}

def Ascends (key : α → κ) (list : List α) : Prop := list.Pairwise fun a b => key a < key b
def upTo (key : α → κ) (list : List α) (k : κ) : List α := list.filter fun a => key a ≤ k
def next (key : α → κ) (list : List α) (k : κ) : Option α := list.find? fun a => k < key a
def prev (key : α → κ) (list : List α) (k : κ) : Option α := list.reverse.find? fun a => key a < k

theorem upToSplit (below : ∀ a ∈ before, key a ≤ k) (above : ∀ a ∈ after, k < key a) :
    upTo key (before ++ after) k = before := by
  have kept : before.filter (fun a => key a ≤ k) = before := List.filter_eq_self.mpr (by simpa using below)
  have gone : after.filter (fun a => key a ≤ k) = [] := List.filter_eq_nil_iff.mpr (by simpa using above)
  simp [upTo,kept,gone]

theorem upToAt (ascends : Ascends key (before ++ x :: after)) :
    upTo key (before ++ x :: after) (key x) = before ++ [x] := by
  obtain ⟨_,later,first⟩ := List.pairwise_append.mp ascends
  rw [List.append_cons]
  refine upToSplit (fun a mem => ?_) fun a => List.rel_of_pairwise_cons later
  rcases List.mem_append.mp mem with old | new
  · exact le_of_lt (first a old x (by simp))
  exact le_of_eq (by rw [List.mem_singleton.mp new])

theorem upToNext (ascends : Ascends key list) (got : next key list k = some x) :
    k < key x ∧ upTo key list (key x) = upTo key list k ++ [x] := by
  obtain ⟨above,old,after,rfl,below⟩ := List.find?_eq_some_iff_append.mp got
  have more : k < key x := by simpa using above
  refine ⟨more,?_⟩
  rw [upToAt ascends,upToSplit (by simpa using below)]
  intro a mem
  rcases List.mem_cons.mp mem with rfl | later
  · exact more
  exact more.trans (List.rel_of_pairwise_cons (List.pairwise_append.mp ascends).2.1 later)

theorem prevAt (ascends : Ascends key (before ++ x :: after)) :
    prev key (before ++ x :: after) (key x) = before.getLast? := by
  obtain ⟨_,later,first⟩ := List.pairwise_append.mp ascends
  have none : after.reverse.find? (fun a => decide (key a < key x)) = none := by
    refine List.find?_eq_none.mpr fun a mem => ?_
    simpa using le_of_lt (List.rel_of_pairwise_cons later (List.mem_reverse.mp mem))
  have all : before.reverse.find? (fun a => decide (key a < key x)) = before.reverse.head? := by
    cases back : before.reverse with
    | nil => rfl
    | cons a rest =>
      have mem : a ∈ before := by
        rw [← List.mem_reverse,back]
        exact List.mem_cons_self
      simp [first a mem x (by simp)]
  simp [prev,none,all]

theorem upToPrev (ascends : Ascends key list) (mem : x ∈ list) :
    upTo key list (key x) = ((prev key list (key x)).elim [] fun y => upTo key list (key y)) ++ [x] := by
  obtain ⟨old,after,rfl⟩ := List.append_of_mem mem
  rw [upToAt ascends,prevAt ascends]
  rcases List.eq_nil_or_concat old with rfl | ⟨first,y,rfl⟩
  · rfl
  have split : (first ++ [y]) ++ x :: after = first ++ y :: (x :: after) := by simp
  rw [List.concat_eq_append] at *
  simp only [List.getLast?_append,List.getLast?_singleton,Option.some_or,Option.elim_some]
  rw [split] at ascends ⊢
  rw [upToAt ascends]

theorem ascendsDistinct (ascends : Ascends key list) : (list.map key).Nodup :=
  List.pairwise_map.mpr (ascends.imp ne_of_lt)

theorem sortAscends (nodup : (list.map key).Nodup) :
    Ascends key (list.insertionSort fun a b => key a ≤ key b) := by
  have sorted := List.pairwise_insertionSort (fun a b => key a ≤ key b) list
  have ne : (list.insertionSort fun a b => key a ≤ key b).Pairwise fun a b => key a ≠ key b :=
    List.pairwise_map.mp (((List.perm_insertionSort _ list).map key).nodup_iff.mpr nodup)
  exact sorted.imp₂ (fun _ _ => lt_of_le_of_ne) ne

theorem ascendsSame (ascends : Ascends key list) (also : Ascends key other) (perm : list.Perm other) : list = other :=
  perm.eq_of_pairwise (fun _ _ _ _ less more => absurd less (lt_asymm more)) ascends also

theorem upToMember (mem : x ∈ upTo key list k) : x ∈ list ∧ key x ≤ k := by simpa [upTo] using mem
end Gofly.Ascending
