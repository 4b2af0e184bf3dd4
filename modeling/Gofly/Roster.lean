import Mathlib.Data.List.Nodup
/-! A roster: a list whose members are known by their places. One member is replaced, or
a new one comes in at the end; nobody else's place changes. -/
namespace Gofly.Roster

variable {α : Type} {list : List α} {i j : Nat} {x y z : α}

theorem setHere (got : list[i]? = some x) : (list.set i z)[i]? = some z :=
  List.getElem?_set_self (List.getElem_of_getElem? got).1

theorem setElsewhere (ne : i ≠ j) (got : list[j]? = some y) : (list.set i z)[j]? = some y := by
  rw [List.getElem?_set_ne ne,got]

theorem setBeside {β : Type} (f : α → β) (got : list[i]? = some x) (seen : list[j]? = some y)
    (differs : f x ≠ f y) : (list.set i z)[j]? = some y := by
  refine setElsewhere ?_ seen
  rintro rfl
  exact differs (congrArg f (Option.mem_unique got seen))

theorem setSeen (seen : (list.set i z)[j]? = some x) : (i = j ∧ x = z) ∨ (i ≠ j ∧ list[j]? = some x) := by
  rw [List.getElem?_set] at seen
  split at seen
  · rename_i here
    split at seen <;> try contradiction
    exact .inl ⟨here,(Option.some.inj seen).symm⟩
  exact .inr ⟨‹_›,seen⟩

theorem addBehind (got : list[i]? = some x) : (list ++ [z])[i]? = some x := by
  rw [List.getElem?_append_left (List.getElem_of_getElem? got).1,got]

theorem addMem (mem : x ∈ list ++ [z]) : x ∈ list ∨ x = z := by simpa using mem

theorem addSeen (seen : (list ++ [z])[j]? = some x) : (j = list.length ∧ x = z) ∨ list[j]? = some x := by
  rcases Nat.lt_or_ge j list.length with old | after
  · rw [List.getElem?_append_left old] at seen
    exact .inr seen
  rw [List.getElem?_append_right after,List.getElem?_singleton] at seen
  split at seen <;> try contradiction
  exact .inl ⟨by omega,(Option.some.inj seen).symm⟩

theorem modifyHere (f) (got : list[i]? = some x) : (list.modify i f)[i]? = some (f x) := by simp [got]

theorem modifyElsewhere (f) (ne : i ≠ j) (got : list[j]? = some y) : (list.modify i f)[j]? = some y := by
  simp [got,ne]

theorem modifySeen (seen : (list.modify i f)[j]? = some x) :
    ∃ y, list[j]? = some y ∧ x = if i = j then f y else y := by
  rw [List.getElem?_modify] at seen
  obtain ⟨y,got,eq⟩ := Option.map_eq_some_iff.mp seen
  exact ⟨y,got,eq.symm⟩

def mark (p : α → Bool) (list : List α) (i : Nat) : Nat := (list[i]?.any p).toNat

theorem markSeen (got : list[i]? = some x) : mark p list i = (p x).toNat := by simp [mark,got]

theorem markAdd (p : α → Bool) (list z i) :
    mark p (list ++ [z]) i = if i = list.length then (p z).toNat else mark p list i := by
  unfold mark
  split_ifs with last
  · simp [last]
  rcases Nat.lt_or_gt_of_ne last with old | after
  · rw [List.getElem?_append_left old]
  rw [List.getElem?_eq_none (by simp; omega),List.getElem?_eq_none (by omega)]

theorem markAdded (p : α → Bool) (list z i) :
    mark p (list ++ [z]) i = mark p list i + if i = list.length then (p z).toNat else 0 := by
  rw [markAdd]
  split_ifs with last
  · simp [mark,last]
  rfl

theorem markModify (p : α → Bool) (f list i j) :
    mark p (list.modify i f) j = if i = j then mark (p ∘ f) list j else mark p list j := by
  unfold mark
  rw [List.getElem?_modify]
  cases list[j]? <;> split_ifs <;> rfl

theorem markNever (list : List α) (i) : mark (fun _ => false) list i = 0 := by simp [mark]

theorem markSame (same : ∀ x, p (f x) = p x) (list i j) : mark p (list.modify i f) j = mark p list j := by
  have eq : p ∘ f = p := funext same
  rw [markModify,eq,ite_self]

theorem markDropped (never : ∀ x, p (f x) = false) (list i j) :
    mark p (list.modify i f) j = if i = j then 0 else mark p list j := by
  have eq : p ∘ f = fun _ => false := funext never
  rw [markModify,eq,markNever]

theorem markRaised (always : ∀ x, p (f x) = true) (list i j) :
    mark p (list.modify i f) j = if i = j then mark (fun _ => true) list j else mark p list j := by
  have eq : p ∘ f = fun _ => true := funext always
  rw [markModify,eq]

theorem markMap (p) (f : α → α) (list i) : mark p (list.map f) i = mark (p ∘ f) list i := by
  unfold mark
  rw [List.getElem?_map]
  cases list[i]? <;> rfl

theorem markMono (weaker : ∀ x, p x = true → q x = true) (list i) : mark p list i ≤ mark q list i := by
  unfold mark
  cases list[i]? with
  | none => exact Nat.le_refl _
  | some x =>
    have implied := weaker x
    simp only [Option.any_some]
    cases here : p x
    · exact Nat.zero_le _
    exact Nat.le_of_eq (by rw [implied here])

theorem markNot (p : α → Bool) (list i) :
    mark (fun x => !p x) list i + mark p list i = mark (fun _ => true) list i := by
  unfold mark
  cases list[i]? with
  | none => rfl
  | some x => cases here : p x <;> simp [here]

theorem markPast (p) : mark p list list.length = 0 := by simp [mark]

theorem markAbsent : mark (fun _ => true) list i = 0 ↔ list.length ≤ i := by
  cases got : list[i]? with
  | none => simp [mark,List.getElem?_eq_none_iff.mp got]
  | some => simp [mark,(List.getElem_of_getElem? got).1]

def places (p : α → Bool) (list : List α) : List Nat :=
  (List.range list.length).filter fun i => list[i]?.any p

theorem memPlaces : i ∈ places p list ↔ ∃ x, list[i]? = some x ∧ p x = true := by
  unfold places
  rw [List.mem_filter,List.mem_range,Option.any_eq_true]
  constructor
  · exact fun ⟨_,seen⟩ => seen
  exact fun ⟨x,got,holds⟩ => ⟨(List.getElem_of_getElem? got).1,x,got,holds⟩

theorem placesCount (p : α → Bool) (list i) : (places p list).count i = mark p list i := by
  have nodup : (places p list).Nodup := List.nodup_range.filter _
  unfold mark
  by_cases mem : i ∈ places p list
  · rw [List.nodup_iff_count_eq_one.mp nodup i mem,(Option.any_eq_true ..).mpr (memPlaces.mp mem)]
    rfl
  rw [List.count_eq_zero_of_not_mem mem,
    Bool.eq_false_iff.mpr fun holds => mem (memPlaces.mpr ((Option.any_eq_true ..).mp holds))]
  rfl

theorem countSet (p) (got : list[i]? = some x) (z) :
    (list.set i z).countP p + (p x).toNat = list.countP p + (p z).toNat := by
  induction list generalizing i with
  | nil => simp at got
  | cons _ _ ih =>
    cases i with
    | zero =>
      cases got
      simp only [List.set_cons_zero,List.countP_cons]
      cases p x <;> cases p z <;> simp
    | succ =>
      have later := ih got
      simp only [List.set_cons_succ,List.countP_cons]
      omega

def shuffle : List Nat → List α → List α
  | _,[] => []
  | order,x :: rest =>
    let others := shuffle order.tail rest
    others.insertIdx (order.headD 0 % (others.length + 1)) x

theorem shufflePerm (order) (list : List α) : (shuffle order list).Perm list := by
  induction list generalizing order with
  | nil => exact .nil
  | cons x rest ih =>
    have within : order.headD 0 % ((shuffle order.tail rest).length + 1) ≤
        (shuffle order.tail rest).length := Nat.le_of_lt_succ (Nat.mod_lt _ (Nat.succ_pos _))
    exact (List.perm_insertIdx x _ within).trans ((ih order.tail).cons x)

end Gofly.Roster
