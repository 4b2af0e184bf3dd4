import Mathlib.Algebra.GroupWithZero.Nat
import Mathlib.Data.List.Basic

/-! The weight of a list: the sum of its members' weights, and what is left of it when
one member is taken out or replaced. -/
namespace Gofly.Weights

variable {α : Type} {w : α → Nat} {xs ys : List α} {x y : α} {i : Nat}
def weigh (w : α → Nat) (xs : List α) : Nat := (xs.map w).sum

@[simp] theorem weighNil : weigh w [] = 0 := rfl
@[simp] theorem weighCons : weigh w (x :: xs) = w x + weigh w xs := rfl
@[simp] theorem weighAppend : weigh w (xs ++ ys) = weigh w xs + weigh w ys := by simp [weigh]

theorem weighZero (none : ∀ x ∈ xs, w x = 0) : weigh w xs = 0 := by
  induction xs with
  | nil => rfl
  | cons head _ ih =>
    rw [weighCons,none head List.mem_cons_self,ih fun x mem => none x (List.mem_cons_of_mem _ mem)]

theorem weighPositive (pos : 0 < weigh w xs) : ∃ x ∈ xs, 0 < w x := by
  by_contra none
  have zero : weigh w xs = 0 := weighZero fun x mem => by
    by_contra some
    exact none ⟨x,mem,Nat.pos_of_ne_zero some⟩
  omega

section
variable (ith : xs[i]? = some x)
include ith

theorem weighErase : weigh w (xs.eraseIdx i) + w x = weigh w xs := by
  induction xs generalizing i with
  | nil => simp at ith
  | cons _ rest ih =>
    cases i with
    | zero =>
      cases ith
      simp only [List.eraseIdx_cons_zero,weighCons]
      omega
    | succ =>
      have rest := ih ith
      simp only [List.eraseIdx_cons_succ,weighCons]
      omega

theorem weighSet : weigh w (xs.set i y) + w x = weigh w xs + w y := by
  induction xs generalizing i with
  | nil => simp at ith
  | cons _ rest ih =>
    cases i with
    | zero =>
      cases ith
      simp only [List.set_cons_zero,weighCons]
      omega
    | succ =>
      have rest := ih ith
      simp only [List.set_cons_succ,weighCons]
      omega

theorem weighSame (eq : w y = w x) : weigh w (xs.set i y) = weigh w xs := by
  have sum := weighSet (w := w) (y := y) ith
  omega

theorem weighFalls (fewer : w y ≤ w x) : weigh w (xs.set i y) ≤ weigh w xs := by
  have sum := weighSet (w := w) (y := y) ith
  omega

theorem weighMember : w x ≤ weigh w xs := by
  have rest := weighErase (w := w) ith
  omega
end

theorem weighPair (differ : i ≠ j) (left : xs[i]? = some x) (right : xs[j]? = some y) : w x + w y ≤ weigh w xs := by
  induction xs generalizing i j with
  | nil => simp at left
  | cons _ rest ih =>
    rw [weighCons]
    cases i with
    | zero =>
      cases left
      cases j with
      | zero => exact absurd rfl differ
      | succ j =>
        have mem : w y ≤ weigh w rest := weighMember (i := j) right
        omega
    | succ i =>
      cases j with
      | zero =>
        cases right
        have mem : w x ≤ weigh w rest := weighMember (i := i) left
        omega
      | succ =>
        have both := ih (fun eq => differ (congrArg Nat.succ eq)) left right
        omega

theorem weighLength (pos : ∀ x, 0 < w x) : xs.length ≤ weigh w xs := by
  induction xs with
  | nil => exact Nat.le_refl _
  | cons head =>
    have here := pos head
    rw [List.length_cons,weighCons]
    omega

theorem modifySet (ith : xs[i]? = some x) : xs.modify i f = xs.set i (f x) := by
  induction xs generalizing i with
  | nil => simp at ith
  | cons head _ ih =>
    cases i with
    | zero =>
      cases ith
      rfl
    | succ => exact congrArg (head :: ·) (ih ith)

theorem modifyAbsent (gone : xs[i]? = none) : xs.modify i f = xs :=
  List.modify_eq_self (List.getElem?_eq_none_iff.mp gone)

theorem weighModify (eq : ∀ x, w (f x) = w x) : weigh w (xs.modify i f) = weigh w xs := by
  cases ith : xs[i]? with
  | none => rw [modifyAbsent ith]
  | some x => rw [modifySet ith,weighSame ith (eq x)]

theorem atSet (ith : xs[i]? = some x) (after : (xs.set i y)[j]? = some z) :
    j = i ∧ z = y ∨ j ≠ i ∧ xs[j]? = some z := by
  by_cases here : j = i
  · subst here
    rw [List.getElem?_set_self (List.getElem?_eq_some_iff.mp ith).1] at after
    exact .inl ⟨rfl,(Option.some.inj after).symm⟩
  rw [List.getElem?_set_ne (Ne.symm here)] at after
  exact .inr ⟨here,after⟩

theorem mapSet {β : Type} {f : α → β} (ith : xs[i]? = some x) (eq : f y = f x) : (xs.set i y).map f = xs.map f := by
  rw [List.map_set,eq]
  apply List.ext_getElem?
  intro j
  by_cases here : i = j
  · subst here
    obtain ⟨bound,rfl⟩ := List.getElem_of_getElem? ith
    simp [bound]
  simp [here]

end Gofly.Weights
