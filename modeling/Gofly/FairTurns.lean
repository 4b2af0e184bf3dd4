import Mathlib.Algebra.BigOperators.Group.Finset.Piecewise
import Mathlib.Algebra.Order.BigOperators.Group.Finset
import Mathlib.Tactic.Linarith
/-! Smooth weighted turns: every balance grows by its weight, and the highest takes the turn and
pays the sum of the weights. A round of as many turns serves each by its weight. -/
namespace Gofly.FairTurns
open Finset

variable {α : Type} [DecidableEq α] {s : Finset α} {w c : α → Int}

structure Turn (s : Finset α) (w c : α → Int) (taken : Option α) (next : α → Int) : Prop where
  taker : ∃ m ∈ s, taken = some m ∧ ∀ x ∈ s, c x + w x ≤ c m + w m
  paid : ∀ x ∈ s, next x = c x + w x - if taken = some x then ∑ y ∈ s, w y else 0

structure Level (s : Finset α) (w c : α → Int) : Prop where
  zero : ∑ x ∈ s, c x = 0
  above : ∀ x ∈ s, -∑ y ∈ s, w y < c x

theorem sumKept (turn : Turn s w c taken next) : ∑ x ∈ s, next x = ∑ x ∈ s, c x := by
  obtain ⟨m,mem,rfl,-⟩ := turn.taker
  rw [sum_congr rfl turn.paid,sum_sub_distrib,sum_add_distrib]
  simp [mem]

theorem turnLevel (pos : ∀ x ∈ s, 0 < w x) (level : Level s w c) (turn : Turn s w c taken next) : Level s w next := by
  refine ⟨(sumKept turn).trans level.zero,fun x mem => ?_⟩
  obtain ⟨m,inside,rfl,most⟩ := turn.taker
  -- the raised balances sum to the weights, so the highest is pos before it pays
  have payer : 0 < c m + w m := by
    by_contra low
    have none : ∑ x ∈ s, (c x + w x) ≤ 0 := sum_nonpos fun x mem => by
      have below := most x mem
      omega
    have some := sum_pos pos ⟨m,inside⟩
    rw [sum_add_distrib,level.zero] at none
    omega
  have was := level.above x mem
  have grows := pos x mem
  rw [turn.paid x mem]
  split
  · rename_i eq
    cases eq
    omega
  omega

section
variable {c : Nat → α → Int} {taken : Nat → Option α} {n : Nat} {x : α}

theorem turnsLevel (pos : ∀ x ∈ s, 0 < w x) (level : Level s w (c 0))
    (turns : ∀ j < n, Turn s w (c j) (taken j) (c (j + 1))) : Level s w (c n) := by
  induction n with
  | zero => exact level
  | succ n ih => exact turnLevel pos (ih fun j old => turns j (by omega)) (turns n (by omega))

theorem balance (turns : ∀ j < n, Turn s w (c j) (taken j) (c (j + 1))) (mem : x ∈ s) :
    c n x = c 0 x + n * w x - (List.range n).countP (taken · = some x) * ∑ y ∈ s, w y := by
  induction n with
  | zero => simp
  | succ n ih =>
    rw [(turns n (by omega)).paid x mem,ih fun j old => turns j (by omega),List.range_succ,List.countP_append]
    by_cases here : taken n = some x <;> simp [here] <;> linarith

variable (whole : n = ∑ y ∈ s, w y) (turns : ∀ j < n, Turn s w (c j) (taken j) (c (j + 1)))
include whole turns

theorem roundLevel (pos : ∀ x ∈ s, 0 < w x) (fresh : ∀ x ∈ s, c 0 x = 0) : ∀ x ∈ s, c n x = 0 := by
  have start : Level s w (c 0) := ⟨sum_eq_zero fresh,fun x mem => by
    rw [fresh x mem,neg_lt_zero]
    exact sum_pos pos ⟨x,mem⟩⟩
  have level := turnsLevel pos start turns
  -- a balance that is a multiple of the sum and above its negative is not negative
  have nonneg : ∀ x ∈ s, 0 ≤ c n x := fun x mem => by
    have above := level.above x mem
    rw [balance turns mem,fresh x mem,← whole] at above ⊢
    have multiple : 0 < n * (w x - (List.range n).countP (taken · = some x) + 1) := by linarith
    have floor := Int.mul_nonneg (Int.natCast_nonneg n) (Int.le_of_lt_add_one (pos_of_mul_pos_right multiple (Int.natCast_nonneg n)))
    linarith
  exact (sum_eq_zero_iff_of_nonneg nonneg).mp level.zero

theorem roundShares (turned : 0 < n) (eq : c n x = c 0 x) (mem : x ∈ s) :
    (List.range n).countP (taken · = some x) = w x := by
  have paid := balance turns mem
  rw [eq,← whole] at paid
  exact Int.eq_of_mul_eq_mul_left (a := n) (by omega) (by linarith)
end
end Gofly.FairTurns
