import Gofly.FairTurns
import Gofly.P2CBalancer
/-! The weighted round robin balancer. -/
namespace Gofly.WeightedRoundRobin
open P2C FairTurns

-- an int of the source
def wrap (x : Int) : Int := x.bmod 18446744073709551616

def weightOf (weights : Str → Int) (endpoint : Str) : Int := if weights endpoint ≤ 0 then 1 else weights endpoint

structure Scan where
  chosen : Str
  total : Int
  current : Str → Int

def visit (weights : Str → Int) (s : Scan) (endpoint : Str) : Scan :=
  let weight := weightOf weights endpoint
  let current := Function.update s.current endpoint (wrap (s.current endpoint + weight))
  { chosen := if s.chosen = [] ∨ current s.chosen < current endpoint then endpoint else s.chosen
    total := wrap (s.total + weight),current }

def pick (weights current : Str → Int) (ctx : Option String) (endpoints : List Str) : Except String Str × (Str → Int) :=
  match ctx with
  | some err => (.error err,current)
  | none =>
    let candidates := normalizeEndpoints endpoints
    if candidates = [] then (.error "no endpoint to pick",current)
    else
      let s := candidates.foldl (visit weights) ⟨[],0,current⟩
      if s.chosen = [] then (.error "no endpoint to pick",s.current)
      else (.ok s.chosen,Function.update s.current s.chosen (wrap (s.current s.chosen - s.total)))

def total (f : Str → Int) (endpoints : List Str) : Int := ((normalizeEndpoints endpoints).map f).sum

/-- Whichever candidate is chosen, what it has after its weight and after it pays is an int. -/
abbrev Fits (weights current : Str → Int) (endpoints : List Str) : Prop :=
  ∀ e ∈ normalizeEndpoints endpoints, current e + weightOf weights e < 2 ^ 63 ∧
    -2 ^ 63 ≤ current e + weightOf weights e - total (weightOf weights) endpoints

def after (weights : Str → Int) (endpoints : List Str) : Nat → Str → Int
  | 0 => fun _ => 0
  | n + 1 => (pick weights (after weights endpoints n) none endpoints).2

theorem normalizedDistinct (endpoints) : (normalizeEndpoints endpoints).Nodup := by
  suffices kept : ∀ out : List Str, out.Nodup → (endpoints.foldl admitEndpoint out).Nodup from kept [] .nil
  induction endpoints with
  | nil => exact fun _ nodup => nodup
  | cons e _ ih =>
    refine fun out nodup => ih _ ?_
    unfold admitEndpoint
    split
    · exact nodup
    exact List.nodup_append.mpr ⟨nodup,List.nodup_singleton _,by grind⟩

section

theorem weightPositive (e) : 0 < weightOf weights e := by
  unfold weightOf
  split <;> omega

structure Scanned (weights current : Str → Int) (xs : List Str) (s : Scan) : Prop where
  total : s.total = wrap (xs.map (weightOf weights)).sum
  current : ∀ e, s.current e = if e ∈ xs then wrap (current e + weightOf weights e) else current e
  chosen : xs = [] ∧ s.chosen = [] ∨ s.chosen ∈ xs ∧ ∀ e ∈ xs, s.current e ≤ s.current s.chosen

theorem scanned (weights current : Str → Int) (nodup : xs.Nodup) (full : ∀ e ∈ xs, e ≠ []) :
    Scanned weights current xs (xs.foldl (visit weights) ⟨[],0,current⟩) := by
  induction xs using List.reverseRecOn with
  | nil => exact ⟨rfl,by simp,.inl ⟨rfl,rfl⟩⟩
  | append_singleton xs e ih =>
    obtain ⟨old,-,ne⟩ := List.nodup_append.mp nodup
    have was := ih old fun e mem => full e (List.mem_append_left _ mem)
    rw [List.foldl_concat]
    have new : e ∉ xs := fun old => ne e old e (List.mem_singleton_self e) rfl
    refine ⟨?_,fun x => ?_,.inr ?_⟩
    · simp [visit,was.total,wrap]
    · by_cases here : x = e
      · simp [visit,here,was.current e,new]
      · simp [visit,here,was.current x]
    rcases was.chosen with ⟨rfl,none⟩ | ⟨inside,most⟩
    · simp [visit]
    simp only [visit]
    split <;> grind

theorem totalSum (f : Str → Int) : total f endpoints = ∑ e ∈ (normalizeEndpoints endpoints).toFinset, f e :=
  (List.sum_toFinset f (normalizedDistinct endpoints)).symm

variable (given : normalizeEndpoints endpoints ≠ [])
include given

theorem totalPositive (weights : Str → Int) : 0 < total (weightOf weights) endpoints := by
  rw [totalSum]
  exact Finset.sum_pos (fun e _ => weightPositive e) (by simpa using given)

theorem pickTurn (fits : Fits weights current endpoints) :
    Turn (normalizeEndpoints endpoints).toFinset (weightOf weights) current
        (pick weights current none endpoints).1.toOption (pick weights current none endpoints).2 ∧
      ∀ e ∉ normalizeEndpoints endpoints, (pick weights current none endpoints).2 e = current e := by
  have seen := scanned weights current (normalizedDistinct endpoints) fun _ => normalizedFilled
  have pos := totalPositive given weights
  unfold pick
  simp only [given]
  generalize (normalizeEndpoints endpoints).foldl (visit weights) ⟨[],0,current⟩ = s at seen
  obtain ⟨inside,most⟩ := seen.chosen.resolve_left fun none => given none.1
  have raised e (mem : e ∈ normalizeEndpoints endpoints) : s.current e = current e + weightOf weights e := by
    have range := fits e mem
    rw [seen.current e,if_pos mem]
    refine Int.bmod_eq_of_le ?_ ?_ <;> omega
  have paid : wrap (s.current s.chosen - s.total) =
      current s.chosen + weightOf weights s.chosen - total (weightOf weights) endpoints := by
    have range := fits _ inside
    rw [raised _ inside,seen.total,wrap,wrap,Int.sub_bmod_bmod]
    refine Int.bmod_eq_of_le ?_ ?_ <;> simp only [total] at * <;> omega
  rw [if_neg (normalizedFilled inside)]
  refine ⟨⟨⟨s.chosen,List.mem_toFinset.mpr inside,rfl,fun x mem => ?_⟩,fun x mem => ?_⟩,fun e outside => ?_⟩
  · have within := List.mem_toFinset.mp mem
    rw [← raised x within,← raised _ inside]
    exact most x within
  · rw [← totalSum]
    by_cases here : x = s.chosen
    · subst here
      simp [Except.toOption,paid]
    simp [Except.toOption,here,Ne.symm here,raised x (List.mem_toFinset.mp mem)]
  have other : e ≠ s.chosen := fun eq => outside (eq ▸ inside)
  simp [other,seen.current e,outside]

variable {n : Nat} (fits : ∀ j < n, Fits weights (after weights endpoints j) endpoints)
include fits

theorem afterTurns : ∀ j < n, Turn (normalizeEndpoints endpoints).toFinset (weightOf weights)
    (after weights endpoints j) (pick weights (after weights endpoints j) none endpoints).1.toOption
    (after weights endpoints (j + 1)) := fun j old => (pickTurn given (fits j old)).1

theorem afterOutside (outside : e ∉ normalizeEndpoints endpoints) : after weights endpoints n e = 0 := by
  induction n with
  | zero => rfl
  | succ n ih =>
    rw [after,(pickTurn given (fits n (by omega))).2 e outside]
    exact ih fun j old => fits j (by omega)

theorem afterRound (whole : n = total (weightOf weights) endpoints) : after weights endpoints n = fun _ => 0 := by
  funext e
  by_cases ith : e ∈ normalizeEndpoints endpoints
  · exact roundLevel (whole.trans (totalSum _)) (afterTurns given fits) (fun x _ => weightPositive x) (fun _ _ => rfl)
      e (List.mem_toFinset.mpr ith)
  exact afterOutside given fits ith

omit given fits in
theorem afterAgain (round : after weights endpoints n = fun _ => 0) (k) :
    after weights endpoints (k + n) = after weights endpoints k := by
  induction k with
  | zero => rw [Nat.zero_add,round,after]
  | succ k ih => rw [Nat.succ_add,after,ih,after]

omit given fits in
theorem afterRounds (round : after weights endpoints n = fun _ => 0) (m) : after weights endpoints (n * m) = fun _ => 0 := by
  induction m with
  | zero => rfl
  | succ m ih => rw [Nat.mul_succ,afterAgain round,ih]
end

theorem weightedFair (weights : Str → Int) (endpoints : List Str) (given : normalizeEndpoints endpoints ≠ []) :
    (∀ current, Fits weights current endpoints →
      total (pick weights current none endpoints).2 endpoints = total current endpoints) ∧
    ∀ k n : Nat, n = total (weightOf weights) endpoints →
      (∀ j < k + n, Fits weights (after weights endpoints j) endpoints) →
      (∀ e ∈ normalizeEndpoints endpoints, (List.range n).countP (fun j =>
          (pick weights (after weights endpoints (k + j)) none endpoints).1.toOption = some e) = weightOf weights e) ∧
        after weights endpoints (k + n) = after weights endpoints k ∧
        (n ∣ k → after weights endpoints (k + n) = fun _ => 0) := by
  refine ⟨fun current fits => ?_,fun k n whole fits => ?_⟩
  · rw [totalSum,totalSum,sumKept (pickTurn given fits).1]
  have round := afterRound given (fun j before => fits j (by omega)) whole
  have again := afterAgain round
  refine ⟨fun e listed => ?_,again k,?_⟩
  · refine roundShares (c := fun j => after weights endpoints (k + j)) (whole.trans (totalSum _))
      (fun j before => (pickTurn given (fits (k + j) (by omega))).1) ?_ (congrFun (again k) e) (List.mem_toFinset.mpr listed)
    have positive := totalPositive given weights
    omega
  rintro ⟨m,rfl⟩
  rw [again,afterRounds round]

def heavy (_ : Str) : Int := 4611686018427387904

theorem sumOverflows : total (after heavy [['a'],['b'],['c']] 1) [['a'],['b'],['c']] = 0 ∧
      total (after heavy [['a'],['b'],['c']] 2) [['a'],['b'],['c']] = -2 ^ 64 := by decide

def lopsided (endpoint : Str) : Int := if endpoint = ['a'] then 2 else 0

theorem thirdEmpties : after lopsided [['a'],['b','/']] 3 = fun _ => 0 := by
  have fits : ∀ j < 0 + 3, Fits lopsided (after lopsided [['a'],['b','/']] j) [['a'],['b','/']] := by decide
  exact ((weightedFair lopsided [['a'],['b','/']] (by decide)).2 0 3 (by decide) fits).2.1

end Gofly.WeightedRoundRobin
