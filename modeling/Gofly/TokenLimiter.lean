import Mathlib.Data.Rat.Floor
import Mathlib.Tactic.Positivity
import Gofly.Transition
/-! The distributed token-bucket limiter. Every process sends the script its own clock in
milliseconds; the script is atomic at the backend and its numbers are exact rationals. -/
namespace Gofly.TokenLimiter
open Transition

/-- What the backend holds under key:tokens and key:ts, which are there together. -/
structure Bucket where
  tokens : ℚ
  ts : ℚ
  px : ℤ
  deriving DecidableEq

structure Reply where
  bucket : Bucket
  allowed : Bool
  deriving DecidableEq

def refilled (rate burst now tokens last : ℚ) : ℚ :=
  min burst (tokens + max 0 (now - last) / 1000 * rate)

def tokenScript (rate burst now requested : ℚ) (keys : Option Bucket) : Reply :=
  let tokens := (keys.map Bucket.tokens).getD burst
  let last := (keys.map Bucket.ts).getD now
  let tokens := refilled rate burst now tokens last
  let ttl := ⌈burst / rate⌉ * 2000
  if requested ≤ tokens then ⟨⟨tokens - requested,now,ttl⟩,true⟩
  else ⟨⟨tokens,now,ttl⟩,false⟩

structure DistributedTokenLimiter where
  rate : ℤ
  burst : ℤ
  rated : 0 < rate
  sized : 0 < burst
  deriving DecidableEq

def positiveOr (fallback n : ℤ) : ℤ := if n ≤ 0 then fallback else n

theorem positiveOrPositive (ok : 0 < fallback) (n) : 0 < positiveOr fallback n := by
  unfold positiveOr
  split
  · exact ok
  omega

def newDistributedToken (rate burst : ℤ) : DistributedTokenLimiter where
  rate := positiveOr 1 rate
  burst := positiveOr (positiveOr 1 rate) burst
  rated := positiveOrPositive one_pos rate
  sized := positiveOrPositive (positiveOrPositive one_pos rate) burst

def allowN (l : DistributedTokenLimiter) (now n : ℤ) (keys : Option Bucket) : Reply :=
  tokenScript l.rate l.burst now (positiveOr 1 n) keys

structure World where
  keys : Option Bucket
  admitted : ℤ
  nows : List ℤ
  deriving DecidableEq

def start : World := ⟨none,0,[]⟩

/-- One AllowN of some process. With expired the keys are gone when the script reads them. -/
structure Call where
  now : ℤ
  n : ℤ
  expired : Bool
  deriving DecidableEq

def full (l : DistributedTokenLimiter) (now : ℤ) (keys : Option Bucket) : Bool :=
  match keys with
  | none => true
  | some b => decide (refilled l.rate l.burst now b.tokens b.ts = l.burst)

def read (w : World) (c : Call) : Option Bucket := if c.expired then none else w.keys

def step (l : DistributedTokenLimiter) (w : World) (c : Call) : Option World :=
  if c.expired && !full l c.now w.keys then none
  else
    let reply := allowN l c.now c.n (read w c)
    some ⟨some reply.bucket,if reply.allowed then w.admitted + positiveOr 1 c.n else w.admitted,
      c.now :: w.nows⟩

def spread (nows : List ℤ) : ℤ := nows.max?.getD 0 - nows.min?.getD 0

/-- No process's clock is behind the reading that the bucket holds. -/
def Ordered (w : World) (c : Call) : Prop := ∀ b ∈ w.keys, b.ts ≤ c.now
instance (w : World) (c : Call) : Decidable (Ordered w c) := by
  unfold Ordered; infer_instance

theorem refilledNonneg (rated : 0 ≤ rate) (sized : 0 ≤ burst) (held : 0 ≤ tokens) :
    0 ≤ refilled rate burst now tokens last := by
  have earned : 0 ≤ max 0 (now - last) / 1000 * rate := by positivity
  exact le_min sized (add_nonneg held earned)

theorem refilledAtMost (ordered : last ≤ now) :
    refilled rate burst now tokens last ≤ tokens + (now - last) / 1000 * rate := by
  have elapsed : max 0 (now - last) = now - last := max_eq_right (by linarith)
  unfold refilled
  rw [elapsed]
  exact min_le_right _ _

theorem refilledNew : refilled rate burst now burst now = burst := by simp [refilled]

theorem scriptSpends (stocked : refilled rate burst now ((keys.map Bucket.tokens).getD burst)
      ((keys.map Bucket.ts).getD now) = found)
    (replied : tokenScript rate burst now requested keys = reply) (nonneg : 0 ≤ found) :
    reply.bucket.ts = now ∧ 0 ≤ reply.bucket.tokens ∧
      reply.bucket.tokens + (if reply.allowed then requested else 0) = found := by
  subst replied
  simp only [tokenScript,stocked]
  split
  · exact ⟨rfl,sub_nonneg.mpr ‹_›,by simp⟩
  exact ⟨rfl,nonneg,by simp⟩

theorem spreadCovers (early : first ∈ nows) (late : last ∈ nows) : last - first ≤ spread nows := by
  obtain ⟨top,largest⟩ := Option.isSome_iff_exists.mp (List.isSome_max?_of_mem late)
  obtain ⟨low,smallest⟩ := Option.isSome_iff_exists.mp (List.isSome_min?_of_mem early)
  have above := (List.max?_eq_some_iff.mp largest).2 last late
  have below := (List.min?_eq_some_iff.mp smallest).2 first early
  simp only [spread,largest,smallest,Option.getD_some]
  omega

def Budget (l : DistributedTokenLimiter) (w : World) : Prop :=
  match w.keys with
  | none => w.admitted = 0 ∧ w.nows = []
  | some b => 0 ≤ b.tokens ∧ ∃ first ∈ w.nows, ∃ last ∈ w.nows, b.ts = last ∧
      w.admitted + b.tokens ≤ l.burst + (last - first) / 1000 * l.rate

def stock (l : DistributedTokenLimiter) (w : World) (c : Call) : ℚ :=
  refilled l.rate l.burst c.now (((read w c).map Bucket.tokens).getD l.burst)
    (((read w c).map Bucket.ts).getD c.now)

theorem stockNew (unset : w.keys = none) : stock l w c = l.burst := by simp [stock,read,unset,refilledNew]

theorem stockHeld (held : w.keys = some b) (ran : step l w c = some next) :
    stock l w c = refilled l.rate l.burst c.now b.tokens b.ts := by
  unfold step at ran
  split at ran <;> try contradiction
  rename_i kept
  cases gone : c.expired with
  | false => simp [stock,read,gone,held]
  | true =>
    have full : refilled l.rate l.burst c.now b.tokens b.ts = l.burst := by simpa [gone,full,held] using kept
    rw [full]
    simp [stock,read,gone,refilledNew]

theorem stepSpends (ran : step l w c = some next) (stocked : 0 ≤ stock l w c) :
    ∃ b, next.keys = some b ∧ b.ts = c.now ∧ 0 ≤ b.tokens ∧ next.nows = c.now :: w.nows ∧
      next.admitted + b.tokens = w.admitted + stock l w c := by
  unfold step at ran
  split at ran <;> cases ran
  obtain ⟨stamped,left,sum⟩ := scriptSpends (stock.eq_1 l w c).symm rfl stocked
  refine ⟨_,rfl,stamped,left,rfl,?_⟩
  rw [← sum,allowN]
  split <;> push_cast <;> ring

theorem stockEarned (budget : Budget l w) (ordered : Ordered w c) (ran : step l w c = some next) :
    0 ≤ stock l w c ∧ ∃ first ∈ c.now :: w.nows,
      w.admitted + stock l w c ≤ l.burst + (c.now - first) / 1000 * l.rate := by
  have rated : (0 : ℚ) ≤ l.rate := Int.cast_nonneg l.rated.le
  have sized : (0 : ℚ) ≤ l.burst := Int.cast_nonneg l.sized.le
  unfold Budget at budget
  split at budget
  · rename_i unset
    rw [stockNew unset]
    exact ⟨sized,c.now,List.mem_cons_self,by simp [budget.1]⟩
  rename_i b held
  obtain ⟨nonneg,first,early,last,-,stamp,within⟩ := budget
  rw [stockHeld held ran]
  refine ⟨refilledNonneg rated sized nonneg,first,List.mem_cons_of_mem _ early,?_⟩
  have earned : refilled l.rate l.burst c.now b.tokens b.ts ≤
      b.tokens + (c.now - b.ts) / 1000 * l.rate := refilledAtMost (ordered b held)
  rw [stamp] at earned ⊢
  linarith

theorem budgetKept (budget : Budget l w) (ordered : Ordered w c) (ran : step l w c = some next) : Budget l next := by
  obtain ⟨stocked,first,early,earned⟩ := stockEarned budget ordered ran
  obtain ⟨b,keys,stamped,left,nows,spent⟩ := stepSpends ran stocked
  simp only [Budget,keys]
  refine ⟨left,first,nows ▸ early,c.now,nows ▸ List.mem_cons_self,stamped,?_⟩
  rw [spent]
  exact earned

theorem budgetBounds (budget : Budget l w) : (w.admitted : ℚ) ≤ l.burst + l.rate * (spread w.nows / 1000) := by
  have rated : (0 : ℚ) ≤ l.rate := Int.cast_nonneg l.rated.le
  unfold Budget at budget
  split at budget
  · have sized : (0 : ℚ) ≤ l.burst := Int.cast_nonneg l.sized.le
    simp [budget.1,budget.2,spread,sized]
  obtain ⟨nonneg,first,early,last,late,-,within⟩ := budget
  have met : (last - first : ℚ) ≤ spread w.nows := mod_cast spreadCovers early late
  have earned : (last - first : ℚ) / 1000 * l.rate ≤ spread w.nows / 1000 * l.rate := by gcongr
  linarith

def NeverOverAdmits (l : DistributedTokenLimiter) (w : World) : Prop :=
  (w.admitted : ℚ) ≤ l.burst + l.rate * (spread w.nows / 1000)

theorem orderedNeverOverAdmits (rate burst : ℤ) (calls : List Call) (w : World)
    (h : Trace (step (newDistributedToken rate burst)) Ordered start calls w) :
    NeverOverAdmits (newDistributedToken rate burst) w :=
  budgetBounds (traceInvariant (fun _ _ _ => budgetKept) h ⟨rfl,rfl⟩)

def skewed : List Call := [⟨0,1,false⟩,⟨1000,1,false⟩,⟨0,1,false⟩,⟨1000,1,false⟩]

theorem skewedAdmits : (run (step (newDistributedToken 1 1)) start skewed).map
    (fun w => (w.admitted,w.nows)) = some (3,[1000,0,1000,0]) := by decide +kernel

theorem skewedClockOverAdmits :
    ¬ ∀ rate burst calls w, Trace (step (newDistributedToken rate burst)) Free start calls w →
      NeverOverAdmits (newDistributedToken rate burst) w := by
  intro law
  obtain ⟨w,ran,counts⟩ := Option.map_eq_some_iff.mp skewedAdmits
  obtain ⟨admitted,nows⟩ := Prod.mk.inj counts
  have bound := law 1 1 skewed w (runFree ran)
  have span : spread w.nows = 1000 := by rw [nows]; decide
  simp only [NeverOverAdmits,admitted,span,newDistributedToken,positiveOr] at bound
  norm_num at bound

def orderly : List Call := [⟨0,1,false⟩,⟨1000,1,false⟩,⟨3000,0,true⟩]

theorem orderlyNeverOverAdmits : ∃ w,
    Transition.run (step (newDistributedToken 1 1)) start orderly = some w ∧ w.admitted = 3 ∧
      NeverOverAdmits (newDistributedToken 1 1) w := by
  have ok : accepts (step (newDistributedToken 1 1)) Ordered start orderly = true := by decide +kernel
  have admitted : (run (step (newDistributedToken 1 1)) start orderly).map World.admitted = some 3 := by
    decide +kernel
  obtain ⟨w,ran,trace⟩ := acceptedTrace ok
  rw [ran] at admitted
  exact ⟨w,ran,Option.some.inj admitted,orderedNeverOverAdmits 1 1 orderly w trace⟩

end Gofly.TokenLimiter
