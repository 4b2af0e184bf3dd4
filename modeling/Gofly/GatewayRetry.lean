import Mathlib.Tactic.NormNum
import Gofly.GatewayRoute
/-! The gateway's retry loop. -/
namespace Gofly.Gateway
open Governance

/-- A token bucket. Its numbers are exact here, and its clock counts seconds. -/
structure Limiter where
  rate : ℚ
  burst : ℚ
  tokens : ℚ
  last : ℚ
  deriving DecidableEq

def newLimiter (rate burst : Int) (now : ℚ) : Limiter :=
  let rate := if rate ≤ 0 then 1 else rate
  let burst := if burst ≤ 0 then rate else burst
  ⟨rate,burst,burst,now⟩

def Limiter.allow (l : Limiter) (now : ℚ) : Bool × Limiter :=
  let tokens := min l.burst (l.tokens + (now - l.last) * l.rate)
  if tokens < 1 then (false,{ l with tokens := tokens,last := now })
  else (true,{ l with tokens := tokens - 1,last := now })

abbrev Buckets := Str → Option Limiter

structure RetryRuntime where
  route : Buckets
  upstream : Buckets

def newRetryRuntime : RetryRuntime := ⟨fun _ => none,fun _ => none⟩

def allow (bucket : Buckets) (key : Str) (rate burst : Int) (now : ℚ) : Bool × Buckets :=
  let (allowed,limiter) := ((bucket key).getD (newLimiter rate burst now)).allow now
  (allowed,Function.update bucket key (some limiter))

def allowRetry (runtime : RetryRuntime) (now : ℚ) (route : Route) (endpoint : Str)
    (policy : RetryPolicy) : Bool × RetryRuntime :=
  if policy.budgetRate ≤ 0 then (true,runtime)
  else
    let key := routeKey route
    let (allowed,routes) := allow runtime.route key policy.budgetRate policy.budgetBurst now
    let runtime := { runtime with route := routes }
    if !allowed then (false,runtime)
    else if endpoint = [] then (true,runtime)
    else
      let (allowed,upstreams) :=
        allow runtime.upstream (key ++ '|' :: endpoint) policy.budgetRate policy.budgetBurst now
      (allowed,{ runtime with upstream := upstreams })

theorem freshLimiter (rate burst now) : ((newLimiter rate burst now).allow now).1 = true := by
  have sized : (1 : ℚ) ≤ (newLimiter rate burst now).burst := by
    simp only [newLimiter]
    split_ifs <;> exact_mod_cast (by omega)
  have full : min (newLimiter rate burst now).burst
      ((newLimiter rate burst now).tokens + (now - (newLimiter rate burst now).last) *
        (newLimiter rate burst now).rate) = (newLimiter rate burst now).burst := by
    simp [newLimiter]
  simp only [Limiter.allow,full]
  rw [if_neg (not_lt.mpr sized)]

theorem freshAllows (route endpoint policy now) :
    (allowRetry newRetryRuntime now route endpoint policy).1 = true := by
  unfold allowRetry
  split
  · rfl
  simp only [allow,newRetryRuntime,Option.getD_none,freshLimiter,Bool.not_true,Bool.false_eq_true, if_false]
  split <;> rfl

structure ProxyResult (ε : Type) where
  endpoint : Str
  status : Int
  header : List (Str × Str)
  body : Str
  bodyStream : Option Str
  doNotRetry : Bool
  retries : Nat
  err : Option ε
  deriving DecidableEq

def noResult {ε : Type} : ProxyResult ε := ⟨[],0,[],[],none,false,0,none⟩

structure Round (ε : Type) where
  runtime : RetryRuntime
  now : ℚ
  done : Option ε
  result : ProxyResult ε
  err : Option ε

structure Ran (ε : Type) where
  attempts : Nat
  result : ProxyResult ε
  err : Option ε
  deriving DecidableEq

variable {ε : Type}

def pause (policy : RetryPolicy) (route : Route) (attempt : Nat) (last : ProxyResult ε)
    (round : Round ε) : Option (Option ε) :=
  if attempt = 0 then none
  -- the budgets left over are what later turns and requests find
  else if !(allowRetry round.runtime round.now route last.endpoint policy).1 then some none
  else if policy.backoff ≤ 0 then none
  else round.done.map some

def verdict (policy : RetryPolicy) (attempt : Nat) (result : ProxyResult ε) (err : Option ε) :
    Option (Option ε) :=
  if result.doNotRetry then some err
  else
    match err with
    | some e => if (attempt : Int) + 1 < policy.attempts then none else some (some e)
    | none =>
      if result.bodyStream.isSome then some none
      else if !policy.shouldRetryStatus result.status || decide ((attempt : Int) + 1 ≥ policy.attempts) then
        some none
      else none

def retryLoop (policy : RetryPolicy) (route : Route) (rounds : Nat → Round ε) :
    (left attempt : Nat) → ProxyResult ε → Ran ε
  | 0,attempt,last => ⟨attempt,last,last.err⟩
  | left + 1,attempt,last =>
    match pause policy route attempt last (rounds attempt) with
    | some err => ⟨attempt,last,err⟩
    | none =>
      let last := { (rounds attempt).result with retries := attempt }
      match verdict policy attempt (rounds attempt).result (rounds attempt).err with
      | some err => ⟨attempt + 1,last,err⟩
      | none => retryLoop policy route rounds left (attempt + 1) last

def effectivePolicy [Letters] (route : Route) (method : Str) (bodyLength : Nat) : RetryPolicy :=
  let policy := normalizeRetryPolicy route.retry
  if !policy.matchesMethod method ∨ policy.maxBodyBytes > 0 ∧ (bodyLength : Int) > policy.maxBodyBytes then
    { policy with attempts := 1 }
  else policy

def proxyWithRetry [Letters] (route : Route) (method : Str) (bodyLength : Nat) (rounds : Nat → Round ε) : Ran ε :=
  let policy := effectivePolicy route method bodyLength
  retryLoop policy route rounds policy.attempts.toNat 0 noResult

def lastOf (rounds : Nat → Round ε) (k : Nat) : ProxyResult ε := { (rounds k).result with retries := k }
def Repeats (policy : RetryPolicy) (rounds : Nat → Round ε) (k : Nat) : Prop :=
  verdict policy k (rounds k).result (rounds k).err = none

inductive Ends (policy : RetryPolicy) (route : Route) (rounds : Nat → Round ε) : Ran ε → Prop where
  | settled (k : Nat) (err : Option ε) (before : ∀ j < k, Repeats policy rounds j)
      (ended : verdict policy k (rounds k).result (rounds k).err = some err) :
      Ends policy route rounds ⟨k + 1,lastOf rounds k,err⟩
  | paused (k : Nat) (err : Option ε) (before : ∀ j < k + 1, Repeats policy rounds j)
      (ended : pause policy route (k + 1) (lastOf rounds k) (rounds (k + 1)) = some err) :
      Ends policy route rounds ⟨k + 1,lastOf rounds k,err⟩

theorem verdictGiven (ended : verdict policy attempt result err = some given) : given = err := by
  unfold verdict at ended
  split at ended
  · exact (Option.some.inj ended).symm
  split at ended
  · split at ended <;> try contradiction
    exact (Option.some.inj ended).symm
  split at ended
  · exact (Option.some.inj ended).symm
  split at ended <;> try contradiction
  exact (Option.some.inj ended).symm

def Retryable (policy : RetryPolicy) (result : ProxyResult ε) (err : Option ε) : Prop :=
  result.doNotRetry = false ∧
    (err ≠ none ∨ result.bodyStream = none ∧ policy.shouldRetryStatus result.status = true)

theorem verdictNone : verdict policy attempt result err = none ↔
      Retryable policy result err ∧ (attempt : Int) + 1 < policy.attempts := by
  unfold verdict Retryable
  cases result.doNotRetry with
  | true => simp
  | false =>
    cases err with
    | some => simp
    | none => cases result.bodyStream <;> simp

theorem repeatsBelow (again : Repeats policy rounds k) : (k : Int) + 1 < policy.attempts := (verdictNone.mp again).2

theorem pauseExact {round} (ended : pause policy route (k + 1) last round = some err) :
    (allowRetry round.runtime round.now route last.endpoint policy).1 = false ∧ err = none ∨
      0 < policy.backoff ∧ err = round.done ∧ err ≠ none := by
  unfold pause at ended
  split at ended <;> try contradiction
  split at ended
  · rename_i refused
    exact .inl ⟨by simpa using refused,(Option.some.inj ended).symm⟩
  split at ended <;> try contradiction
  obtain ⟨e,done,rfl⟩ := Option.map_eq_some_iff.mp ended
  exact .inr ⟨by omega,done.symm,by simp⟩

theorem loopEnds (total : ((attempt + left : Nat) : Int) = policy.attempts) (more : 0 < left)
    (old : ∀ j < attempt, Repeats policy rounds j) (held : ∀ k, attempt = k + 1 → last = lastOf rounds k) :
    Ends policy route rounds (retryLoop policy route rounds left attempt last) := by
  induction left generalizing attempt last with
  | zero => contradiction
  | succ _ ih =>
    unfold retryLoop
    split
    · rename_i err ended
      cases attempt with
      | zero => simp [pause] at ended
      | succ k =>
        cases held k rfl
        exact .paused k err old ended
    split
    · rename_i err ended
      exact .settled attempt err old ended
    rename_i again
    have below := repeatsBelow again
    refine ih (by push_cast at total ⊢; omega) (by push_cast at total; omega) (fun j small => ?_) ?_
    · rcases Nat.lt_succ_iff_lt_or_eq.mp small with small | rfl
      · exact old j small
      · exact again
    intro k eq
    cases eq
    rfl

theorem effectiveAttempts [Letters] (route method bodyLength) :
    1 ≤ (effectivePolicy route method bodyLength).attempts := by
  simp only [effectivePolicy]
  split
  · exact le_refl (1 : Int)
  exact normalizedAttempts route.retry

theorem proxyEnds [Letters] (route method bodyLength) (rounds : Nat → Round ε) :
    Ends (effectivePolicy route method bodyLength) route rounds (proxyWithRetry route method bodyLength rounds) := by
  have some := effectiveAttempts route method bodyLength
  exact loopEnds (by omega) (by omega) (fun j small => absurd small (Nat.not_lt_zero j)) nofun

section
variable (policy : RetryPolicy) (route : Route) (rounds : Nat → Round ε) (ran : Ran ε)

structure Attempted : Prop where
  made : 1 ≤ ran.attempts
  bounded : (ran.attempts : Int) ≤ policy.attempts
  repeated : ∀ k, k + 1 < ran.attempts → Retryable policy (rounds k).result (rounds k).err

structure ResultLaw : Prop extends Attempted policy rounds ran where
  answered : ran.err = none → ∃ k < ran.attempts, (rounds k).err = none ∧ ran.result = lastOf rounds k
  kept : ∀ k e, ran.attempts = k + 1 → (rounds k).err = some e → ran.err = some e

def OutOfBudget (k : Nat) : Prop :=
  (rounds k).err ≠ none ∧
    (allowRetry (rounds (k + 1)).runtime (rounds (k + 1)).now route (rounds k).result.endpoint policy).1 = false

def Interrupted (k : Nat) : Prop := 0 < policy.backoff ∧ (rounds (k + 1)).done ≠ none

/-- As the result law, but a context that ends during the wait gives its own error. -/
structure RetryLaw : Prop extends Attempted policy rounds ran where
  answered : ∀ k, ran.attempts = k + 1 → ¬ OutOfBudget policy route rounds k → ran.err = none →
    (rounds k).err = none ∧ ran.result = lastOf rounds k
  kept : ∀ k e, ran.attempts = k + 1 → ¬ OutOfBudget policy route rounds k → (rounds k).err = some e →
    ran.err = some e ∨ Interrupted policy rounds k ∧ ran.err = (rounds (k + 1)).done
end

theorem repeatedAttempted
    (some : 1 ≤ policy.attempts) (count : ran.attempts = k + 1) (old : ∀ j < k, Repeats policy rounds j) :
    Attempted policy rounds ran := by
  refine ⟨by omega,?_,fun j small => (verdictNone.mp (old j (by omega))).1⟩
  cases k with
  | zero => rw [count]; exact some
  | succ j =>
    have below := repeatsBelow (old j (by omega))
    omega

theorem endsLawful
    (some : 1 ≤ policy.attempts) (ends : Ends policy route rounds ran) : RetryLaw policy route rounds ran := by
  cases ends with
  | settled _ _ old ended =>
    have eq := verdictGiven ended
    refine ⟨repeatedAttempted some rfl old,fun j count _ none => ?_,fun j e count _ failed => ?_⟩
    · cases count
      exact ⟨eq ▸ none,rfl⟩
    cases count
    exact .inl (eq.trans failed)
  | paused _ _ old ended =>
    refine ⟨repeatedAttempted some rfl fun j small => old j (by omega),fun j count ample none => ?_,
      fun j e count ample failed => ?_⟩
    · cases count
      rcases pauseExact ended with ⟨refused,_⟩ | ⟨_,_,full⟩
      · refine ⟨?_,rfl⟩
        by_contra failed
        exact ample ⟨failed,refused⟩
      exact absurd none full
    cases count
    rcases pauseExact ended with ⟨refused,_⟩ | ⟨waits,eq,full⟩
    · exact absurd ⟨by simp [failed],refused⟩ ample
    exact .inr ⟨⟨waits,eq ▸ full⟩,eq⟩

/-- Every run of the retry loop keeps the law, whatever the policy, the budgets and the
attempts. -/
theorem retriesLawful [Letters] (route : Route) (method : Str) (bodyLength : Nat) (rounds : Nat → Round ε) :
    RetryLaw (effectivePolicy route method bodyLength) route rounds (proxyWithRetry route method bodyLength rounds) :=
  endsLawful (effectiveAttempts route method bodyLength) (proxyEnds route method bodyLength rounds)

def plainRoute (retry : RetryPolicy) : Route := ⟨['a'],[],['/'],[],retry,⟨false,[]⟩⟩
def downRound (runtime : RetryRuntime) (done : Option Str) : Round Str :=
  ⟨runtime,0,done,{ (noResult : ProxyResult Str) with err := some ['d','o','w','n'] },some ['d','o','w','n']⟩

def waitingPolicy : RetryPolicy := ⟨2,1,[],[],0,0,0⟩
def budgetPolicy : RetryPolicy := ⟨3,0,[],[],1,1,0⟩
def cutRounds (_ : Nat) : Round Str := downRound newRetryRuntime (some ['d','o','n','e'])

def spentRounds : Nat → Round Str
  | 2 => downRound (allowRetry newRetryRuntime 0 (plainRoute budgetPolicy) [] budgetPolicy).2 none
  | _ => downRound newRetryRuntime none

theorem attemptErrorLost :
    let _ := asciiLetters
    ¬ ResultLaw (effectivePolicy (plainRoute waitingPolicy) methodGet 0) cutRounds
        (proxyWithRetry (plainRoute waitingPolicy) methodGet 0 cutRounds) ∧
      ¬ ResultLaw (effectivePolicy (plainRoute budgetPolicy) methodGet 0) spentRounds
        (proxyWithRetry (plainRoute budgetPolicy) methodGet 0 spentRounds) ∧
      (proxyWithRetry (plainRoute budgetPolicy) methodGet 0 spentRounds).err = none ∧
      (proxyWithRetry (plainRoute budgetPolicy) methodGet 0 spentRounds).result.status = 0 := by
  intro letters
  have cut : proxyWithRetry (plainRoute waitingPolicy) methodGet 0 cutRounds =
      ⟨1,lastOf cutRounds 0,some ['d','o','n','e']⟩ := by decide +kernel
  have spent : proxyWithRetry (plainRoute budgetPolicy) methodGet 0 spentRounds =
      ⟨2,lastOf spentRounds 1,none⟩ := by decide +kernel
  rw [cut,spent]
  refine ⟨fun law => ?_,fun law => ?_,rfl,rfl⟩
  · exact absurd (law.kept 0 _ rfl rfl) (by decide)
  exact absurd (law.kept 1 _ rfl rfl) (by decide)

end Gofly.Gateway
