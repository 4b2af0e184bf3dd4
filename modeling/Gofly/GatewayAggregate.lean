import Mathlib.Algebra.Order.BigOperators.Group.Finset
import Gofly.Decimal
import Gofly.GatewayRetry
/-! Aggregation routes: each step is an upstream request of its own, with a retry loop of its
own, and the route's retry loop runs around them all. -/
namespace Gofly.Gateway
open Governance

inductive Fault (ε : Type) where
  | foreign (e : ε)
  | stepless
  | exhausted
  deriving DecidableEq

structure StepResult (ε : Type) where
  index : Nat
  name : Str
  status : Int
  body : Str
  retries : Nat
  err : Option (Fault ε)
  deriving DecidableEq

structure StepTry (ε : Type) where
  status : Int
  body : Str
  err : Option (Fault ε)
  done : Option (Fault ε)

structure StepRan (ε : Type) where
  tries : Nat
  result : StepResult ε
  deriving DecidableEq

variable {ε : Type}

def stepName (index : Nat) (step : AggregationStep) : Str :=
  let name := trimSpace step.name
  if name = [] then ['s','t','e','p'] ++ Decimal.digits (index + 1) else name

def stepMethod [Letters] (step : AggregationStep) : Str :=
  let method := toUpper (trimSpace step.method)
  if method = [] then methodGet else method

def normalizeAggregationStepAttempts (attempts : Int) : Int := if attempts ≤ 0 then 1 else attempts

def aggregationStepShouldRetry (result : StepResult ε) (policy : RetryPolicy) : Bool :=
  if policy.attempts ≤ 1 then false
  else if result.err.isSome then true
  else if policy.statuses = [] then decide (result.status ≥ statusInternalServerError)
  else policy.statuses.any (result.status = ·)

def runAggregationStepAttempt (blocked : Option (Fault ε)) (index : Nat) (name : Str) (attempt : StepTry ε) :
    StepResult ε :=
  match blocked with
  | some err => ⟨index,name,0,[],0,some err⟩
  | none => ⟨index,name,attempt.status,attempt.body,0,attempt.err⟩

def stepLoop (blocked : Option (Fault ε)) (index : Nat) (name : Str) (policy : RetryPolicy)
    (tries : Nat → StepTry ε) : (left attempt : Nat) → StepResult ε → StepRan ε
  | 0,attempt,last => ⟨attempt,last⟩
  | left + 1,attempt,_ =>
    let result := { runAggregationStepAttempt blocked index name (tries attempt) with retries := attempt }
    if !aggregationStepShouldRetry result policy ||
        decide ((attempt : Int) = normalizeAggregationStepAttempts policy.attempts - 1) then
      ⟨attempt + 1,result⟩
    else if policy.backoff > 0 ∧ (tries attempt).done.isSome then
      ⟨attempt + 1,{ result with err := (tries attempt).done }⟩
    else stepLoop blocked index name policy tries left (attempt + 1) result

def runAggregationStep (blocked : Option (Fault ε)) (index : Nat) (step : AggregationStep)
    (tries : Nat → StepTry ε) : StepRan ε :=
  let name := stepName index step
  stepLoop blocked index name step.retry tries (normalizeAggregationStepAttempts step.retry.attempts).toNat 0
    ⟨index,name,0,[],0,some .exhausted⟩

structure Calls (ε : Type) where
  tries : Nat → Nat → StepTry ε
  arrive : List (StepResult ε) → List (StepResult ε)
  complete : ∀ results, (arrive results).Perm results

structure Site (ε : Type) where
  route : Route
  method : Str
  bodyLength : Nat
  blocked : (endpoint : Str) → (step : Nat) → Option (Fault ε)
  render : List (StepResult ε) → Except (Fault ε) Str

inductive Mark where
  | success
  | failure
  deriving DecidableEq

structure Once (ε : Type) where
  result : ProxyResult (Fault ε)
  err : Option (Fault ε)
  sent : Nat → Nat
  proxied : Nat
  marks : List Mark

def failed (marks : List Mark) (endpoint : Str) (err : Fault ε) (sent : Nat → Nat) : Once ε :=
  ⟨{ (noResult : ProxyResult (Fault ε)) with endpoint := endpoint,err := some err },some err,sent,0,marks⟩

def stepRan (site : Site ε) (endpoint : Str) (calls : Calls ε) (i : Nat) (step : AggregationStep) : StepRan ε :=
  runAggregationStep (site.blocked endpoint i) i step (calls.tries i)

def stepSent (site : Site ε) (endpoint : Str) (calls : Calls ε) (i : Nat) : Nat :=
  match site.route.aggregation.steps[i]? with
  | none => 0
  | some step => if (site.blocked endpoint i).isSome then 0 else (stepRan site endpoint calls i step).tries

def stepFailed (result : StepResult ε) : Bool :=
  result.err.isSome || decide (result.status ≥ statusBadRequest)

def requiredFailed (steps : List AggregationStep) (result : StepResult ε) : Bool :=
  stepFailed result &&
    steps[result.index]?.any fun step => step.fallback = [] && step.required

def aggregateOnce (site : Site ε) (endpoint : Str) (calls : Calls ε) : Once ε :=
  let steps := site.route.aggregation.steps
  if steps = [] then failed [.failure] endpoint .stepless fun _ => 0
  else
    let results := calls.arrive (steps.mapIdx fun i step => (stepRan site endpoint calls i step).result)
    let status := if results.any (requiredFailed steps) then statusBadGateway else statusOK
    match site.render results with
    | .error err => failed [.failure] endpoint err (stepSent site endpoint calls)
    | .ok body =>
      ⟨⟨endpoint,status,[("Content-Type".toList,"application/json".toList)],body,none,false,0,none⟩,
        none,stepSent site endpoint calls,0,
        [if results.any (requiredFailed steps) then .failure else .success]⟩

structure Turn (ε : Type) where
  runtime : RetryRuntime
  now : ℚ
  done : Option (Fault ε)
  breaker : Option (Fault ε)
  endpoint : Except (Fault ε) Str
  calls : Calls ε
  -- a transcoded or plain HTTP attempt: one call, and no steps
  plain : Once ε
  single : plain.proxied ≤ 1
  whole : plain.sent = fun _ => 0

def proxyOnce (site : Site ε) (turn : Turn ε) : Once ε :=
  match turn.breaker with
  | some err => failed [] [] err fun _ => 0
  | none =>
    match turn.endpoint with
    | .error err => failed [.failure] [] err fun _ => 0
    | .ok endpoint =>
      if site.route.aggregation.enabled then aggregateOnce site endpoint turn.calls
      else turn.plain

def roundOf (site : Site ε) (turn : Turn ε) : Round (Fault ε) :=
  ⟨turn.runtime,turn.now,turn.done,(proxyOnce site turn).result,(proxyOnce site turn).err⟩

def serve [Letters] (site : Site ε) (turns : Nat → Turn ε) : Ran (Fault ε) :=
  proxyWithRetry site.route site.method site.bodyLength fun k => roundOf site (turns k)

def sentFor [Letters] (site : Site ε) (turns : Nat → Turn ε) (i : Nat) : Nat :=
  (Finset.range (serve site turns).attempts).sum fun k => (proxyOnce site (turns k)).sent i

def proxiedFor [Letters] (site : Site ε) (turns : Nat → Turn ε) : Nat :=
  (Finset.range (serve site turns).attempts).sum fun k => (proxyOnce site (turns k)).proxied

section
variable {policy : RetryPolicy}
  {tries : Nat → StepTry ε} {step : AggregationStep}

theorem loopMade (left attempt last) :
    attempt + 1 ≤ (stepLoop blocked index name policy tries (left + 1) attempt last).tries := by
  induction left generalizing attempt last with
  | zero =>
    simp only [stepLoop]
    split
    · exact le_refl _
    split <;> exact le_refl _
  | succ _ ih =>
    rw [stepLoop]
    split
    · exact le_refl _
    split
    · exact le_refl _
    exact (Nat.le_succ _).trans (ih (attempt + 1) _)

theorem stepAttempts (attempts) : ∃ n : Nat, (normalizeAggregationStepAttempts attempts).toNat = n + 1 := by
  unfold normalizeAggregationStepAttempts
  split
  · exact ⟨0,rfl⟩
  exact ⟨(attempts - 1).toNat,by omega⟩

theorem stepMade : 1 ≤ (runAggregationStep blocked index step tries).tries := by
  obtain ⟨n,count⟩ := stepAttempts step.retry.attempts
  rw [runAggregationStep,count]
  exact loopMade n 0 _

theorem stepSingle (one : step.retry.attempts ≤ 1) : (runAggregationStep blocked index step tries).tries = 1 := by
  obtain ⟨n,count⟩ := stepAttempts step.retry.attempts
  simp [runAggregationStep,count,stepLoop,aggregationStepShouldRetry,one]

def retriedStatus (policy : RetryPolicy) : Int := policy.statuses.headD statusInternalServerError

theorem retriedAgain (several : 1 < policy.attempts)
    (told : result.status = retriedStatus policy) : aggregationStepShouldRetry result policy = true := by
  unfold aggregationStepShouldRetry
  rw [if_neg (by omega)]
  split
  · rfl
  rw [told,retriedStatus]
  cases policy.statuses with
  | nil => rfl
  | cons => simp

theorem stepTwice (several : 1 < step.retry.attempts)
    (told : (tries 0).status = retriedStatus step.retry) (on : (tries 0).done = none) :
    2 ≤ (runAggregationStep none index step tries).tries := by
  have count : ∃ n : Nat, (normalizeAggregationStepAttempts step.retry.attempts).toNat = n + 2 :=
    ⟨(step.retry.attempts - 2).toNat,by unfold normalizeAggregationStepAttempts; split <;> omega⟩
  obtain ⟨n,count⟩ := count
  rw [runAggregationStep,count,stepLoop]
  rw [if_neg,if_neg]
  · exact loopMade n 1 _
  · simp [on]
  rw [Bool.or_eq_true,not_or]
  constructor
  · rw [Bool.not_eq_true',Bool.not_eq_false]
    exact retriedAgain several told
  rw [decide_eq_true_eq]
  unfold normalizeAggregationStepAttempts
  split <;> omega
end

section

theorem aggregateSent (site : Site ε) (endpoint calls) :
    (aggregateOnce site endpoint calls).sent = stepSent site endpoint calls := by
  unfold aggregateOnce
  dsimp only
  split
  · rename_i empty
    funext i
    simp [failed,stepSent,empty]
  split <;> rfl

theorem aggregateProxied (site : Site ε) (endpoint calls) : (aggregateOnce site endpoint calls).proxied = 0 := by
  unfold aggregateOnce
  dsimp only
  split
  · rfl
  split <;> rfl

theorem proxiedSingle (site : Site ε) (turn) : (proxyOnce site turn).proxied ≤ 1 := by
  unfold proxyOnce
  split
  · exact Nat.zero_le 1
  split
  · exact Nat.zero_le 1
  split
  · rw [aggregateProxied]
    exact Nat.zero_le 1
  exact turn.single

theorem sentBy (sent : (proxyOnce site turn).sent i ≠ 0) :
    site.route.aggregation.enabled = true ∧ ∃ step endpoint, site.route.aggregation.steps[i]? = some step ∧
      site.blocked endpoint i = none ∧ proxyOnce site turn = aggregateOnce site endpoint turn.calls ∧
      (proxyOnce site turn).sent i = (stepRan site endpoint turn.calls i step).tries := by
  unfold proxyOnce at sent ⊢
  split at sent
  · exact absurd rfl sent
  split at sent
  · exact absurd rfl sent
  rename_i endpoint picked
  split at sent
  · rename_i enabled
    rw [aggregateSent] at sent
    simp only [enabled,if_true,aggregateSent]
    unfold stepSent at sent ⊢
    split at sent
    · exact absurd rfl sent
    rename_i step got
    split at sent
    · exact absurd rfl sent
    rename_i free
    exact ⟨trivial,step,endpoint,got,by simpa using free,rfl,by simp [free]⟩
  rw [turn.whole] at sent
  exact absurd rfl sent

def quietTurn (endpoint : Str) (calls : Calls ε) : Turn ε :=
  ⟨newRetryRuntime,0,none,none,.ok endpoint,calls,failed [] [] .stepless fun _ => 0,Nat.zero_le 1,rfl⟩

theorem quietOnce (enabled : site.route.aggregation.enabled = true) (endpoint calls) :
    proxyOnce site (quietTurn endpoint calls) = aggregateOnce site endpoint calls := by
  simp [proxyOnce,quietTurn,enabled]

theorem quietSent (enabled : site.route.aggregation.enabled = true)
    (got : site.route.aggregation.steps[i]? = some step) (free : site.blocked endpoint i = none) (calls) :
    (proxyOnce site (quietTurn endpoint calls)).sent i = (stepRan site endpoint calls i step).tries := by
  simp [quietOnce enabled,aggregateSent,stepSent,got,free]

variable [Letters]

def Undeclared (step : AggregationStep) : Prop :=
  (normalizeRetryPolicy step.retry).matchesMethod (stepMethod step) = false

structure SentOnce (site : Site ε) (turns : Nat → Turn ε) : Prop where
  proxied : (normalizeRetryPolicy site.route.retry).matchesMethod site.method = false → proxiedFor site turns ≤ 1
  steps : ∀ i step, site.route.aggregation.steps[i]? = some step → Undeclared step → sentFor site turns i ≤ 1

def Site.policy (site : Site ε) : RetryPolicy := effectivePolicy site.route site.method site.bodyLength

/-- Every undeclared step that can be sent has one attempt, and the route has one or retries
nothing of the aggregation. -/
def Gated (site : Site ε) : Prop :=
  site.route.aggregation.enabled = true → ∀ i step endpoint,
    site.route.aggregation.steps[i]? = some step → Undeclared step → site.blocked endpoint i = none →
    step.retry.attempts ≤ 1 ∧
      (site.policy.attempts ≤ 1 ∨ ∀ calls, ¬ Retryable site.policy (aggregateOnce site endpoint calls).result
        (aggregateOnce site endpoint calls).err)

theorem serveEnds (site : Site ε) (turns) :
    Ends site.policy site.route (fun k => roundOf site (turns k)) (serve site turns) :=
  proxyEnds site.route site.method site.bodyLength _

theorem serveAttempts (site : Site ε) (turns) :
    ∃ k, (serve site turns).attempts = k + 1 ∧ ∀ j < k, 1 < site.policy.attempts ∧
      Retryable site.policy (proxyOnce site (turns j)).result (proxyOnce site (turns j)).err := by
  have earlier : ∀ k, (∀ j < k, Repeats site.policy (fun k => roundOf site (turns k)) j) → ∀ j < k,
      1 < site.policy.attempts ∧
        Retryable site.policy (proxyOnce site (turns j)).result (proxyOnce site (turns j)).err := by
    intro k old j small
    have again := verdictNone.mp (old j small)
    exact ⟨by omega,again.1⟩
  generalize eq : serve site turns = ran
  have ends := serveEnds site turns
  rw [eq] at ends
  cases ends with
  | settled k _ old => exact ⟨k,rfl,earlier k old⟩
  | paused k _ old => exact ⟨k,rfl,fun j small => earlier (k + 1) old j (by omega)⟩

theorem gatedTurn (gated : Gated site) (got : site.route.aggregation.steps[i]? = some step)
    (undeclared : Undeclared step) (sent : (proxyOnce site turn).sent i ≠ 0) :
    (proxyOnce site turn).sent i = 1 ∧ (site.policy.attempts ≤ 1 ∨
      ¬ Retryable site.policy (proxyOnce site turn).result (proxyOnce site turn).err) := by
  obtain ⟨enabled,step',endpoint,found',free,eq,count⟩ := sentBy sent
  cases got.symm.trans found'
  obtain ⟨one,still⟩ := gated enabled i step endpoint got undeclared free
  refine ⟨count.trans (stepSingle one),still.imp_right fun never => ?_⟩
  rw [eq]
  exact never turn.calls

theorem gatedSteps (gated : Gated site) (got : site.route.aggregation.steps[i]? = some step)
    (undeclared : Undeclared step) : sentFor site turns i ≤ 1 := by
  obtain ⟨k,count,old⟩ := serveAttempts site turns
  -- an attempt before the last was retried, so it sent nothing for the step
  have earlier : ∀ j ∈ Finset.range k, (proxyOnce site (turns j)).sent i = 0 := by
    intro j small
    obtain ⟨several,again⟩ := old j (Finset.mem_range.mp small)
    by_contra sent
    rcases (gatedTurn gated got undeclared sent).2 with one | never
    · omega
    exact never again
  rw [sentFor,count,Finset.sum_range_succ,Finset.sum_eq_zero earlier,Nat.zero_add]
  by_cases sent : (proxyOnce site (turns k)).sent i = 0
  · omega
  exact (gatedTurn gated got undeclared sent).1.le

theorem undeclaredProxied (undeclared : (normalizeRetryPolicy site.route.retry).matchesMethod site.method = false) :
    proxiedFor site turns ≤ 1 := by
  obtain ⟨k,count,old⟩ := serveAttempts site turns
  have one : site.policy.attempts = 1 := by simp [Site.policy,effectivePolicy,undeclared]
  cases k with
  | zero =>
    rw [proxiedFor,count]
    exact proxiedSingle site (turns 0)
  | succ k => have := (old 0 (Nat.succ_pos k)).1; omega

theorem quietRepeats (enabled : site.route.aggregation.enabled = true) (several : 1 < site.policy.attempts)
    (again : Retryable site.policy (aggregateOnce site endpoint calls).result (aggregateOnce site endpoint calls).err) :
    2 ≤ (serve site fun _ => quietTurn endpoint calls).attempts := by
  have first : Repeats site.policy (fun _ => roundOf site (quietTurn endpoint calls)) 0 := by
    refine verdictNone.mpr ⟨?_,by simpa using several⟩
    simpa only [roundOf,quietOnce enabled] using again
  generalize eq : (serve site fun _ => quietTurn endpoint calls) = ran
  have ends := serveEnds site fun _ => quietTurn endpoint calls
  rw [eq] at ends
  cases ends with
  | settled k _ _ ended =>
    cases k with
    | zero => exact absurd (first.symm.trans ended) nofun
    | succ k => exact Nat.le_add_left 2 k
  | paused k _ _ ended =>
    -- a fresh budget refuses nothing, and no context ends
    have ample : (allowRetry newRetryRuntime 0 site.route
        (lastOf (fun _ => roundOf site (quietTurn endpoint calls)) k).endpoint site.policy).1 = true :=
      freshAllows site.route _ site.policy 0
    rcases pauseExact ended with ⟨refused,_⟩ | ⟨_,given,full⟩
    · exact absurd (ample.symm.trans refused) nofun
    exact absurd given full

def retriedCalls (policy : RetryPolicy) : Calls ε :=
  ⟨fun _ _ => ⟨retriedStatus policy,[],none,none⟩,id,fun _ => .refl _⟩

theorem sentFirst (site : Site ε) (turns i) : (proxyOnce site (turns 0)).sent i ≤ sentFor site turns i := by
  obtain ⟨k,count,_⟩ := serveAttempts site turns
  rw [sentFor,count,Finset.sum_range_succ']
  exact Nat.le_add_left _ _

theorem onceGated (once : ∀ turns, SentOnce site turns) : Gated site := by
  intro enabled i step endpoint got undeclared free
  constructor
  · by_contra several
    have twice : 2 ≤ (stepRan site endpoint (retriedCalls step.retry) i step).tries := by
      rw [stepRan,free]
      exact stepTwice (by omega) rfl rfl
    rw [← quietSent enabled got free] at twice
    have bound := (once fun _ => quietTurn endpoint (retriedCalls step.retry)).steps i step got undeclared
    have first := sentFirst site (fun _ => quietTurn endpoint (retriedCalls step.retry)) i
    omega
  by_contra rerun
  rw [not_or,not_forall] at rerun
  obtain ⟨several,calls,again⟩ := rerun
  rw [not_not] at again
  have twice := quietRepeats enabled (by omega) again
  have bound := (once fun _ => quietTurn endpoint calls).steps i step got undeclared
  have some : 1 ≤ (proxyOnce site (quietTurn endpoint calls)).sent i := by
    rw [quietSent enabled got free]
    exact stepMade
  rw [sentFor,Finset.sum_const_nat fun _ _ => rfl,Finset.card_range] at bound
  have := Nat.mul_le_mul twice some
  omega

/-- Gated by its configuration: the route has one attempt, or its policy retries no status that
the aggregation answers with. -/
structure Configured (site : Site ε) : Prop where
  steps : ∀ step ∈ site.route.aggregation.steps, Undeclared step → step.retry.attempts ≤ 1
  route : site.policy.attempts ≤ 1 ∨ (∀ results, ∃ body, site.render results = .ok body) ∧
    site.policy.shouldRetryStatus statusOK = false ∧ (site.policy.shouldRetryStatus statusBadGateway = false ∨
      ∀ step ∈ site.route.aggregation.steps, step.fallback = [] → step.required = false)

omit [Letters] in
theorem noneRequired (plain : ∀ step ∈ steps, step.fallback = [] → step.required = false) (results : List (StepResult ε)) :
    results.any (requiredFailed steps) = false := by
  refine List.any_eq_false.mpr fun result _ failed => ?_
  obtain ⟨step,got,bare⟩ := (Option.any_eq_true _ _).mp (Bool.and_eq_true_iff.mp failed).2
  simp only [Bool.and_eq_true,decide_eq_true_eq] at bare
  exact absurd bare.2 (by simp [plain step (List.mem_of_getElem? got) bare.1])

theorem configuredGated (configured : Configured site) : Gated site := by
  intro _ i step endpoint got undeclared _
  have listed := List.mem_of_getElem? got
  refine ⟨configured.steps step listed undeclared,configured.route.imp_right ?_⟩
  rintro ⟨renders,ok,bad⟩ calls ⟨_,again⟩
  obtain ⟨body,rendered⟩ := renders
    (calls.arrive (site.route.aggregation.steps.mapIdx fun i step => (stepRan site endpoint calls i step).result))
  simp only [aggregateOnce,List.ne_nil_of_mem listed,if_false,rendered] at again
  rcases bad with bad | plain
  · split at again <;> simp [ok,bad] at again
  simp [noneRequired plain,ok] at again

/-- Undeclared requests are issued once, in every course of events, exactly at the sites that are gated. -/
theorem sentOnceExact (site : Site ε) :
    ((∀ turns, SentOnce site turns) ↔ Gated site) ∧ (Configured site → Gated site) :=
  ⟨⟨onceGated,fun gated _ =>
    ⟨undeclaredProxied,fun _ _ found undeclared => gatedSteps gated found undeclared⟩⟩,configuredGated⟩
end

def onlyAttempts (attempts : Int) : RetryPolicy := ⟨attempts,0,[],[],0,0,0⟩

def postSite (routeAttempts stepAttempts : Int) : Site Str :=
  ⟨⟨['r'],[],['/'],[],onlyAttempts routeAttempts,
      ⟨true,[⟨['a'],['P','O','S','T'],true,onlyAttempts stepAttempts,[]⟩]⟩⟩,
    methodGet,0,fun _ _ => none,fun _ => .ok []⟩

def unavailable (_ : Nat) : Turn Str :=
  quietTurn ['e'] ⟨fun _ _ => ⟨statusServiceUnavailable,[],none,none⟩,id,fun _ => .refl _⟩

theorem postSentOnce :
    let _ := asciiLetters
    SentOnce (postSite 1 1) unavailable ∧ sentFor (postSite 1 1) unavailable 0 = 1 := by
  intro letters
  obtain ⟨exactly,gated⟩ := sentOnceExact (postSite 1 1)
  exact ⟨exactly.mpr (gated ⟨by simp [postSite,onlyAttempts],.inl (by decide +kernel)⟩) unavailable,by decide +kernel⟩

theorem postSentTwice :
    let _ := asciiLetters
    ¬ SentOnce (postSite 1 2) unavailable ∧ ¬ SentOnce (postSite 2 1) unavailable := by
  intro letters
  exact ⟨fun once => absurd (once.steps 0 _ rfl rfl) (by decide +kernel),
    fun once => absurd (once.steps 0 _ rfl rfl) (by decide +kernel)⟩

end Gofly.Gateway
