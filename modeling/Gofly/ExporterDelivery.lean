import Gofly.Roster
import Gofly.Transition
/-! The governed diagnosis exporter: the calls that put records into the queue, the worker that
takes them out, the goroutine that each record is exported in, and Close, one atomic section at
a time. -/
namespace Gofly.ExporterDelivery
open Transition

variable {δ : Type}

structure ErrorBudget where
  enabled : Bool
  minSamples : Nat
  pauseDuration : Nat
  burns : Nat → Nat → Bool
  recovered : Nat → Nat → Bool

-- normalized: no size, timeout or limit is zero
structure Config where
  queueSize : Nat
  timeout : Nat
  maxHungCalls : Nat
  breakerFailureThreshold : Nat
  breakerCooldown : Nat
  errorBudget : ErrorBudget
  room : 0 < queueSize
  lasts : 0 < timeout
  hangs : 0 < maxHungCalls

inductive SendStage where
  | budget | hung | breaker | send | count | done
  deriving DecidableEq

structure Sender (δ : Type) where
  record : δ
  stage : SendStage
  deriving DecidableEq

inductive Phase where
  | running
  | returned (panicked : Bool)
  | reported
  | left
  | gone
  deriving DecidableEq

structure Call (δ : Type) where
  record : δ
  startedAt : Nat
  phase : Phase
  timedOut : Bool
  completed : Option Bool
  deriving DecidableEq

inductive Stage (δ : Type) where
  | waiting
  | allow (d : δ)
  | hung (d : δ)
  | slot (d : δ)
  | launch (d : δ)
  | await (i : Nat)
  | late (i : Nat)
  | hang (i : Nat)
  | completed (i : Nat) (panicked : Bool)
  | success
  | failure
  | ended
  deriving DecidableEq

structure World (δ : Type) where
  now : Nat
  queue : List δ
  closed : Bool
  draining : Bool
  closeReturned : Bool
  inFlight : Bool
  accepted : Nat
  exported : Nat
  dropped : Nat
  backpressure : Nat
  timedOut : Nat
  panics : Nat
  breakerRejected : Nat
  activeCalls : Nat
  hungCalls : Int
  consecutiveFailures : Nat
  breakerOpenedAt : Nat
  errorBudgetPausedAt : Nat
  halfOpen : Bool
  senders : List (Sender δ)
  stage : Stage δ
  calls : List (Call δ)
  sent : List δ
  deriving DecidableEq

def start (now : Nat) : World δ where
  now := now
  queue := []
  closed := false
  draining := false
  closeReturned := false
  inFlight := false
  accepted := 0
  exported := 0
  dropped := 0
  backpressure := 0
  timedOut := 0
  panics := 0
  breakerRejected := 0
  activeCalls := 0
  hungCalls := 0
  consecutiveFailures := 0
  breakerOpenedAt := 0
  errorBudgetPausedAt := 0
  halfOpen := false
  senders := []
  stage := .waiting
  calls := []
  sent := []

variable (c : Config)
namespace World

def errorBudgetPaused (w : World δ) : Bool :=
  c.errorBudget.enabled && w.errorBudgetPausedAt ≠ 0 && w.now - w.errorBudgetPausedAt < c.errorBudget.pauseDuration

def allowEnqueue (w : World δ) : Bool :=
  w.breakerOpenedAt = 0 || c.breakerCooldown ≤ w.now - w.breakerOpenedAt

def allowDelivery (w : World δ) : Bool × Bool :=
  if w.breakerOpenedAt = 0 then (true,w.halfOpen)
  else if w.now - w.breakerOpenedAt < c.breakerCooldown then (false,w.halfOpen)
  else (!w.halfOpen,true)

def rejectBreaker (w : World δ) : World δ :=
  { w with dropped := w.dropped + 1,breakerRejected := w.breakerRejected + 1 }

def rejectHungLimit (w : World δ) : World δ :=
  { w with dropped := w.dropped + 1,backpressure := w.backpressure + 1 }

def rejectErrorBudget (w : World δ) : World δ := { w with dropped := w.dropped + 1 }
def total (w : World δ) : Nat := w.accepted + w.dropped
def failed (w : World δ) : Nat := w.dropped + w.timedOut + w.panics

def recordSuccess (w : World δ) : World δ :=
  { w with
    consecutiveFailures := 0
    breakerOpenedAt := 0
    errorBudgetPausedAt :=
      if !c.errorBudget.enabled || c.errorBudget.recovered w.failed w.total then 0 else w.errorBudgetPausedAt
    halfOpen := false }

def evaluateErrorBudget (w : World δ) : World δ :=
  if !c.errorBudget.enabled || w.total < c.errorBudget.minSamples then w
  else if c.errorBudget.burns w.failed w.total && w.errorBudgetPausedAt = 0 then { w with errorBudgetPausedAt := w.now }
  else w

def recordFailure (w : World δ) : World δ :=
  let failures := w.consecutiveFailures + 1
  evaluateErrorBudget c
    { w with
      consecutiveFailures := failures
      halfOpen := false
      breakerOpenedAt := if c.breakerFailureThreshold ≤ failures then w.now else w.breakerOpenedAt }

def putSender (w : World δ) (i : Nat) (record : δ) (stage : SendStage) : World δ :=
  { w with senders := w.senders.set i ⟨record,stage⟩ }
def putCall (w : World δ) (i : Nat) (call : Call δ) : World δ := { w with calls := w.calls.set i call }

def sendOn (w : World δ) (i : Nat) (d : δ) : SendStage → Option (World δ)
  | .budget => some (if w.errorBudgetPaused c then w.rejectErrorBudget.putSender i d .done else w.putSender i d .hung)
  | .hung =>
    some (if c.maxHungCalls ≤ w.hungCalls then w.rejectHungLimit.putSender i d .done else w.putSender i d .breaker)
  | .breaker => some (if w.allowEnqueue c then w.putSender i d .send else w.rejectBreaker.putSender i d .done)
  | .send =>
    some (if w.queue.length < c.queueSize then
      { w with queue := w.queue ++ [d],sent := w.sent ++ [d] }.putSender i d .count
    else { w with dropped := w.dropped + 1 }.putSender i d .done)
  | .count => some ({ w with accepted := w.accepted + 1 }.putSender i d .done)
  | .done => none

def work (w : World δ) : Option (World δ) :=
  match w.stage with
  | .allow d =>
    let (allowed,halfOpen) := w.allowDelivery c
    if allowed then some { w with halfOpen := halfOpen,stage := .hung d }
    else some { w.rejectBreaker with halfOpen := halfOpen,stage := .waiting }
  | .hung d =>
    -- A probe that was reserved in the section before is not given back here.
    if c.maxHungCalls ≤ w.hungCalls then some { w.rejectHungLimit with stage := .waiting }
    else some { w with stage := .slot d }
  | .slot d =>
    if w.inFlight then
      some { w with halfOpen := false,dropped := w.dropped + 1,backpressure := w.backpressure + 1,stage := .waiting }
    else some { w with inFlight := true,stage := .launch d }
  | .launch d =>
    some { w with
      activeCalls := w.activeCalls + 1
      calls := w.calls ++ [⟨d,w.now,.running,false,none⟩]
      stage := .await w.calls.length }
  | .late i => (w.calls[i]?).map fun call => { w.putCall i { call with timedOut := true } with stage := .hang i }
  | .hang _ => some { w with hungCalls := w.hungCalls + 1,timedOut := w.timedOut + 1,stage := .failure }
  | .completed _ panicked =>
    if panicked then some { w with stage := .failure } else some { w with exported := w.exported + 1,stage := .success }
  | .success => some { w.recordSuccess c with stage := .waiting }
  | .failure => some { w.recordFailure c with stage := .waiting }
  | .waiting | .await _ | .ended => none

def callOn (w : World δ) (i : Nat) (call : Call δ) : Option (World δ) :=
  match call.phase with
  | .running | .gone => none
  | .returned panicked => some (w.putCall i { call with phase := .reported,completed := some panicked })
  | .reported =>
    some { w.putCall i { call with phase := .left } with
      hungCalls := if call.timedOut then w.hungCalls - 1 else w.hungCalls }
  | .left =>
    some { w.putCall i { call with phase := .gone } with activeCalls := w.activeCalls - 1,inFlight := false }

end World

inductive Act (δ : Type) where
  | enter (d : δ)
  | send (i : Nat)
  | receive
  | done
  | drained
  | work
  | complete
  | expire
  | finish (i : Nat) (panicked : Bool)
  | callOn (i : Nat)
  | tick (n : Nat)
  | shut
  | closeReturn
  deriving DecidableEq

def step (w : World δ) : Act δ → Option (World δ)
  | .enter d => some (if w.closed then w else { w with senders := w.senders ++ [⟨d,.budget⟩] })
  | .send i => (w.senders[i]?).bind fun sender => w.sendOn c i sender.record sender.stage
  | .receive =>
    match w.stage, w.queue with
    | .waiting,d :: rest => some { w with queue := rest,stage := .allow d }
    | _,_ => none
  | .done =>
    match w.stage with
    | .waiting => if w.closed = true ∧ w.draining = false then some { w with draining := true } else none
    | _ => none
  | .drained =>
    match w.stage, w.queue with
    | .waiting,[] => if w.draining then some { w with stage := .ended } else none
    | _,_ => none
  | .work => w.work c
  | .complete =>
    match w.stage with
    | .await i =>
      match (w.calls[i]?).bind Call.completed with
      | some panicked => some { w with stage := .completed i panicked }
      | none => none
    | _ => none
  | .expire =>
    match w.stage with
    | .await i =>
      match w.calls[i]? with
      | some call => if call.startedAt + c.timeout ≤ w.now then some { w with stage := .late i } else none
      | none => none
    | _ => none
  | .finish i panicked =>
    match w.calls[i]? with
    | some call =>
      if call.phase = .running then
        some { w.putCall i { call with phase := .returned panicked } with panics := w.panics + panicked.toNat }
      else none
    | none => none
  | .callOn i => (w.calls[i]?).bind fun call => w.callOn i call
  | .tick n => some { w with now := w.now + n }
  -- The lock is taken only when no call of ExportRPCMuxDiagnosisEvent is inside.
  | .shut =>
    if w.closed = false ∧ w.senders.all (fun sender => sender.stage = .done) then some { w with closed := true } else none
  | .closeReturn =>
    match w.stage with
    | .ended => some { w with closeReturned := true }
    | _ => none

inductive Sends (w : World δ) (i : Nat) (d : δ) : SendStage → World δ → Prop where
  | quiet (next : SendStage) (dropped backpressure breakerRejected : Nat) (before : stage ≠ .count)
      (after : next ≠ .count) (inside : stage ≠ .done) :
      Sends w i d stage
        ({ w with dropped := dropped,backpressure := backpressure,breakerRejected := breakerRejected }.putSender i d next)
  | put (room : w.queue.length < c.queueSize) :
      Sends w i d .send ({ w with queue := w.queue ++ [d],sent := w.sent ++ [d] }.putSender i d .count)
  | count : Sends w i d .count ({ w with accepted := w.accepted + 1 }.putSender i d .done)

theorem sendCases (ran : w.sendOn c i d stage = some v) : Sends c w i d stage v := by
  cases stage with
  | done => cases ran
  | count =>
    cases ran
    exact .count
  | send =>
    cases ran
    split
    · exact .put ‹_›
    exact .quiet .done (w.dropped + 1) w.backpressure w.breakerRejected nofun nofun nofun
  | budget =>
    cases ran
    split
    · exact .quiet .done (w.dropped + 1) w.backpressure w.breakerRejected nofun nofun nofun
    exact .quiet .hung w.dropped w.backpressure w.breakerRejected nofun nofun nofun
  | hung =>
    cases ran
    split
    · exact .quiet .done (w.dropped + 1) (w.backpressure + 1) w.breakerRejected nofun nofun nofun
    exact .quiet .breaker w.dropped w.backpressure w.breakerRejected nofun nofun nofun
  | breaker =>
    cases ran
    split
    · exact .quiet .send w.dropped w.backpressure w.breakerRejected nofun nofun nofun
    exact .quiet .done (w.dropped + 1) w.backpressure (w.breakerRejected + 1) nofun nofun nofun

inductive Works (w : World δ) : World δ → Prop where
  | refuse (stands : w.stage = .allow d)
      (opened : w.breakerOpenedAt ≠ 0 ∧ (w.now - w.breakerOpenedAt < c.breakerCooldown ∨ w.halfOpen = true)) :
      Works w { w.rejectBreaker with stage := .waiting }
  | allow (stands : w.stage = .allow d) (shut : w.breakerOpenedAt = 0) : Works w { w with stage := .hung d }
  | probe (stands : w.stage = .allow d) (opened : w.breakerOpenedAt ≠ 0)
      (cooled : c.breakerCooldown ≤ w.now - w.breakerOpenedAt) (free : w.halfOpen = false) :
      Works w { w with halfOpen := true,stage := .hung d }
  | limit (stands : w.stage = .hung d) (many : c.maxHungCalls ≤ w.hungCalls) :
      Works w { w.rejectHungLimit with stage := .waiting }
  | pass (stands : w.stage = .hung d) (few : w.hungCalls < c.maxHungCalls) : Works w { w with stage := .slot d }
  | busy (stands : w.stage = .slot d) (taken : w.inFlight = true) :
      Works w
        { w with halfOpen := false,dropped := w.dropped + 1,backpressure := w.backpressure + 1,stage := .waiting }
  | take (stands : w.stage = .slot d) (free : w.inFlight = false) :
      Works w { w with inFlight := true,stage := .launch d }
  | launch (stands : w.stage = .launch d) :
      Works w { w with
        activeCalls := w.activeCalls + 1
        calls := w.calls ++ [⟨d,w.now,.running,false,none⟩]
        stage := .await w.calls.length }
  | flag (stands : w.stage = .late i) (found : w.calls[i]? = some call) :
      Works w { w with calls := w.calls.set i { call with timedOut := true },stage := .hang i }
  | hang (stands : w.stage = .hang i) :
      Works w { w with hungCalls := w.hungCalls + 1,timedOut := w.timedOut + 1,stage := .failure }
  | panicked (stands : w.stage = .completed i true) : Works w { w with stage := .failure }
  | exported (stands : w.stage = .completed i false) :
      Works w { w with exported := w.exported + 1,stage := .success }
  | success (stands : w.stage = .success) (paused : Nat) :
      Works w { w with
        consecutiveFailures := 0
        breakerOpenedAt := 0
        errorBudgetPausedAt := paused
        halfOpen := false
        stage := .waiting }
  | failure (stands : w.stage = .failure) (failures opened paused : Nat) :
      Works w { w with
        consecutiveFailures := failures
        breakerOpenedAt := opened
        errorBudgetPausedAt := paused
        halfOpen := false
        stage := .waiting }

theorem evaluated (w : World δ) : ∃ paused, w.evaluateErrorBudget c = { w with errorBudgetPausedAt := paused } := by
  unfold World.evaluateErrorBudget
  split
  · exact ⟨w.errorBudgetPausedAt,rfl⟩
  split
  · exact ⟨w.now,rfl⟩
  exact ⟨w.errorBudgetPausedAt,rfl⟩

theorem workCases (ran : w.work c = some v) : Works c w v := by
  unfold World.work at ran
  split at ran
  · rename_i stands
    simp only [World.allowDelivery] at ran
    by_cases shut : w.breakerOpenedAt = 0
    · simp only [shut,if_true,Option.some.injEq] at ran
      subst ran
      exact shut ▸ .allow stands shut
    by_cases hot : w.now - w.breakerOpenedAt < c.breakerCooldown
    · simp only [shut,hot,if_true,if_false,Bool.false_eq_true,Option.some.injEq] at ran
      subst ran
      exact .refuse stands ⟨shut,.inl hot⟩
    simp only [shut,hot,if_false] at ran
    cases free : w.halfOpen with
    | false =>
      simp only [free,Bool.not_false,if_true,Option.some.injEq] at ran
      subst ran
      exact .probe stands shut (Nat.not_lt.mp hot) free
    | true =>
      simp only [free,Bool.not_true,Bool.false_eq_true,if_false,Option.some.injEq] at ran
      have eq := Works.refuse (c := c) stands ⟨shut,.inr free⟩
      rw [← ran]
      simpa only [World.rejectBreaker,free] using eq
  · rename_i stands
    split at ran <;> cases ran
    · exact .limit stands ‹_›
    exact .pass stands (Int.not_le.mp ‹_›)
  · rename_i stands
    split at ran <;> cases ran
    · exact .busy stands ‹_›
    exact .take stands (Bool.eq_false_iff.mpr ‹_›)
  · cases ran
    exact .launch ‹_›
  · rename_i stands
    obtain ⟨call,got,rfl⟩ := Option.map_eq_some_iff.mp ran
    exact .flag stands got
  · cases ran
    exact .hang ‹_›
  · rename_i panicked stands
    cases panicked <;> cases ran
    · exact .exported stands
    exact .panicked stands
  · cases ran
    exact .success ‹_› _
  · rename_i stands
    cases ran
    obtain ⟨paused,eq⟩ := evaluated c { w with
      consecutiveFailures := w.consecutiveFailures + 1
      halfOpen := false
      breakerOpenedAt := if c.breakerFailureThreshold ≤ w.consecutiveFailures + 1 then w.now else w.breakerOpenedAt }
    rw [World.recordFailure,eq]
    exact .failure stands _ _ paused
  all_goals cases ran

inductive Steps (w : World δ) : Act δ → World δ → Prop where
  | refused (shut : w.closed = true) : Steps w (.enter d) w
  | enter (lives : w.closed = false) : Steps w (.enter d) { w with senders := w.senders ++ [⟨d,.budget⟩] }
  | send (found : w.senders[i]? = some ⟨d,stage⟩)
      (sends : Sends c w i d stage v) : Steps w (.send i) v
  | receive (stands : w.stage = .waiting) (first : w.queue = d :: rest) :
      Steps w .receive { w with queue := rest,stage := .allow d }
  | done (stands : w.stage = .waiting) (shut : w.closed = true) : Steps w .done { w with draining := true }
  | drained (stands : w.stage = .waiting) (empty : w.queue = []) (draining : w.draining = true) :
      Steps w .drained { w with stage := .ended }
  | work (works : Works c w v) : Steps w .work v
  | complete (stands : w.stage = .await i) (found : w.calls[i]? = some call)
      (sent : call.completed = some panicked) : Steps w .complete { w with stage := .completed i panicked }
  | expire (stands : w.stage = .await i) (found : w.calls[i]? = some call)
      (due : call.startedAt + c.timeout ≤ w.now) : Steps w .expire { w with stage := .late i }
  | finish (found : w.calls[i]? = some call) (phase : call.phase = .running) :
      Steps w (.finish i panicked)
        { w with calls := w.calls.set i { call with phase := .returned panicked },panics := w.panics + panicked.toNat }
  | report (found : w.calls[i]? = some call)
      (phase : call.phase = .returned panicked) :
      Steps w (.callOn i)
        { w with calls := w.calls.set i { call with phase := .reported,completed := some panicked } }
  | leave {i : Nat} {call : Call δ} (found : w.calls[i]? = some call) (phase : call.phase = .reported) :
      Steps w (.callOn i)
        { w with
          calls := w.calls.set i { call with phase := .left }
          hungCalls := if call.timedOut then w.hungCalls - 1 else w.hungCalls }
  | release (found : w.calls[i]? = some call) (phase : call.phase = .left) :
      Steps w (.callOn i)
        { w with
          calls := w.calls.set i { call with phase := .gone }
          activeCalls := w.activeCalls - 1
          inFlight := false }
  | tick (n : Nat) : Steps w (.tick n) { w with now := w.now + n }
  | shut (lives : w.closed = false) (outside : ∀ sender ∈ w.senders, sender.stage = .done) :
      Steps w .shut { w with closed := true }
  | closeReturn (stands : w.stage = .ended) : Steps w .closeReturn { w with closeReturned := true }

theorem callCases (got : w.calls[i]? = some call) (ran : w.callOn i call = some v) : Steps c w (.callOn i) v := by
  unfold World.callOn at ran
  split at ran <;> try contradiction
  all_goals
    rename_i phase
    cases ran
  · exact .report got phase
  · exact .leave got phase
  exact .release got phase

theorem stepCases (ran : step c w a = some v) : Steps c w a v := by
  cases a with
  | enter =>
    cases ran
    split
    · exact .refused ‹_›
    exact .enter (Bool.eq_false_iff.mpr ‹_›)
  | send =>
    obtain ⟨⟨d,stage⟩,got,ran⟩ := Option.bind_eq_some_iff.mp ran
    exact .send got (sendCases c ran)
  | receive =>
    simp only [step] at ran
    split at ran <;> cases ran
    exact .receive ‹_› ‹_›
  | done =>
    simp only [step] at ran
    split at ran <;> try contradiction
    split at ran <;> cases ran
    rename_i stands ready
    exact .done stands ready.1
  | drained =>
    simp only [step] at ran
    split at ran <;> try contradiction
    split at ran <;> cases ran
    exact .drained ‹_› ‹_› ‹_›
  | work => exact .work (workCases c ran)
  | complete =>
    simp only [step] at ran
    split at ran <;> try contradiction
    rename_i stands
    split at ran <;> cases ran
    rename_i sent
    obtain ⟨call,got,sent⟩ := Option.bind_eq_some_iff.mp sent
    exact .complete stands got sent
  | expire =>
    simp only [step] at ran
    split at ran <;> try contradiction
    split at ran <;> try contradiction
    split at ran <;> cases ran
    exact .expire ‹_› ‹_› ‹_›
  | finish =>
    simp only [step] at ran
    split at ran <;> try contradiction
    split at ran <;> cases ran
    exact .finish ‹_› ‹_›
  | callOn =>
    obtain ⟨call,got,ran⟩ := Option.bind_eq_some_iff.mp ran
    exact callCases c got ran
  | tick n =>
    cases ran
    exact .tick n
  | shut =>
    simp only [step] at ran
    split at ran <;> cases ran
    rename_i ready
    exact .shut ready.1 (by simpa using ready.2)
  | closeReturn =>
    simp only [step] at ran
    split at ran <;> cases ran
    exact .closeReturn ‹_›

end Gofly.ExporterDelivery
