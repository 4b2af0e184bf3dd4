import Mathlib.Algebra.Order.Group.Unbundled.Int
import Gofly.Roster
import Gofly.Transition
/-! The adaptive limiter of core/limit. The comparison of the error ratio with its target, in
floating point, is a parameter. -/
namespace Gofly.AdaptiveLimit
open Transition

structure AdaptiveLimiter where
  minLimit : Int := 1
  maxLimit : Int := 1000
  limit : Int := 10
  inFlight : Int := 0
  cpuThreshold : Int := 0
  window : Int := 1000000000
  targetLatency : Int := 100000000
  minSamples : Int := 10
  windowStart : Int := 0
  requests : Int := 0
  success : Int := 0
  passes : Int := 0
  drops : Int := 0
  totalLatency : Int := 0
  peakInFlight : Int := 0
  cpu : Bool := false
  deriving DecidableEq

inductive AdaptiveLimiterOption where
  | limits (minLimit maxLimit : Int)
  | initialLimit (limit : Int)
  | limitWindow (window : Int)
  | targetLatency (latency : Int)
  | minSamples (samples : Int)
  | cpuThreshold (threshold : Int)
  | cpuReader (given : Bool)

def AdaptiveLimiterOption.apply (l : AdaptiveLimiter) : AdaptiveLimiterOption → AdaptiveLimiter
  | .limits minLimit maxLimit =>
    let l := if minLimit > 0 then { l with minLimit := minLimit } else l
    if maxLimit > 0 then { l with maxLimit := maxLimit } else l
  | .initialLimit limit => if limit > 0 then { l with limit := limit } else l
  | .limitWindow window => if window > 0 then { l with window := window } else l
  | .targetLatency latency => if latency > 0 then { l with targetLatency := latency } else l
  | .minSamples samples => if samples > 0 then { l with minSamples := samples } else l
  | .cpuThreshold threshold => if threshold > 0 then { l with cpuThreshold := threshold } else l
  | .cpuReader given => { l with cpu := given }

def newAdaptiveLimiter (opts : List AdaptiveLimiterOption) (now : Int) : AdaptiveLimiter :=
  let l := opts.foldl AdaptiveLimiterOption.apply {}
  let minLimit := if l.minLimit ≤ 0 then 1 else l.minLimit
  let maxLimit := if l.maxLimit < minLimit then minLimit else l.maxLimit
  let limit := if l.limit < minLimit then minLimit else l.limit
  { l with
    minLimit := minLimit,maxLimit := maxLimit,limit := if limit > maxLimit then maxLimit else limit
    window := if l.window ≤ 0 then 1000000000 else l.window
    targetLatency := if l.targetLatency ≤ 0 then 100000000 else l.targetLatency
    minSamples := if l.minSamples ≤ 0 then 10 else l.minSamples,windowStart := now }

variable (exceeds : Int → Int → Bool)
namespace AdaptiveLimiter

def averageLatencyLocked (l : AdaptiveLimiter) : Int := if l.requests = 0 then 0 else l.totalLatency.tdiv l.requests

def adjustLocked (l : AdaptiveLimiter) : AdaptiveLimiter :=
  if l.requests < l.minSamples then l
  else if exceeds (l.requests - l.success) l.requests ∨ l.averageLatencyLocked > l.targetLatency then
    let step := if l.limit.tdiv 5 < 1 then 1 else l.limit.tdiv 5
    { l with limit := if l.limit - step < l.minLimit then l.minLimit else l.limit - step }
  else if l.peakInFlight ≥ l.limit ∧ l.limit < l.maxLimit then { l with limit := l.limit + 1 }
  else l

def refreshLocked (l : AdaptiveLimiter) (now : Int) : AdaptiveLimiter :=
  if l.windowStart = 0 then { l with windowStart := now }
  else if now - l.windowStart < l.window then l
  else
    let l := l.adjustLocked exceeds
    { l with windowStart := now,requests := 0,success := 0,passes := 0,drops := 0,totalLatency := 0,peakInFlight := l.inFlight }

def overloadFlightLocked (l : AdaptiveLimiter) : Int := if l.limit.tdiv 2 < 1 then 1 else l.limit.tdiv 2
def shouldShedLocked (l : AdaptiveLimiter) (load : Int) : Bool :=
  l.cpu && l.cpuThreshold > 0 && load ≥ l.cpuThreshold && l.inFlight ≥ l.overloadFlightLocked

def allow (l : AdaptiveLimiter) (load now : Int) : AdaptiveLimiter × Bool :=
  let l := l.refreshLocked exceeds now
  if l.shouldShedLocked load ∨ l.inFlight ≥ l.limit then ({ l with drops := l.drops + 1 },false)
  else
    ({ l with
      inFlight := l.inFlight + 1,passes := l.passes + 1
      peakInFlight := if l.inFlight + 1 > l.peakInFlight then l.inFlight + 1 else l.peakInFlight },true)

def done (l : AdaptiveLimiter) (start : Int) (success : Bool) (now : Int) : AdaptiveLimiter :=
  { l with
    inFlight := if l.inFlight > 0 then l.inFlight - 1 else l.inFlight
    requests := l.requests + 1
    success := if success then l.success + 1 else l.success
    totalLatency := (l.totalLatency + (now - start)).bmod 18446744073709551616 }.refreshLocked exceeds now

end AdaptiveLimiter

/-- A token is `none` once it is done; `last` is the limit in force at the last admission. -/
structure World where
  limiter : AdaptiveLimiter
  now : Int
  tokens : List (Option Int)
  last : Int

inductive Act where
  | allow (load : Int)
  | done (token : Nat) (success : Bool)
  | observe

def step (w : World) (a : Nat × Act) : Option World :=
  let now := w.now + a.1
  match a.2 with
  | .allow load =>
    match w.limiter.allow exceeds load now with
    | (l,true) => some ⟨l,now,w.tokens ++ [some now],l.limit⟩
    | (l,false) => some { w with limiter := l,now := now }
  | .done token success => do
    match ← w.tokens[token]? with
    | none => some { w with now := now }
    | some start => some { w with limiter := w.limiter.done exceeds start success now,now := now,tokens := w.tokens.set token none }
  | .observe => some { w with limiter := w.limiter.refreshLocked exceeds now,now := now }

structure Held (l : AdaptiveLimiter) : Prop where
  low : l.minLimit ≤ l.limit
  high : l.limit ≤ l.maxLimit
  peak : l.inFlight ≤ l.peakInFlight
  success : l.success ≤ l.requests

structure Kept (w : World) : Prop where
  held : Held w.limiter
  flights : w.limiter.inFlight = w.tokens.countP Option.isSome
  last : w.limiter.inFlight ≤ w.last


theorem adjustHeld (held : Held l) : Held (l.adjustLocked exceeds) ∧ (l.adjustLocked exceeds).inFlight = l.inFlight := by
  obtain ⟨low,high,peak,success⟩ := held
  unfold AdaptiveLimiter.adjustLocked
  split
  · exact ⟨⟨low,high,peak,success⟩,rfl⟩
  split
  · refine ⟨⟨?_,?_,peak,success⟩,rfl⟩ <;> simp only <;> split_ifs <;> omega
  split
  · rename_i room
    exact ⟨⟨by simp only; omega,room.2,peak,success⟩,rfl⟩
  exact ⟨⟨low,high,peak,success⟩,rfl⟩

theorem refreshHeld (held : Held l) (now) :
    Held (l.refreshLocked exceeds now) ∧ (l.refreshLocked exceeds now).inFlight = l.inFlight := by
  unfold AdaptiveLimiter.refreshLocked
  split
  · exact ⟨{ held with },rfl⟩
  split
  · exact ⟨held,rfl⟩
  obtain ⟨adjusted,eq⟩ := adjustHeld exceeds held
  exact ⟨{ adjusted with peak := le_refl _,success := le_refl _ },eq⟩

theorem refreshKept (kept : Kept ⟨l,t,tokens,last⟩) (now) : Kept ⟨l.refreshLocked exceeds now,now,tokens,last⟩ := by
  obtain ⟨fresh,eq⟩ := refreshHeld exceeds kept.held now
  exact ⟨fresh,eq.trans kept.flights,eq.trans_le kept.last⟩

theorem stepKept (w a next) (kept : Kept w) (_ : Free w a) (ran : step exceeds w a = some next) : Kept next := by
  obtain ⟨d,act⟩ := a
  cases act with
  | allow load =>
    obtain ⟨fresh,flights,last⟩ := refreshKept exceeds kept (w.now + d)
    simp only [step,AdaptiveLimiter.allow] at ran
    split at ran <;> rename_i result <;> split at result <;> cases result <;> cases ran
    · refine ⟨{ fresh with peak := ?_ },?_,?_⟩ <;> simp only at *
      · split <;> omega
      · simp [flights]
      · omega
    exact ⟨{ fresh with },flights,last⟩
  | done token success =>
    simp only [step,bind,Option.bind_eq_some_iff] at ran
    obtain ⟨issued,got,ran⟩ := ran
    obtain ⟨held,flights,last⟩ := kept
    cases issued with
    | none =>
      cases ran
      exact ⟨held,flights,last⟩
    | some start =>
      cases ran
      have fewer : (w.tokens.set token none).countP Option.isSome + 1 = w.tokens.countP Option.isSome :=
        Roster.countSet _ got none
      have peak := held.peak
      have less := held.success
      apply refreshKept (t := w.now)
      refine ⟨⟨held.low,held.high,?_,?_⟩,?_,?_⟩ <;> simp only <;> split <;> omega
  | observe =>
    cases ran
    exact refreshKept exceeds kept _

def Idle (l : AdaptiveLimiter) : Prop := l.inFlight = 0 ∧ l.peakInFlight = 0 ∧ l.requests = 0 ∧ l.success = 0

theorem optionsIdle (opts) (idle : Idle l) : Idle (List.foldl AdaptiveLimiterOption.apply l opts) := by
  induction opts generalizing l with
  | nil => exact idle
  | cons o rest ih =>
    refine ih ?_
    cases o with
    | cpuReader => exact idle
    | _ =>
      simp only [AdaptiveLimiterOption.apply]
      split_ifs <;> exact idle

theorem newKept (opts now) : Kept ⟨newAdaptiveLimiter opts now,now,[],0⟩ := by
  obtain ⟨flight,peak,requests,success⟩ := optionsIdle opts (l := {}) ⟨rfl,rfl,rfl,rfl⟩
  refine ⟨⟨?_,?_,?_,?_⟩,flight,flight.le⟩ <;> simp only [newAdaptiveLimiter]
  · split_ifs <;> omega
  · split_ifs <;> omega
  · omega
  omega

theorem adaptiveKept (exceeds : Int → Int → Bool) (opts : List AdaptiveLimiterOption) (now : Int)
    (ran : Trace (step exceeds) Free ⟨newAdaptiveLimiter opts now,now,[],0⟩ as w) : Kept w :=
  traceInvariant (stepKept exceeds) ran (newKept opts now)

theorem tokenDoneTwice : ∃ w, Trace (step fun _ _ => false) Free ⟨newAdaptiveLimiter [] 1,1,[],0⟩
    [(0,.allow 0),(5,.done 0 true),(0,.done 0 false)] w ∧ Kept w := by
  obtain ⟨w,-,ran⟩ := acceptedTrace (show accepts (step fun _ _ => false) Free
    ⟨newAdaptiveLimiter [] 1,1,[],0⟩ [(0,.allow 0),(5,.done 0 true),(0,.done 0 false)] = true by decide +kernel)
  exact ⟨w,ran,adaptiveKept _ _ _ ran⟩

end Gofly.AdaptiveLimit
