import Gofly.CircuitGate

/-! The threshold, the adaptive and the throttling breaker, one locked section a function. Times are
nanoseconds since the zero time, so the zero time itself is 0. -/
namespace Gofly.CoreBreaker
open CircuitGate

abbrev second : Int := 1000000000

structure Breaker where
  state : State
  failures : Int64
  failureThreshold : Int64
  openTimeout : Int
  openedAt : Int
  halfOpenProbe : Bool
  deriving DecidableEq

inductive Setting where
  | failureThreshold (n : Int64)
  | openTimeout (d : Int)
  deriving DecidableEq

def Setting.set (b : Breaker) : Setting → Breaker
  | .failureThreshold n => if 0 < n then { b with failureThreshold := n } else b
  | .openTimeout d => if 0 < d then { b with openTimeout := d } else b

def new (settings : List Setting) : Breaker :=
  settings.foldl Setting.set ⟨.closed,0,3,second,0,false⟩

def refreshLocked (b : Breaker) (now : Int) : Breaker :=
  if b.state = .opened ∧ now - b.openedAt ≥ b.openTimeout then { b with state := .halfOpen } else b

def openLocked (b : Breaker) (now : Int) : Breaker :=
  { b with state := .opened,openedAt := now,halfOpenProbe := false }

def allow (b : Breaker) (now : Int) : Breaker × Bool :=
  let b := refreshLocked b now
  (b,decide (b.state ≠ .opened))

def allowProbe (b : Breaker) (now : Int) : Breaker × Bool :=
  let b := refreshLocked b now
  if b.state = .opened then (b,false)
  else if b.state = .halfOpen then
    if b.halfOpenProbe then (b,false) else ({ b with halfOpenProbe := true },true)
  else (b,true)

def releaseProbe (b : Breaker) : Breaker :=
  if b.state = .halfOpen then { b with halfOpenProbe := false } else b

def accept (b : Breaker) : Breaker :=
  { b with failures := 0,state := .closed,halfOpenProbe := false }

def reject (b : Breaker) (now : Int) : Breaker :=
  if b.state = .halfOpen then openLocked { b with halfOpenProbe := false } now
  else
    let b := { b with failures := b.failures + 1 }
    if b.failures ≥ b.failureThreshold then openLocked b now else b

def breakerGate : Gate Breaker where
  state b := b.state
  openedAt b := b.openedAt
  openTimeout b := b.openTimeout
  halfOpenProbe b := b.halfOpenProbe
  perform
    | .observe,b,now => refreshLocked b now
    | .allow,b,now => (allow b now).1
    | .enter,b,now => (allowProbe b now).1
    | .success,b,_ => accept b
    | .failure,b,now => reject b now
    | .panic,b,_ => releaseProbe b
  enters b now := (allowProbe b now).2

structure Bucket where
  start : Int
  requests : Int64
  success : Int64
  deriving DecidableEq

def Bucket.zero : Bucket := ⟨0,0,0⟩

structure AdaptiveBreaker where
  state : State
  openedAt : Int
  openTimeout : Int
  window : Int
  bucketSize : Int
  buckets : List Bucket
  minRequests : Int64
  belowFailureRatio : Int64 → Int64 → Bool
  reachesK : Int64 → Int64 → Bool
  halfOpenProbe : Bool

namespace AdaptiveBreaker

inductive Setting where
  | openTimeout (d : Int)
  | window (d : Int)
  | buckets (n : Int)
  | minRequests (n : Int64)
  deriving DecidableEq

def Setting.set (b : AdaptiveBreaker) : Setting → AdaptiveBreaker
  | .openTimeout d => if 0 < d then { b with openTimeout := d } else b
  | .window d => if 0 < d then { b with window := d } else b
  | .buckets n => if 0 < n then { b with buckets := List.replicate n.toNat Bucket.zero } else b
  | .minRequests n => if 0 < n then { b with minRequests := n } else b

def newAdaptive (belowFailureRatio reachesK : Int64 → Int64 → Bool) (settings : List Setting) :
    AdaptiveBreaker :=
  let b := settings.foldl Setting.set
    ⟨.closed,0,5 * second,10 * second,0,List.replicate 10 Bucket.zero,20,
      belowFailureRatio,reachesK,false⟩
  let b := if b.buckets.length = 0 then { b with buckets := List.replicate 10 Bucket.zero } else b
  let b := if b.window ≤ 0 then { b with window := 10 * second } else b
  let b := { b with bucketSize := b.window.tdiv b.buckets.length }
  if b.bucketSize ≤ 0 then { b with bucketSize := second } else b

def refreshLocked (b : AdaptiveBreaker) (now : Int) : AdaptiveBreaker :=
  if b.state = .opened ∧ now - b.openedAt ≥ b.openTimeout then { b with state := .halfOpen } else b

def snapshotLocked (b : AdaptiveBreaker) (now : Int) : Int64 × Int64 :=
  b.buckets.foldl (fun (total : Int64 × Int64) (bucket : Bucket) =>
    if bucket.start = 0 ∨ now - bucket.start ≥ b.window then total
    else (total.1 + bucket.requests,total.2 + bucket.success)) (0,0)

def shouldOpenLocked (b : AdaptiveBreaker) (now : Int) : Bool :=
  let (requests,success) := b.snapshotLocked now
  if requests < b.minRequests then false
  else
    let failures := requests - success
    if b.belowFailureRatio failures requests then false else b.reachesK requests success

-- Seconds from the zero time (year 1) to the Unix epoch.
def unixEpoch : Int := 62135596800 * second

def currentBucketLocked (b : AdaptiveBreaker) (now : Int) (change : Bucket → Bucket) :
    AdaptiveBreaker :=
  let start := now - now % b.bucketSize
  let index := ((start - unixEpoch).tdiv b.bucketSize).tmod b.buckets.length
  let index := if index < 0 then -index else index
  { b with buckets := b.buckets.modify index.toNat fun current =>
      change (if current.start ≠ start then ⟨start,0,0⟩ else current) }

section
variable (b : AdaptiveBreaker) (now : Int) (change : Bucket → Bucket)

@[simp] theorem currentBucketState : (b.currentBucketLocked now change).state = b.state := rfl
@[simp] theorem currentBucketOpenedAt : (b.currentBucketLocked now change).openedAt = b.openedAt := rfl
@[simp] theorem currentBucketTimeout : (b.currentBucketLocked now change).openTimeout = b.openTimeout := rfl
end

def openLocked (b : AdaptiveBreaker) (now : Int) : AdaptiveBreaker :=
  { b with state := .opened,openedAt := now,halfOpenProbe := false }

def resetLocked (b : AdaptiveBreaker) : AdaptiveBreaker :=
  { b with buckets := b.buckets.map fun _ => Bucket.zero }

def allow (b : AdaptiveBreaker) (now : Int) : AdaptiveBreaker × Bool :=
  let b := b.refreshLocked now
  if b.state = .opened then (b,false)
  else if b.state = .closed ∧ b.shouldOpenLocked now then (b.openLocked now,false)
  else (b,true)

def allowProbe (b : AdaptiveBreaker) (now : Int) : AdaptiveBreaker × Bool :=
  let b := b.refreshLocked now
  if b.state = .opened then (b,false)
  else if b.state = .closed ∧ b.shouldOpenLocked now then (b.openLocked now,false)
  else if b.state = .halfOpen then
    if b.halfOpenProbe then (b,false) else ({ b with halfOpenProbe := true },true)
  else (b,true)

def releaseProbe (b : AdaptiveBreaker) : AdaptiveBreaker :=
  if b.state = .halfOpen then { b with halfOpenProbe := false } else b

def markSuccess (b : AdaptiveBreaker) (now : Int) : AdaptiveBreaker :=
  let b := b.refreshLocked now
  let b := b.currentBucketLocked now fun c =>
    { c with requests := c.requests + 1,success := c.success + 1 }
  if b.state = .halfOpen then resetLocked { b with state := .closed,halfOpenProbe := false } else b

def markFailure (b : AdaptiveBreaker) (now : Int) : AdaptiveBreaker :=
  let b := b.refreshLocked now
  let b := b.currentBucketLocked now fun c => { c with requests := c.requests + 1 }
  if b.state = .halfOpen ∨ b.shouldOpenLocked now then b.openLocked now else b

end AdaptiveBreaker

def adaptiveGate : Gate AdaptiveBreaker where
  state b := b.state
  openedAt b := b.openedAt
  openTimeout b := b.openTimeout
  halfOpenProbe b := b.halfOpenProbe
  perform
    | .observe,b,now => b.refreshLocked now
    | .allow,b,now => (b.allow now).1
    | .enter,b,now => (b.allowProbe now).1
    | .success,b,now => b.markSuccess now
    | .failure,b,now => b.markFailure now
    | .panic,b,_ => b.releaseProbe
  enters b now := (b.allowProbe now).2

structure GoogleBucket where
  start : Int
  requests : Int64
  accepts : Int64
  deriving DecidableEq

def GoogleBucket.zero : GoogleBucket := ⟨0,0,0⟩

structure GoogleBreaker where
  window : Int
  bucketSize : Int
  buckets : List GoogleBucket
  deriving DecidableEq

namespace GoogleBreaker

inductive GoogleOption where
  | window (d : Int)
  | buckets (n : Int)
  deriving DecidableEq

def GoogleOption.set (b : GoogleBreaker) : GoogleOption → GoogleBreaker
  | .window d => if 0 < d then { b with window := d } else b
  | .buckets n => if 0 < n then { b with buckets := List.replicate n.toNat GoogleBucket.zero } else b

def newGoogle (opts : List GoogleOption) : GoogleBreaker :=
  let b := opts.foldl GoogleOption.set ⟨10 * second,0,List.replicate 10 GoogleBucket.zero⟩
  let b := if b.buckets.length = 0 then { b with buckets := List.replicate 10 GoogleBucket.zero } else b
  let b := if b.window ≤ 0 then { b with window := 10 * second } else b
  let b := { b with bucketSize := b.window.tdiv b.buckets.length }
  if b.bucketSize ≤ 0 then { b with bucketSize := second } else b

def snapshotLocked (b : GoogleBreaker) (now : Int) : Int64 × Int64 :=
  b.buckets.foldl (fun (total : Int64 × Int64) (bucket : GoogleBucket) =>
    if bucket.start = 0 ∨ now - bucket.start ≥ b.window then total
    else (total.1 + bucket.requests,total.2 + bucket.accepts)) (0,0)

def currentBucketLocked (b : GoogleBreaker) (now : Int) (change : GoogleBucket → GoogleBucket) :
    GoogleBreaker :=
  let start := now - now % b.bucketSize
  let index := ((start - AdaptiveBreaker.unixEpoch).tdiv b.bucketSize).tmod b.buckets.length
  let index := if index < 0 then -index else index
  { b with buckets := b.buckets.modify index.toNat fun current =>
      change (if current.start ≠ start then ⟨start,0,0⟩ else current) }

def allow (b : GoogleBreaker) (now : Int) (accepted : Int64 → Int64 → Bool) : GoogleBreaker × Bool :=
  let (requests,accepts) := b.snapshotLocked now
  (b.currentBucketLocked now fun c => { c with requests := c.requests + 1 },accepted requests accepts)

def markSuccess (b : GoogleBreaker) (now : Int) : GoogleBreaker :=
  b.currentBucketLocked now fun c => { c with accepts := c.accepts + 1 }
def markFailure (b : GoogleBreaker) : GoogleBreaker := b

end GoogleBreaker
end Gofly.CoreBreaker
