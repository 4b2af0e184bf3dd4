import Mathlib.Algebra.Group.Prod
import Gofly.BucketRing
import Gofly.CoreBreaker
/-! The windows of the adaptive and the throttling breaker count exactly unless a bucket before
the Unix epoch is live when an event after it is recorded: slots go by the distance from it. -/
namespace Gofly.CoreBreaker
open BucketRing CircuitGate
open Transition
open AdaptiveBreaker (unixEpoch)
open Int64 (add_comm ofNat)

instance int64AddCommMonoid : AddCommMonoid Int64 where
  add_assoc := Int64.add_assoc
  zero_add := Int64.zero_add
  add_zero := Int64.add_zero
  add_comm := add_comm
  nsmul := nsmulRec

section
variable {β : Type} (start : β → Int) (counts : β → Int64 × Int64)

def slotOf (c : β) : Slot (Int64 × Int64) := ⟨if start c = 0 then none else some (start c),counts c⟩

theorem foldTotal (buckets : List β) (window now) : buckets.foldl (fun (sum : Int64 × Int64) c =>
      if start c = 0 ∨ now - start c ≥ window then sum else (sum.1 + (counts c).1,sum.2 + (counts c).2)) (0,0) =
      total (live window now) (buckets.map (slotOf start counts)) := by
  rw [← zero_add (total _ _)]
  refine foldTotals _ _ (0,0) fun sum c => ?_
  by_cases zero : start c = 0
  · simp [slotOf,zero]
  by_cases alive : now - start c < window
  · simp [slotOf,zero,live,alive,Int.not_le.mpr alive]
    rfl
  simp [slotOf,zero,live,alive]

theorem modifyRecord {buckets : List β}
    {change : β → β} (nonzero : s ≠ 0) (starts : start fresh = s) (empty : counts fresh = 0)
    (kept : ∀ c, start (change c) = start c) (added : ∀ c, counts (change c) = counts c + x) :
    (buckets.modify j fun c => change (if start c ≠ s then fresh else c)).map (slotOf start counts) =
      record j s x (buckets.map (slotOf start counts)) := by
  refine modifyRecords buckets j fun c => ?_
  by_cases eq : start c = s
  · simp [slotOf,kept,added,eq,nonzero]
  simp [slotOf,kept,added,eq,nonzero,starts,empty]
end

structure Recording (B : Type) where
  breaker : B
  now : Int
  log : List (Int × Bool)

def Recording.inside {B : Type} (w : Recording B) (size window now : Int) : List (Int × Bool) :=
  w.log.filter fun e => live window now (bucketStart size e.1)

/-- The start of the bucket is in the range of UnixNano, and no bucket in the window is on
the other side of the Unix epoch. -/
abbrev OneSided (starts : List Int) (size window now : Int) : Prop :=
  (-9223372036854775808 ≤ bucketStart size now - unixEpoch ∧
      bucketStart size now - unixEpoch < 9223372036854775808) ∧
    ∀ t ∈ starts, t ≠ 0 → now - t < window → (t < unixEpoch ↔ bucketStart size now < unixEpoch)


theorem oneSidedNonzero (plain : OneSided starts size window now) : bucketStart size now ≠ 0 := by
  obtain ⟨⟨low,-⟩,-⟩ := plain
  intro zero
  rw [zero] at low
  simp [unixEpoch,second] at low

section

variable {β : Type} {start : β → Int} {counts : β → Int64 × Int64} {buckets : List β}
  {size window now next : Int} {log : List (Int × Bool)}

def Counts (start : β → Int) (counts : β → Int64 × Int64) (weigh : Bool → Int64 × Int64)
    (buckets : List β) (size now : Int) (log : List (Int × Bool)) : Prop :=
  Windowed unixEpoch size buckets.length now (buckets.map (slotOf start counts))
    (log.map fun e => (e.1,weigh e.2))

theorem countsRecord {change : β → β}
    (pos : 0 < size) (slotted : 0 < buckets.length) (whole : window = buckets.length * size)
    (old : now ≤ next) (count : Counts start counts weigh buckets size now log)
    (plain : OneSided (buckets.map start) size window next)
    (starts : start fresh = bucketStart size next) (empty : counts fresh = 0)
    (kept : ∀ c, start (change c) = start c) (added : ∀ c, counts (change c) = counts c + weigh kind) :
    Counts start counts weigh (buckets.modify (place unixEpoch size buckets.length (bucketStart size next)) fun c =>
        change (if start c ≠ bucketStart size next then fresh else c)) size next ((next,kind) :: log) := by
  unfold Counts
  rw [List.length_modify,modifyRecord start counts (oneSidedNonzero plain) starts empty kept added]
  refine windowedRecord pos slotted old count _ fun slot mem t begun alive => ?_
  obtain ⟨c,inside,rfl⟩ := List.mem_map.mp mem
  have eq : start c = t ∧ t ≠ 0 := by
    unfold slotOf at begun
    split at begun <;> cases begun
    exact ⟨rfl,‹_›⟩
  exact plain.2 t (eq.1 ▸ List.mem_map_of_mem inside) eq.2 (by simpa [live,whole] using alive)

def weigh (first second : Bool → Bool) (kind : Bool) : Int64 × Int64 :=
  (if first kind then 1 else 0,if second kind then 1 else 0)

theorem weighSum (first second) (events : List (Int × Bool)) : (events.map fun e => weigh first second e.2).sum =
      (ofNat (events.countP fun e => first e.2),ofNat (events.countP fun e => second e.2)) := by
  induction events with
  | nil => rfl
  | cons e rest ih =>
    have unit (p : Bool → Bool) : (if p e.2 then (1 : Int64) else 0) + ofNat (rest.countP fun e => p e.2) =
        ofNat ((e :: rest).countP fun e => p e.2) := by
      rw [List.countP_cons,Int64.ofNat_add,add_comm]
      split <;> rfl
    rw [List.map_cons,List.sum_cons,ih,← unit first,← unit second]
    rfl

theorem countsTotal {second : Bool → Bool} (whole : window = buckets.length * size)
    (old : now ≤ next) (count : Counts start counts (weigh first second) buckets size now log) :
    total (live window next) (buckets.map (slotOf start counts)) =
      (ofNat ((log.filter fun e => live window next (bucketStart size e.1)).countP fun e => first e.2),
        ofNat ((log.filter fun e => live window next (bucketStart size e.1)).countP fun e => second e.2)) := by
  rw [← weighSum,whole,windowedTotal (windowedLater old count),List.filter_map,List.map_map]
  rfl

theorem countsLater {weigh : Bool → Int64 × Int64} (old : now ≤ next)
    (count : Counts start counts weigh buckets size now log) :
    Counts start counts weigh buckets size next log := windowedLater old count

theorem countsFresh {weigh : Bool → Int64 × Int64} (free : ∀ c ∈ buckets, start c = 0) :
    Counts start counts weigh buckets size now [] := by
  refine windowedFresh (fun slot mem => ?_) (List.length_map _)
  obtain ⟨c,inside,rfl⟩ := List.mem_map.mp mem
  simp [slotOf,free c inside]
end

structure Sized (window size : Int) (n : Nat) : Prop where
  positive : 0 < size
  slotted : 0 < n
  whole : window = n * size

theorem sizedWhole {window : Int} {n : Nat} (pos : 0 < window) (slotted : 0 < n)
    (whole : window % n = 0) : Sized window (window.tdiv n) n := by
  have divides : (n : Int) ∣ window := Int.dvd_of_emod_eq_zero whole
  obtain ⟨size,rfl⟩ := divides
  have count : (0 : Int) < n := by exact_mod_cast slotted
  have ge : 0 < size := by nlinarith
  rw [Int.mul_tdiv_cancel_left _ (Int.ne_of_gt count)]
  exact ⟨ge,slotted,rfl⟩

section
open AdaptiveBreaker

def adaptiveStep (w : Recording AdaptiveBreaker) (a : Nat × Act) : Option (Recording AdaptiveBreaker) :=
  let now := w.now + a.1
  let log :=
    match a.2 with
    -- The success that closes a half-open breaker resets the buckets.
    | .success => if (w.breaker.refreshLocked now).state = .halfOpen then [] else (now,true) :: w.log
    | .failure => (now,false) :: w.log
    | _ => w.log
  some ⟨adaptiveGate.perform a.2 w.breaker now,now,log⟩

abbrev AdaptiveOrdinary (w : Recording AdaptiveBreaker) (a : Nat × Act) : Prop :=
  a.2 = .success ∨ a.2 = .failure →
    OneSided (w.breaker.buckets.map Bucket.start) w.breaker.bucketSize w.breaker.window (w.now + a.1)

def AdaptiveExact (w : Recording AdaptiveBreaker) : Prop :=
  ∀ d : Nat,
    let events := w.inside w.breaker.bucketSize w.breaker.window (w.now + d)
    w.breaker.snapshotLocked (w.now + d) =
      (ofNat events.length,ofNat (events.countP (·.2)))

structure AdaptiveCounted (w : Recording AdaptiveBreaker) : Prop where
  sized : Sized w.breaker.window w.breaker.bucketSize w.breaker.buckets.length
  counted : Counts Bucket.start (fun c => (c.requests,c.success)) (weigh (fun _ => true) id)
    w.breaker.buckets w.breaker.bucketSize w.now w.log

theorem adaptiveCountedExact (count : AdaptiveCounted w) : AdaptiveExact w := by
  intro d events
  have total := countsTotal count.sized.whole (show w.now ≤ w.now + d by omega) count.counted
  rw [List.countP_true] at total
  exact (foldTotal _ _ _ _ _).trans total

def AdaptiveBreaker.ring (b : AdaptiveBreaker) : Int × Int × List Bucket := (b.window,b.bucketSize,b.buckets)

section
variable (b : AdaptiveBreaker)
include b

theorem refreshRing (now) : (b.refreshLocked now).ring = b.ring := by
  unfold AdaptiveBreaker.refreshLocked
  split <;> rfl

theorem allowRing (now) : (b.allow now).1.ring = b.ring := by
  rw [← refreshRing b now]
  unfold AdaptiveBreaker.allow
  simp only
  split_ifs <;> rfl

theorem enterRing (now) : (b.allowProbe now).1.ring = b.ring := by
  rw [← refreshRing b now]
  unfold AdaptiveBreaker.allowProbe
  simp only
  split_ifs <;> rfl

theorem releaseRing : b.releaseProbe.ring = b.ring := by
  unfold AdaptiveBreaker.releaseProbe
  split <;> rfl
end
variable {b c : AdaptiveBreaker}

theorem sameRing (count : AdaptiveCounted ⟨b,now,log⟩) (eq : c.ring = b.ring) (old : now ≤ next) :
    AdaptiveCounted ⟨c,next,log⟩ := by
  obtain ⟨window,size,buckets⟩ : c.window = b.window ∧ c.bucketSize = b.bucketSize ∧ c.buckets = b.buckets := by
    simpa [AdaptiveBreaker.ring] using eq
  constructor
  · simpa only [window,size,buckets] using count.sized
  simpa only [size,buckets] using countsLater old count.counted

theorem adaptiveRecord (old : now ≤ next) (counted : AdaptiveCounted ⟨b,now,log⟩)
    (plain : OneSided (b.buckets.map Bucket.start) b.bucketSize b.window next)
    (kept : ∀ c, (change c).start = c.start)
    (added : ∀ c, ((change c).requests,(change c).success) =
      (c.requests,c.success) + weigh (fun _ => true) id kind) :
    AdaptiveCounted ⟨b.currentBucketLocked next change,next,(next,kind) :: log⟩ where
  sized := by simpa only [AdaptiveBreaker.currentBucketLocked,List.length_modify] using counted.sized
  counted := countsRecord counted.sized.positive counted.sized.slotted counted.sized.whole old
    counted.counted plain rfl rfl kept added

theorem adaptiveReset (counted : AdaptiveCounted ⟨b,now,log⟩) (next) : AdaptiveCounted ⟨b.resetLocked,next,[]⟩ where
  sized := by simpa only [AdaptiveBreaker.resetLocked,List.length_map] using counted.sized
  counted := countsFresh fun c mem => by
    obtain ⟨old,-,rfl⟩ := List.mem_map.mp mem
    rfl

theorem markSuccessCounted (recorded : AdaptiveCounted ⟨(b.refreshLocked now).currentBucketLocked now fun c =>
      { c with requests := c.requests + 1,success := c.success + 1 },now,(now,true) :: log⟩) :
    AdaptiveCounted ⟨b.markSuccess now,now,
      if (b.refreshLocked now).state = .halfOpen then [] else (now,true) :: log⟩ := by
  unfold AdaptiveBreaker.markSuccess
  by_cases half : (b.refreshLocked now).state = .halfOpen
  · simp only [AdaptiveBreaker.currentBucketState,half]
    exact sameRing (adaptiveReset recorded now) rfl (Int.le_refl now)
  simp only [AdaptiveBreaker.currentBucketState,half]
  exact recorded

theorem markFailureCounted (recorded : AdaptiveCounted ⟨(b.refreshLocked now).currentBucketLocked now fun c =>
      { c with requests := c.requests + 1 },now,log⟩) : AdaptiveCounted ⟨b.markFailure now,now,log⟩ := by
  unfold AdaptiveBreaker.markFailure
  simp only
  split
  · exact sameRing recorded rfl (Int.le_refl now)
  exact recorded

theorem adaptiveStepCounted (count : AdaptiveCounted w)
    (plain : AdaptiveOrdinary w a) (ran : adaptiveStep w a = some u) : AdaptiveCounted u := by
  obtain ⟨d,act⟩ := a
  let now := w.now + d
  let fresh := w.breaker.refreshLocked now
  have old : w.now ≤ now := by omega
  have refreshed : AdaptiveCounted ⟨fresh,w.now,w.log⟩ :=
    sameRing count (refreshRing w.breaker now) (Int.le_refl w.now)
  have sided (recs : act = .success ∨ act = .failure) :
      OneSided (fresh.buckets.map Bucket.start) fresh.bucketSize fresh.window now := by
    obtain ⟨window,size,buckets⟩ : fresh.window = w.breaker.window ∧
        fresh.bucketSize = w.breaker.bucketSize ∧ fresh.buckets = w.breaker.buckets := by
      simpa [AdaptiveBreaker.ring] using refreshRing w.breaker now
    rw [window,size,buckets]
    exact plain recs
  cases ran
  cases act with
  | observe => exact sameRing count (refreshRing _ _) old
  | allow => exact sameRing count (allowRing _ _) old
  | enter => exact sameRing count (enterRing _ _) old
  | panic => exact sameRing count (releaseRing _) old
  | success =>
    have recorded : AdaptiveCounted ⟨fresh.currentBucketLocked now fun c =>
        { c with requests := c.requests + 1,success := c.success + 1 },now,(now,true) :: w.log⟩ :=
      adaptiveRecord old refreshed (sided (.inl rfl)) (fun _ => rfl) fun _ => rfl
    exact markSuccessCounted recorded
  | failure =>
    have recorded : AdaptiveCounted ⟨fresh.currentBucketLocked now fun c =>
        { c with requests := c.requests + 1 },now,(now,false) :: w.log⟩ :=
      adaptiveRecord old refreshed (sided (.inr rfl)) (fun _ => rfl) fun c => by
        simp [weigh]
    exact markFailureCounted recorded

structure AdaptiveBlank (b : AdaptiveBreaker) : Prop where
  wide : 0 < b.window
  slotted : 0 < b.buckets.length
  free : ∀ c ∈ b.buckets, c.start = 0

theorem adaptiveBlank {settings : List AdaptiveBreaker.Setting} (blank : AdaptiveBlank b) :
    AdaptiveBlank (settings.foldl AdaptiveBreaker.Setting.set b) := by
  induction settings generalizing b with
  | nil => exact blank
  | cons setting rest ih =>
    refine ih ?_
    cases setting <;> simp only [AdaptiveBreaker.Setting.set] <;> split <;> try exact blank
    · exact { blank with }
    · exact { blank with wide := by assumption }
    · exact ⟨blank.wide,by simpa using ‹_›,by simp [Bucket.zero]⟩
    exact { blank with }

theorem newAdaptiveBlank (below reaches : Int64 → Int64 → Bool) (settings : List AdaptiveBreaker.Setting) :
    let b := newAdaptive below reaches settings
    AdaptiveBlank b ∧ (0 < b.window.tdiv b.buckets.length → b.bucketSize = b.window.tdiv b.buckets.length) := by
  have blank : AdaptiveBlank (settings.foldl AdaptiveBreaker.Setting.set ⟨.closed,0,5 * second,
      10 * second,0,List.replicate 10 Bucket.zero,20,below,reaches,false⟩) :=
    adaptiveBlank ⟨show 0 < 10 * second by decide,by simp,by simp [Bucket.zero]⟩
  simp only [newAdaptive]
  generalize settings.foldl AdaptiveBreaker.Setting.set _ = b at blank ⊢
  have full : ¬ b.buckets.length = 0 := blank.slotted.ne'
  have wide : ¬ b.window ≤ 0 := Int.not_le.mpr blank.wide
  simp only [full,wide,if_false]
  split
  · exact ⟨{ blank with },fun big => absurd big (Int.not_lt.mpr ‹_›)⟩
  exact ⟨{ blank with },fun _ => rfl⟩

theorem newAdaptiveCounted (now) (whole : (newAdaptive below reaches settings).window %
      (newAdaptive below reaches settings).buckets.length = 0) :
    AdaptiveCounted ⟨newAdaptive below reaches settings,now,[]⟩ := by
  obtain ⟨blank,size⟩ := newAdaptiveBlank below reaches settings
  have sized := sizedWhole blank.wide blank.slotted whole
  exact ⟨size sized.positive ▸ sized,countsFresh blank.free⟩
end
section
open GoogleBreaker

inductive GoogleAct where
  | allow (accepted : Int64 → Int64 → Bool)
  | markSuccess
  | markFailure
  | snapshot

def googleStep (w : Recording GoogleBreaker) (a : Nat × GoogleAct) : Option (Recording GoogleBreaker) :=
  let now := w.now + a.1
  match a.2 with
  | .allow accepted => some ⟨(w.breaker.allow now accepted).1,now,(now,false) :: w.log⟩
  | .markSuccess => some ⟨w.breaker.markSuccess now,now,(now,true) :: w.log⟩
  | .markFailure => some ⟨w.breaker.markFailure,now,w.log⟩
  | .snapshot => some ⟨w.breaker,now,w.log⟩

def GoogleAct.records : GoogleAct → Bool
  | .allow _ => true
  | .markSuccess => true
  | _ => false

abbrev GoogleOrdinary (w : Recording GoogleBreaker) (a : Nat × GoogleAct) : Prop :=
  a.2.records = true →
    OneSided (w.breaker.buckets.map GoogleBucket.start) w.breaker.bucketSize w.breaker.window (w.now + a.1)

def GoogleExact (w : Recording GoogleBreaker) : Prop :=
  ∀ d : Nat,
    let events := w.inside w.breaker.bucketSize w.breaker.window (w.now + d)
    w.breaker.snapshotLocked (w.now + d) =
      (ofNat (events.countP (!·.2)),ofNat (events.countP (·.2)))

structure GoogleCounted (w : Recording GoogleBreaker) : Prop where
  sized : Sized w.breaker.window w.breaker.bucketSize w.breaker.buckets.length
  counted : Counts GoogleBucket.start (fun c => (c.requests,c.accepts)) (weigh not id)
    w.breaker.buckets w.breaker.bucketSize w.now w.log

theorem googleCountedExact (count : GoogleCounted w) : GoogleExact w := by
  intro d events
  have total := countsTotal count.sized.whole (show w.now ≤ w.now + d by omega) count.counted
  exact (foldTotal _ _ _ _ _).trans total


theorem googleRecord (old : now ≤ next) (counted : GoogleCounted ⟨b,now,log⟩)
    (plain : OneSided (b.buckets.map GoogleBucket.start) b.bucketSize b.window next)
    (kept : ∀ c, (change c).start = c.start)
    (added : ∀ c, ((change c).requests,(change c).accepts) = (c.requests,c.accepts) + weigh not id kind) :
    GoogleCounted ⟨b.currentBucketLocked next change,next,(next,kind) :: log⟩ where
  sized := by simpa only [GoogleBreaker.currentBucketLocked,List.length_modify] using counted.sized
  counted := countsRecord counted.sized.positive counted.sized.slotted counted.sized.whole old
    counted.counted plain rfl rfl kept added

theorem googleStepCounted (count : GoogleCounted w)
    (plain : GoogleOrdinary w a) (ran : googleStep w a = some u) : GoogleCounted u := by
  obtain ⟨d,act⟩ := a
  have old : w.now ≤ w.now + d := by omega
  cases act with
  | allow =>
    cases ran
    have recorded : GoogleCounted ⟨w.breaker.currentBucketLocked (w.now + d) fun c =>
        { c with requests := c.requests + 1 },w.now + d,(w.now + d,false) :: w.log⟩ :=
      googleRecord old count (plain rfl) (fun _ => rfl) fun c => by simp [weigh]
    exact recorded
  | markSuccess =>
    cases ran
    have recorded : GoogleCounted ⟨w.breaker.currentBucketLocked (w.now + d) fun c =>
        { c with accepts := c.accepts + 1 },w.now + d,(w.now + d,true) :: w.log⟩ :=
      googleRecord old count (plain rfl) (fun _ => rfl) fun c => by simp [weigh]
    exact recorded
  | markFailure | snapshot =>
    cases ran
    exact ⟨count.sized,countsLater old count.counted⟩

structure GoogleBlank (b : GoogleBreaker) : Prop where
  wide : 0 < b.window
  slotted : 0 < b.buckets.length
  free : ∀ c ∈ b.buckets, c.start = 0

theorem googleBlank {opts : List GoogleOption} (blank : GoogleBlank b) :
    GoogleBlank (opts.foldl GoogleOption.set b) := by
  induction opts generalizing b with
  | nil => exact blank
  | cons opt rest ih =>
    refine ih ?_
    cases opt <;> simp only [GoogleOption.set] <;> split <;> try exact blank
    · exact { blank with wide := by assumption }
    exact ⟨blank.wide,by simpa using ‹_›,by simp [GoogleBucket.zero]⟩

theorem newGoogleBlank (opts : List GoogleOption) :
    let b := newGoogle opts
    GoogleBlank b ∧ (0 < b.window.tdiv b.buckets.length → b.bucketSize = b.window.tdiv b.buckets.length) := by
  have blank : GoogleBlank (opts.foldl GoogleOption.set ⟨10 * second,0,List.replicate 10 GoogleBucket.zero⟩) :=
    googleBlank ⟨show 0 < 10 * second by decide,by simp,by simp [GoogleBucket.zero]⟩
  simp only [newGoogle]
  generalize opts.foldl GoogleOption.set _ = b at blank ⊢
  have full : ¬ b.buckets.length = 0 := blank.slotted.ne'
  have wide : ¬ b.window ≤ 0 := Int.not_le.mpr blank.wide
  simp only [full,wide,if_false]
  split
  · exact ⟨{ blank with },fun big => absurd big (Int.not_lt.mpr ‹_›)⟩
  exact ⟨{ blank with },fun _ => rfl⟩

theorem newGoogleCounted (now) (whole : (newGoogle opts).window % (newGoogle opts).buckets.length = 0) :
    GoogleCounted ⟨newGoogle opts,now,[]⟩ := by
  obtain ⟨blank,size⟩ := newGoogleBlank opts
  have sized := sizedWhole blank.wide blank.slotted whole
  exact ⟨size sized.positive ▸ sized,countsFresh blank.free⟩
end

open AdaptiveBreaker (newAdaptive) in
open GoogleBreaker (newGoogle GoogleOption) in
/-- Both breakers, from their constructors on, at times that never run backwards. -/
theorem ordinaryWindowsExact (below reaches : Int64 → Int64 → Bool)
    (settings : List AdaptiveBreaker.Setting) (opts : List GoogleOption) (first first' : Int)
    (whole : (newAdaptive below reaches settings).window % (newAdaptive below reaches settings).buckets.length = 0)
    (whole' : (newGoogle opts).window % (newGoogle opts).buckets.length = 0)
    {as : List (Nat × Act)} {bs : List (Nat × GoogleAct)} {w : Recording AdaptiveBreaker}
    {u : Recording GoogleBreaker}
    (h : Trace adaptiveStep AdaptiveOrdinary ⟨newAdaptive below reaches settings,first,[]⟩ as w)
    (h' : Trace googleStep GoogleOrdinary ⟨newGoogle opts,first',[]⟩ bs u) : AdaptiveExact w ∧ GoogleExact u :=
  ⟨adaptiveCountedExact (Transition.traceInvariant
      (fun _ _ _ counted ordinary moved => adaptiveStepCounted counted ordinary moved) h
      (newAdaptiveCounted first whole)),
    googleCountedExact (Transition.traceInvariant
      (fun _ _ _ counted ordinary moved => googleStepCounted counted ordinary moved) h'
      (newGoogleCounted first' whole'))⟩

def patient : AdaptiveBreaker := AdaptiveBreaker.newAdaptive (fun _ _ => true) (fun _ _ => false) []
def secondNs : Nat := 1000000000
def began : Int := unixEpoch + 1704067200 * second
def outcomes : List (Nat × Act) := [(0,.failure),(2 * secondNs,.success)]

def requests : List (Nat × GoogleAct) :=
  [(0,.allow fun _ _ => true),(2 * secondNs,.allow fun _ _ => true),(0,.markSuccess)]

theorem recentWindowsExact : ∃ w u,
    Trace adaptiveStep AdaptiveOrdinary ⟨patient,began,[]⟩ outcomes w ∧
    Trace googleStep GoogleOrdinary ⟨GoogleBreaker.newGoogle [],began,[]⟩ requests u ∧
    w.breaker.snapshotLocked w.now = (2,1) ∧ u.breaker.snapshotLocked u.now = (2,1) ∧
    AdaptiveExact w ∧ GoogleExact u := by
  have ok : accepts adaptiveStep AdaptiveOrdinary ⟨patient,began,[]⟩ outcomes = true := by decide +kernel
  have ok' : accepts googleStep GoogleOrdinary
      ⟨GoogleBreaker.newGoogle [],began,[]⟩ requests = true := by decide +kernel
  have totals : (run adaptiveStep ⟨patient,began,[]⟩ outcomes).map (fun w => w.breaker.snapshotLocked w.now) = some (2,1) := by decide +kernel
  have totals' : (run googleStep
      ⟨GoogleBreaker.newGoogle [],began,[]⟩ requests).map
        (fun u => u.breaker.snapshotLocked u.now) = some (2,1) := by decide +kernel
  obtain ⟨w,ran,trace⟩ := acceptedTrace ok
  obtain ⟨u,ran',trace'⟩ := acceptedTrace ok'
  rw [ran] at totals
  rw [ran'] at totals'
  exact ⟨w,u,trace,trace',Option.some.inj totals,Option.some.inj totals',
    ordinaryWindowsExact _ _ [] [] _ _ (by decide) (by decide) trace trace'⟩

theorem epochLosesEvents :
    (¬ ∀ as w, Trace adaptiveStep Free ⟨patient,unixEpoch - second,[]⟩ as w → AdaptiveExact w) ∧
      ¬ ∀ bs u, Trace googleStep Free ⟨GoogleBreaker.newGoogle [],unixEpoch - second,[]⟩ bs u → GoogleExact u := by
  constructor
  · intro everyRun
    have lost : (run adaptiveStep ⟨patient,unixEpoch - second,[]⟩ outcomes).any (fun w =>
        decide (w.breaker.snapshotLocked (w.now + (0 : Nat)) = (1,1) ∧
          (w.inside w.breaker.bucketSize w.breaker.window (w.now + (0 : Nat))).length = 2)) = true := by
      decide +kernel
    obtain ⟨w,ran,met⟩ := (Option.any_eq_true _ _).mp lost
    obtain ⟨total,events⟩ := of_decide_eq_true met
    have exactly := everyRun outcomes w (runFree ran) 0
    rw [total] at exactly
    simp only [events] at exactly
    exact absurd (Prod.mk.inj exactly).1 (by decide)
  intro everyRun
  have lost : (run googleStep ⟨GoogleBreaker.newGoogle [],unixEpoch - second,[]⟩ requests).any (fun u =>
        decide (u.breaker.snapshotLocked (u.now + (0 : Nat)) = (1,1) ∧
          (u.inside u.breaker.bucketSize u.breaker.window (u.now + (0 : Nat))).countP (!·.2) = 2)) =
      true := by decide +kernel
  obtain ⟨u,ran,met⟩ := (Option.any_eq_true _ _).mp lost
  obtain ⟨total,events⟩ := of_decide_eq_true met
  have exactly := everyRun requests u (runFree ran) 0
  rw [total] at exactly
  simp only [events] at exactly
  exact absurd (Prod.mk.inj exactly).1 (by decide)

end Gofly.CoreBreaker
