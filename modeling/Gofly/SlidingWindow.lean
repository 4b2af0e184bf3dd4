import Mathlib.Algebra.Order.BigOperators.Group.List
import Gofly.BreakerWindows
/-! The sliding-window limiter of core/limit, with its sums in int64. -/
namespace Gofly.SlidingWindow
open BucketRing
open CoreBreaker
open CoreBreaker.AdaptiveBreaker
open Transition

structure SwBucket where
  start : Int
  count : Int
  deriving DecidableEq

structure SlidingWindowLimiter where
  quota : Int
  window : Int
  bucketSize : Int
  buckets : List SwBucket
  deriving DecidableEq

def newSlidingWindow (quota window buckets : Int) : SlidingWindowLimiter :=
  let quota := if quota ≤ 0 then 1 else quota
  let window := if window ≤ 0 then second else window
  let buckets := if buckets ≤ 0 then 10 else buckets
  let bucketSize := window.tdiv buckets
  if bucketSize ≤ 0 then
    let buckets := window.tdiv 1
    let buckets := if buckets ≤ 0 then 1 else buckets
    ⟨quota,window,1,List.replicate buckets.toNat ⟨0,0⟩⟩
  else ⟨quota,window,bucketSize,List.replicate buckets.toNat ⟨0,0⟩⟩

def wrap (x : Int) : Int := x.bmod (2 ^ 64)

namespace SlidingWindowLimiter

def countLocked (l : SlidingWindowLimiter) (now : Int) : Int :=
  l.buckets.foldl (fun total b => if b.start = 0 ∨ l.window ≤ now - b.start then total else wrap (total + b.count)) 0

def bucketAt (l : SlidingWindowLimiter) (now : Int) : SlidingWindowLimiter × Nat :=
  let start := bucketStart l.bucketSize now
  let idx := place 0 l.bucketSize l.buckets.length (wrap (start - unixEpoch))
  ({ l with buckets := l.buckets.modify idx fun b => if b.start ≠ start then ⟨start,0⟩ else b },idx)

def amount (n : Int) : Int := if n ≤ 0 then 1 else n

def allowN (l : SlidingWindowLimiter) (n now : Int) : SlidingWindowLimiter × Bool :=
  let found := l.bucketAt now
  if l.quota < wrap (found.1.countLocked now + amount n) then (found.1,false)
  else ({ l with buckets := found.1.buckets.modify found.2 fun b => { b with count := wrap (b.count + amount n) } },true)

/-- The buckets in the window, summed in exact integers. -/
def counted (l : SlidingWindowLimiter) (now : Int) : Int :=
  (l.buckets.map fun b => if b.start = 0 ∨ l.window ≤ now - b.start then 0 else b.count).sum

abbrev Fits (l : SlidingWindowLimiter) (n now : Int) : Prop :=
  (l.bucketAt now).1.counted now + amount n < 2 ^ 63 ∧
    ∀ b ∈ (l.bucketAt now).1.buckets[(l.bucketAt now).2]?, b.count + amount n < 2 ^ 63

def Filled (l : SlidingWindowLimiter) : Prop := ∀ b ∈ l.buckets, 0 ≤ b.count
end SlidingWindowLimiter

open SlidingWindowLimiter

variable {l : SlidingWindowLimiter}
theorem wrapExact (low : 0 ≤ x) (high : x < 2 ^ 63) : wrap x = x := by refine Int.bmod_eq_of_le ?_ ?_ <;> omega

theorem countWraps (l : SlidingWindowLimiter) (now) : l.countLocked now = wrap (l.counted now) := by
  have fold (list : List SwBucket) (sum : Int) : list.foldl (fun total b =>
      if b.start = 0 ∨ l.window ≤ now - b.start then total else wrap (total + b.count)) (wrap sum) =
      wrap (sum + (list.map fun b => if b.start = 0 ∨ l.window ≤ now - b.start then 0 else b.count).sum) := by
    induction list generalizing sum with
    | nil => simp
    | cons b rest ih =>
      simp only [List.foldl_cons,List.map_cons,List.sum_cons]
      split
      · rw [ih,zero_add]
      rw [wrap,wrap,Int.bmod_add_bmod,← wrap,ih,add_assoc]
  have whole := fold l.buckets 0
  rwa [zero_add] at whole

theorem countedFilled (full : l.Filled) (now) : 0 ≤ l.counted now := by
  refine List.sum_nonneg fun x mem => ?_
  obtain ⟨b,inside,rfl⟩ := List.mem_map.mp mem
  split
  · exact le_refl 0
  exact full b inside

theorem amountPositive (n) : 0 < amount n ∧ n ≤ amount n := by
  unfold amount
  split <;> omega

theorem recycledFilled (full : l.Filled) (now) : (l.bucketAt now).1.Filled := by
  intro b mem
  obtain ⟨j,seen⟩ := List.getElem?_of_mem mem
  obtain ⟨old,got,rfl⟩ := Roster.modifySeen seen
  have before := full old (List.mem_of_getElem? got)
  split_ifs <;> simp_all

/-- Where the sums fit, the test is the one on exact integers. -/
theorem allowExact (full : l.Filled) (fits : l.Fits n now) :
    (l.bucketAt now).1.countLocked now = (l.bucketAt now).1.counted now ∧
      ((l.allowN n now).2 = true ↔ (l.bucketAt now).1.counted now + amount n ≤ l.quota) := by
  have low := countedFilled (recycledFilled full now) now
  have pos := amountPositive n
  have exact_ : (l.bucketAt now).1.countLocked now = (l.bucketAt now).1.counted now := by
    rw [countWraps,wrapExact low (by omega)]
  simp only [allowN]
  rw [wrapExact (by omega) (by omega)]
  split <;> simp <;> omega

def grow (n : Int) (b : SwBucket) : SwBucket := { b with count := b.count + amount n }

theorem allowGrows (full : l.Filled) (fits : l.Fits n now) : (l.allowN n now).1.buckets =
    (l.bucketAt now).1.buckets.modify (l.bucketAt now).2 fun b => if (l.allowN n now).2 then grow n b else b := by
  simp only [allowN]
  split
  · exact (List.modify_id ..).symm
  refine List.ext_getElem? fun j => ?_
  simp only [List.getElem?_modify]
  by_cases here : (l.bucketAt now).2 = j
  · subst here
    cases got : (l.bucketAt now).1.buckets[(l.bucketAt now).2]? with
    | none => rfl
    | some b =>
      have low := recycledFilled full now b (List.mem_of_getElem? got)
      have pos := amountPositive n
      simp [grow,wrapExact (by omega) (fits.2 b got)]
  simp [here]

theorem allowFilled (full : l.Filled) (fits : l.Fits n now) : (l.allowN n now).1.Filled := by
  intro b mem
  rw [allowGrows full fits] at mem
  obtain ⟨j,seen⟩ := List.getElem?_of_mem mem
  obtain ⟨old,got,rfl⟩ := Roster.modifySeen seen
  have low := recycledFilled full now old (List.mem_of_getElem? got)
  have grown : 0 ≤ (grow n old).count := add_nonneg low (amountPositive n).1.le
  split_ifs <;> assumption

theorem newSized (quota window buckets) : ∃ n : Nat,
    (newSlidingWindow quota window buckets).buckets = List.replicate n ⟨0,0⟩ ∧ 0 < n ∧
    0 < (newSlidingWindow quota window buckets).bucketSize ∧ 0 ≤ (newSlidingWindow quota window buckets).quota ∧
    n * (newSlidingWindow quota window buckets).bucketSize ≤ (newSlidingWindow quota window buckets).window := by
  simp only [newSlidingWindow]
  have some : 0 ≤ if quota ≤ 0 then 1 else quota := by split <;> omega
  have long : 0 < if window ≤ 0 then second else window := by
    split
    · decide
    omega
  have many : 0 < if buckets ≤ 0 then 10 else buckets := by split <;> omega
  generalize (if window ≤ 0 then second else window) = window at long ⊢
  generalize (if buckets ≤ 0 then 10 else buckets) = buckets at many ⊢
  split
  · rw [Int.tdiv_one]
    exact ⟨_,rfl,by omega,one_pos,some,by simp only; omega⟩
  refine ⟨_,rfl,by omega,by simp only; omega,some,?_⟩
  rw [Int.toNat_of_nonneg many.le,Int.tdiv_eq_ediv_of_nonneg long.le]
  exact Int.mul_ediv_self_le many.ne'

theorem newFilled (quota window buckets) : (newSlidingWindow quota window buckets).Filled := by
  obtain ⟨n,fresh,_⟩ := newSized quota window buckets
  intro b mem
  rw [fresh] at mem
  cases List.eq_of_mem_replicate mem
  exact le_refl 0

structure World where
  limiter : SlidingWindowLimiter
  now : Int
  -- The time of each call and what it was admitted.
  calls : List (Int × Int)
  deriving DecidableEq

/-- One AllowN call: the time that the clock shows, and the argument. -/
def step (w : World) (a : Int × Int) : Option World :=
  let done := w.limiter.allowN a.2 a.1
  some ⟨done.1,a.1,(a.1,if done.2 then amount a.2 else 0) :: w.calls⟩

abbrev Fitting (w : World) (a : Int × Int) : Prop := w.limiter.Fits a.2 a.1

theorem stepFilled (w a next) (full : w.limiter.Filled) (fits : Fitting w a)
    (ran : step w a = some next) : next.limiter.Filled := by
  cases ran
  exact allowFilled full fits

/-- No call is admitted beyond the rest of the quota, and no count is negative. -/
abbrev Safe (l : SlidingWindowLimiter) (n now : Int) : Prop :=
  ((l.allowN n now).2 = true → n ≤ l.quota - (l.bucketAt now).1.counted now) ∧
    (∀ b ∈ (l.allowN n now).1.buckets, 0 ≤ b.count) ∧ 0 ≤ (l.bucketAt now).1.countLocked now

theorem extremeSafe (quota window buckets began : Int)
    (ran : Trace step Fitting ⟨newSlidingWindow quota window buckets,began,[]⟩ as w) :
    (∀ n now, w.limiter.Fits n now → Safe w.limiter n now) ∧
      ∀ now, w.limiter.counted now < 2 ^ 63 → 0 ≤ w.limiter.countLocked now := by
  have filled : w.limiter.Filled :=
    traceInvariant (P := fun w => w.limiter.Filled) stepFilled ran (newFilled quota window buckets)
  refine ⟨fun n now fits => ?_,fun now fits => ?_⟩
  · obtain ⟨total,admits⟩ := allowExact filled fits
    refine ⟨fun admitted => ?_,allowFilled filled fits,?_⟩
    · have within := admits.mp admitted
      have enough := (amountPositive n).2
      omega
    rw [total]
    exact countedFilled (recycledFilled filled now) now
  have low := countedFilled filled now
  rwa [countWraps,wrapExact low fits]

/-- With one event in the window the sum for `2 ^ 63 - 1` more is negative. -/
theorem wrappedAdmitted : (run step ⟨newSlidingWindow 1 second 10,second,[]⟩ [(second,1)]).any (fun w =>
    !decide (Safe w.limiter (2 ^ 63 - 1) second)) = true := by decide +kernel

theorem secondSafe : ∃ w, Trace step Fitting ⟨newSlidingWindow 1 second 10,second,[]⟩ [(second,1)] w ∧
    Safe w.limiter 1 second := by
  obtain ⟨w,ran,trace⟩ := acceptedTrace
    (show accepts step Fitting ⟨newSlidingWindow 1 second 10,second,[]⟩ [(second,1)] = true by decide +kernel)
  refine ⟨w,trace,(extremeSafe 1 second 10 second trace).1 1 second ?_⟩
  cases ran
  decide +kernel

def slot (b : SwBucket) : Slot Int := ⟨if b.start = 0 then none else some b.start,b.count⟩
def span (l : SlidingWindowLimiter) : Int := l.buckets.length * l.bucketSize

theorem weightBelow {log : List (Int × Int)} {p q : Int → Bool} (amounts : ∀ e ∈ log, 0 ≤ e.2)
    (within : ∀ t, p t = true → q t = true) : weight log p ≤ weight log q := by
  induction log with
  | nil => exact le_refl _
  | cons e rest ih =>
    rw [weightCons,weightCons]
    split_ifs <;> simp_all; omega

theorem totalBelow (full : l.Filled) (wide : size ≤ l.window) (now) :
    total (live size now) (l.buckets.map slot) ≤ l.counted now := by
  unfold total counted
  rw [List.map_map]
  refine List.sum_le_sum fun b mem => ?_
  have low := full b mem
  by_cases zero : b.start = 0
  · simp [slot,zero]
  simp only [Function.comp,slot,zero,if_false,Option.any_some,live,decide_eq_true_eq,false_or]
  split_ifs <;> omega

abbrev Sided (l : SlidingWindowLimiter) (now : Int) : Prop :=
  OneSided (l.buckets.map SwBucket.start) l.bucketSize l.window now

def filed (l : SlidingWindowLimiter) (now x : Int) : List (Slot Int) :=
  record (place unixEpoch l.bucketSize l.buckets.length (bucketStart l.bucketSize now)) (bucketStart l.bucketSize now) x
    (l.buckets.map slot)

theorem seatExact (sided : Sided l now) :
    (l.bucketAt now).2 = place unixEpoch l.bucketSize l.buckets.length (bucketStart l.bucketSize now) := by
  obtain ⟨⟨low,high⟩,-⟩ := sided
  have exact_ : wrap (bucketStart l.bucketSize now - unixEpoch) = bucketStart l.bucketSize now - unixEpoch := by
    refine Int.bmod_eq_of_le ?_ ?_ <;> omega
  simp only [bucketAt,exact_,place,sub_zero]

theorem recycledFiled (sided : Sided l now) : (l.bucketAt now).1.buckets.map slot = filed l now 0 := by
  have nonzero := oneSidedNonzero sided
  rw [filed,← seatExact sided]
  refine modifyRecords _ _ fun b => ?_
  by_cases eq : b.start = bucketStart l.bucketSize now <;> simp [slot,eq,nonzero]

theorem allowFiled (sided : Sided l now) (full : l.Filled) (fits : l.Fits n now) :
    (l.allowN n now).1.buckets.map slot = filed l now (if (l.allowN n now).2 then amount n else 0) := by
  have nonzero := oneSidedNonzero sided
  rw [allowGrows full fits]
  split
  · rw [filed,← seatExact sided]
    simp only [bucketAt,List.modify_modify_eq]
    refine modifyRecords _ _ fun b => ?_
    by_cases eq : b.start = bucketStart l.bucketSize now <;> simp [slot,grow,eq,nonzero]
  rw [← recycledFiled sided]
  exact congrArg _ (List.modify_id ..)

def during (l : SlidingWindowLimiter) (t u : Int) : Bool := t ≤ u ∧ u ≤ t + (l.buckets.length - 1) * l.bucketSize

/-- What was admitted in each interval of `(b - 1) * bucketSize` is within the quota. -/
def Bounded (w : World) : Prop := ∀ t, weight w.calls (during w.limiter t) ≤ w.limiter.quota

/-- A rejected call does not raise what is counted at any time. -/
def Unspent (l : SlidingWindowLimiter) : Prop :=
  ∀ n now, (l.allowN n now).2 = false → ∀ u, (l.allowN n now).1.counted u ≤ l.counted u

structure Held (w : World) : Prop where
  positive : 0 < w.limiter.bucketSize
  slotted : 0 < w.limiter.buckets.length
  wide : span w.limiter ≤ w.limiter.window
  filled : w.limiter.Filled
  amounts : ∀ e ∈ w.calls, 0 ≤ e.2
  windowed : Windowed unixEpoch w.limiter.bucketSize w.limiter.buckets.length w.now (w.limiter.buckets.map slot) w.calls
  bounded : Bounded w

abbrev Ordinary (w : World) (a : Int × Int) : Prop := w.now ≤ a.1 ∧ w.limiter.Fits a.2 a.1 ∧ Sided w.limiter a.1

theorem windowedFiled (held : Held w) (plain : Ordinary w a) (x) : Windowed unixEpoch w.limiter.bucketSize
    w.limiter.buckets.length a.1 (filed w.limiter a.1 x) ((a.1,x) :: w.calls) := by
  refine windowedRecord held.positive held.slotted plain.1 held.windowed x fun s mem t begun alive => ?_
  obtain ⟨b,inside,rfl⟩ := List.mem_map.mp mem
  have wide := held.wide
  simp only [slot] at begun
  split at begun <;> cases begun
  simp only [live,decide_eq_true_eq] at alive
  exact plain.2.2.2 _ (List.mem_map_of_mem inside) ‹_› (alive.trans_le wide)

/-- The total that an admission sees covers the interval that ends with it. -/
theorem admittedBelow (held : Held w) (plain : Ordinary w a) (near : during w.limiter t a.1 = true) :
    weight w.calls (during w.limiter t) ≤ (w.limiter.bucketAt a.1).1.counted a.1 := by
  have windowed := windowedFiled held plain 0
  rw [← recycledFiled plain.2.2] at windowed
  let alive (u : Int) := live (span w.limiter) a.1 (bucketStart w.limiter.bucketSize u)
  have seen : _ = weight ((a.1,0) :: w.calls) alive := windowedTotal windowed
  rw [weightCons,ite_self,zero_add] at seen
  have below : weight w.calls (during w.limiter t) ≤ weight w.calls alive := by
    refine weightBelow held.amounts fun u mem => decide_eq_true ?_
    have above := (startBelow held.positive u).2
    simp only [during,decide_eq_true_eq] at mem near
    rw [span]
    nlinarith
  exact (below.trans_eq seen.symm).trans (totalBelow (recycledFilled held.filled a.1) held.wide a.1)

theorem allowKept (l : SlidingWindowLimiter) (n now) : (l.allowN n now).1.quota = l.quota ∧
    (l.allowN n now).1.window = l.window ∧ (l.allowN n now).1.bucketSize = l.bucketSize ∧
    (l.allowN n now).1.buckets.length = l.buckets.length := by
  simp only [allowN]
  split <;> simp [bucketAt]

theorem stepHeld (w a next) (held : Held w) (plain : Ordinary w a) (ran : step w a = some next) : Held next := by
  cases ran
  obtain ⟨quota,window,size,seats⟩ := allowKept w.limiter a.2 a.1
  have windowed := windowedFiled held plain (if (w.limiter.allowN a.2 a.1).2 then amount a.2 else 0)
  rw [← allowFiled plain.2.2 held.filled plain.2.1] at windowed
  refine ⟨size ▸ held.positive,seats ▸ held.slotted,?_,allowFilled held.filled plain.2.1,
    List.forall_mem_cons.mpr ⟨?_,held.amounts⟩,by simpa only [size,seats] using windowed,fun t => ?_⟩
  · simpa only [span,size,seats,window] using held.wide
  · have pos := amountPositive a.2
    split <;> omega
  have old := held.bounded t
  have eq : during (w.limiter.allowN a.2 a.1).1 t = during w.limiter t := by
    funext u
    simp only [during,size,seats]
  rw [weightCons,eq,quota]
  split_ifs with admitted here
  · have below := admittedBelow held plain here
    have within := (allowExact held.filled plain.2.1).2.mp admitted
    omega
  all_goals rwa [zero_add]

theorem newHeld (quota window buckets began) : Held ⟨newSlidingWindow quota window buckets,began,[]⟩ := by
  obtain ⟨n,fresh,slotted,pos,some,wide⟩ := newSized quota window buckets
  have seats : (newSlidingWindow quota window buckets).buckets.length = n := by rw [fresh,List.length_replicate]
  refine ⟨pos,seats ▸ slotted,by simpa only [span,seats] using wide,newFilled _ _ _,nofun,?_,fun _ => some⟩
  refine windowedFresh (fun s mem => ?_) (List.length_map _)
  simp only [fresh,List.map_replicate] at mem
  rw [List.eq_of_mem_replicate mem]
  rfl

theorem modifyBelow {list : List SwBucket} {f : SwBucket → Int} (below : ∀ b ∈ list, f (g b) ≤ f b) :
    ((list.modify i g).map f).sum ≤ (list.map f).sum := by
  induction list generalizing i with
  | nil => simp
  | cons b rest ih =>
    obtain ⟨here,later⟩ := List.forall_mem_cons.mp below
    cases i with
    | zero => simpa using here
    | succ i => simpa using ih later

theorem filledUnspent (full : l.Filled) : Unspent l := by
  intro n now rejected u
  have eq : (l.allowN n now).1 = (l.bucketAt now).1 := by
    simp only [allowN] at rejected ⊢
    split at rejected <;> simp_all
  rw [eq]
  refine modifyBelow fun b mem => ?_
  have low := full b mem
  split_ifs <;> simp_all

theorem slidingBounded (quota window buckets began : Int)
    (ran : Trace step Ordinary ⟨newSlidingWindow quota window buckets,began,[]⟩ as w) :
    Bounded w ∧ Unspent w.limiter := by
  have held : Held w := traceInvariant stepHeld ran (newHeld quota window buckets began)
  exact ⟨held.bounded,filledUnspent held.filled⟩

/-- The seconds before and after the first one since the Unix epoch share a seat. -/
theorem epochForgets : (run step ⟨newSlidingWindow 1 (3 * second) 3,unixEpoch - second,[]⟩
    [(unixEpoch - second,1),(unixEpoch + second,1)]).any (fun w =>
      decide (w.limiter.quota < weight w.calls (during w.limiter (unixEpoch - second)))) = true := by decide +kernel

theorem threeSeconds : ∃ w, Trace step Ordinary ⟨newSlidingWindow 1 (3 * second) 3,unixEpoch,[]⟩
    [(unixEpoch,1),(unixEpoch + second,1)] w ∧ Bounded w ∧ Unspent w.limiter := by
  obtain ⟨w,-,trace⟩ := acceptedTrace (show accepts step Ordinary
    ⟨newSlidingWindow 1 (3 * second) 3,unixEpoch,[]⟩ [(unixEpoch,1),(unixEpoch + second,1)] = true by decide +kernel)
  exact ⟨w,trace,slidingBounded 1 (3 * second) 3 unixEpoch trace⟩

end Gofly.SlidingWindow
