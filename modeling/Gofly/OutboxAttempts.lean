import Mathlib.Algebra.Order.Ring.Int
import Gofly.OutboxLease
/-! What failed attempts lead to: the delay before the next one, which the retry package computes
in its own way, and the dead letter after the last. -/
namespace Gofly.OutboxAttempts
open Transition Weights Outbox OutboxRelay OutboxLease

/-- No delay that is doubled on its way to the cap overflows, nor does the first one ever. -/
def Doubles (c : RelayConfig) : Prop :=
  ∀ k, k = 0 ∨ c.baseBackoff * 2 ^ k < c.maxBackoff → c.baseBackoff * 2 ^ (k + 1) < 2 ^ 63

section
variable {cap delay : Int}

theorem doubledFirst (delay : Int) (n) : delay * 2 ^ (n + 1) = delay * 2 * 2 ^ n := by
  rw [Int.pow_succ,Int.mul_comm (2 ^ n),Int.mul_assoc]

theorem doubledLast (delay : Int) (n) : delay * 2 ^ (n + 1) = delay * 2 ^ n * 2 := by
  rw [Int.pow_succ,Int.mul_assoc]

section
variable (pos : 0 < delay)
include pos

theorem doubledLater (less : k ≤ m) : delay * 2 ^ k ≤ delay * 2 ^ m :=
  Int.mul_le_mul_of_nonneg_left (pow_le_pow_right₀ (by decide) less) pos.le

theorem doubledGrows (n) : delay ≤ delay * 2 ^ n := by simpa using doubledLater pos (Nat.zero_le n)

theorem doubledExact (fits : delay * 2 < 2 ^ 63) : (delay * 2).bmod 18446744073709551616 = delay * 2 := by
  refine Int.bmod_eq_of_le ?_ ?_ <;> omega

theorem backoffLoopExact (fits : ∀ k, k = 0 ∨ delay * 2 ^ k < cap → delay * 2 ^ (k + 1) < 2 ^ 63) :
    backoffLoop cap n delay = min (delay * 2 ^ n) cap := by
  induction n generalizing delay with
  | zero =>
    rw [backoffLoop]
    split <;> omega
  | succ n ih =>
    have first := doubledExact pos (by simpa using fits 0 (.inl rfl))
    simp only [backoffLoop,first,doubledFirst]
    split
    · have grows := doubledGrows (show 0 < delay * 2 by omega) n
      omega
    rename_i below
    refine ih (by omega) fun k met => ?_
    rw [← doubledFirst]
    refine fits (k + 1) (.inr ?_)
    rw [doubledFirst]
    rcases met with rfl | less
    · simpa using below
    exact less

theorem backoffLoopReaches (small : cap < 2 ^ 63) (below : k = 0 ∨ delay * 2 ^ k < cap) :
    backoffLoop cap (k + m) delay = backoffLoop cap m (delay * 2 ^ k) := by
  induction k generalizing delay with
  | zero => simp
  | succ k ih =>
    have less : delay * 2 * 2 ^ k < cap := by simpa [doubledFirst] using below
    have grows := doubledGrows (show 0 < delay * 2 by omega) k
    have first := doubledExact pos (by omega)
    rw [Nat.add_right_comm,backoffLoop,first,if_neg (by omega),ih (by omega) (.inr less),doubledFirst]

theorem overflowNegative (small : cap < 2 ^ 63) (wide : delay < 2 ^ 63) (capped : 0 < cap)
    (below : k = 0 ∨ delay * 2 ^ k < cap) (overflows : 2 ^ 63 ≤ delay * 2 ^ (k + 1)) :
    backoffLoop cap (k + 1) delay < 0 := by
  have met : delay * 2 ^ k < 2 ^ 63 := by
    rcases below with rfl | less
    · simpa using wide
    omega
  have wraps : (delay * 2 ^ k * 2).bmod 18446744073709551616 < 0 := by
    rw [doubledLast] at overflows
    rw [Int.bmod_def]
    split <;> omega
  rw [backoffLoopReaches pos small below]
  simp only [backoffLoop]
  rw [if_neg (by omega),if_neg (by omega)]
  exact wraps
end
end

/-- The delays are what exact integers give, in every attempt, exactly if no doubling overflows. -/
theorem backoffExact (c : RelayConfig) (base : c.baseBackoff < 2 ^ 63) (most : c.maxBackoff < 2 ^ 63) :
    (∀ n ≥ 1, 0 < backoff (withDefaults c) n ∧ backoff (withDefaults c) n ≤ (withDefaults c).maxBackoff ∧
      backoff (withDefaults c) n ≤ backoff (withDefaults c) (n + 1) ∧
      backoff (withDefaults c) n = min ((withDefaults c).baseBackoff * 2 ^ (n - 1)) (withDefaults c).maxBackoff) ↔
    Doubles (withDefaults c) := by
  have positive : 0 < (withDefaults c).baseBackoff ∧ (withDefaults c).baseBackoff < 2 ^ 63 := by
    simp only [withDefaults]
    split <;> omega
  have capped : 0 < (withDefaults c).maxBackoff ∧ (withDefaults c).maxBackoff < 2 ^ 63 := by
    simp only [withDefaults]
    split <;> omega
  constructor
  · intro exact k below
    by_contra overflows
    have negative := overflowNegative positive.1 capped.2 positive.2 capped.1 below (by omega)
    have lasts := (exact (k + 2) (by omega)).1
    exact absurd lasts (Int.not_lt.mpr negative.le)
  rintro fits (_ | n) first
  · contradiction
  have value (n : Nat) : backoff (withDefaults c) (n + 1) = _ := backoffLoopExact (n := n) positive.1 fits
  have grows := doubledGrows positive.1 n
  rw [value,value,Nat.add_sub_cancel,doubledLast]
  omega

theorem overflowingBackoff : backoff (withDefaults ⟨0,0,0,0,2 ^ 62,2 ^ 62 + 1⟩) 2 = -2 ^ 63 := by decide

theorem secondsDouble : backoff (withDefaults ⟨0,0,0,0,0,0⟩) 3 = min (1000000000 * 2 ^ 2) 60000000000 := by
  refine (((backoffExact ⟨0,0,0,0,0,0⟩ (by decide) (by decide)).mpr fun k below => ?_) 3 (by decide)).2.2.2
  have reached : (1000000000 : Int) * 2 ^ k < 60000000000 := by
    rcases below with rfl | less
    · decide
    exact less
  have next : (withDefaults ⟨0,0,0,0,0,0⟩).baseBackoff * 2 ^ (k + 1) = 1000000000 * 2 ^ k * 2 := doubledLast ..
  omega

-- the delay of the retry package, which takes the power in one shift
def exponentialBackoff (base max attempt : Int) : Int :=
  if base ≤ 0 then 0
  else
    let attempt := if attempt ≤ 0 then 1 else attempt
    let attempt := if 62 < attempt then 62 else attempt
    let d := (base * 2 ^ (attempt - 1).toNat).bmod 18446744073709551616
    if d < 0 ∨ 0 < max ∧ max < d then max else d

/-- The doubled delay is an int64, or what its low 64 bits read is not below the cap. -/
def Doublable (base max : Int) (k : Nat) : Prop :=
  base * 2 ^ k < 2 ^ 63 ∨ max ≤ base * 2 ^ k % 2 ^ 64

theorem shiftedExact (pos : 0 < base) (capped : 0 < cap) (small : cap < 2 ^ 63) (some : 1 ≤ n) :
    exponentialBackoff base cap n = min (base * 2 ^ (min n 62 - 1).toNat) cap ↔
      Doublable base cap (min n 62 - 1).toNat := by
  have clamped : (if 62 < (if n ≤ 0 then 1 else n) then 62 else if n ≤ 0 then 1 else n) = min n 62 := by omega
  have grows := doubledGrows pos (min n 62 - 1).toNat
  simp only [exponentialBackoff,clamped,Doublable,Int.bmod_def]
  rw [if_neg (by omega)]
  split <;> split <;> omega

theorem exponentialExact (base cap : Int) (positive : 0 < base ∧ base < 2 ^ 63) (capped : 0 < cap ∧ cap < 2 ^ 63) :
    (∀ n, 1 ≤ n → exponentialBackoff base cap n = min (base * 2 ^ (min n 62 - 1).toNat) cap) ∧
        (∀ m n, 1 ≤ m → m ≤ n → exponentialBackoff base cap m ≤ exponentialBackoff base cap n) ∧
        (∀ n, 1 ≤ n → 0 < exponentialBackoff base cap n) ↔ ∀ k, k ≤ 61 → Doublable base cap k := by
  constructor
  · rintro ⟨equal,-⟩ k within
    have here := (shiftedExact positive.1 capped.1 capped.2 (by omega)).mp (equal (k + 1) (by omega))
    rwa [show (min (k + 1 : Int) 62 - 1).toNat = k by omega] at here
  intro doublable
  have equal n (some : 1 ≤ n) := (shiftedExact positive.1 capped.1 capped.2 some).mpr (doublable _ (by omega))
  refine ⟨equal,fun m n some later => ?_,fun n some => ?_⟩
  · have grows := doubledLater positive.1 (show (min m 62 - 1).toNat ≤ (min n 62 - 1).toNat by omega)
    rw [equal m some,equal n (by omega)]
    omega
  have grows := doubledGrows positive.1 (min n 62 - 1).toNat
  rw [equal n some]
  omega

theorem secondLost : exponentialBackoff 1000000000 60000000000 56 = 0 := by decide

theorem nanosecondDoubles : exponentialBackoff 1 60000000000 40 = 60000000000 := by
  have doublable k (within : k ≤ 61) : Doublable 1 60000000000 k := by
    have grows := doubledLater (show (0 : Int) < 1 by decide) within
    exact .inl (grows.trans_lt (by decide))
  exact ((exponentialExact 1 60000000000 (by decide) (by decide)).mpr doublable).1 40 (by decide)

/-- The relays, with the ids of the Publish calls that returned an error. -/
structure Audit (σ : Type) where
  world : World σ
  failed : List String

section
variable {σ : Type} (store : Store σ) (view : σ → String → Option View)

def failing (w : World σ) : Act → List String
  | .publish i (some _) => (w.workers[i]?.bind fun worker => worker.tasks.head?).toList.map fun task => task.record.id
  | _ => []

def auditStep (w : Audit σ) (a : Act) : Option (Audit σ) :=
  (step store w.world a).map fun next => ⟨next,failing w.world a ++ w.failed⟩

/-- A record is claimed only when each of its claims so far has led to a Publish that failed. -/
def attempted (w : Audit σ) : Act → Bool
  | .fetch c order =>
    (store.fetch w.world.store w.world.now order (withDefaults c).batchSize (withDefaults c).visibility).all fun got =>
      got.1.all fun rec => (view w.world.store rec.id).all fun v => v.epoch ≤ w.failed.count rec.id
  | _ => true

structure Tried (w : Audit σ) : Prop where
  claimed : ∀ worker ∈ w.world.workers, ∀ task ∈ worker.tasks, task.record.attempts ≤ w.failed.count task.record.id + 1
  doomed : ∀ worker ∈ w.world.workers, ∀ task rest err, worker.tasks = task :: rest → worker.outcome = some (.dead err) →
    worker.config.maxAttempts ≤ w.failed.count task.record.id
  dead : ∀ id v, view w.world.store id = some v → v.status = .dead →
    ∃ config ∈ w.world.workers.map Worker.config, config.maxAttempts ≤ w.failed.count id

variable {store view}

theorem configsKept {workers : List Worker} (ith : workers[i]? = some worker) (outcome tasks) :
    (workers.set i ⟨worker.config,outcome,tasks⟩).map Worker.config = workers.map Worker.config := mapSet ith rfl

theorem stepTried (lawful : Lawful store view) (tried : Tried view w) (fits : attempted store view w a = true)
    (ran : auditStep store w a = some next) : Tried view next := by
  obtain ⟨world,moves,rfl⟩ := Option.map_eq_some_iff.mp ran
  cases steppedOf moves with
  | tick => exact { tried with }
  | enqueued id msg =>
    refine { tried with dead := fun k v seen ended => ?_ }
    rcases lawful.enqueued w.world.store w.world.now id msg k with kept | ⟨_,due,new⟩
    · exact tried.dead k v (kept ▸ seen) ended
    cases new.symm.trans seen
    cases ended
  | fetched config order got =>
    rename_i recs _
    simp only [attempted,got,Option.all_some,List.all_eq_true] at fits
    refine ⟨fun worker mem task inside => ?_,fun worker mem => ?_,fun id v seen ended => ?_⟩
    · rcases List.mem_append.mp mem with old | new
      · exact tried.claimed worker old task inside
      · cases List.mem_singleton.mp new
        obtain ⟨rec,isFetched,rfl⟩ := List.mem_map.mp inside
        obtain ⟨v,claims⟩ := lawful.fetched got rec isFetched
        have owed := fits rec isFetched
        simp only [claims.was,Option.all_some,decide_eq_true_eq] at owed
        exact claims.attempts ▸ Nat.succ_le_succ owed
    · rcases List.mem_append.mp mem with old | new
      · exact tried.doomed worker old
      · cases List.mem_singleton.mp new
        simp [fetched]
    by_cases taken : id ∈ recs.map Record.id
    · obtain ⟨rec,isFetched,rfl⟩ := List.mem_map.mp taken
      obtain ⟨old,claims⟩ := lawful.fetched got rec isFetched
      cases claims.becomes.symm.trans seen
      cases claims.pending.symm.trans ended
    obtain ⟨config,used,enough⟩ := tried.dead id v (lawful.unfetched got id taken ▸ seen) ended
    exact ⟨config,by simpa using .inl (by simpa using used),enough⟩
  | published err ith idle tasks =>
    rename_i i worker task rest
    have working := List.mem_of_getElem? ith
    have more (id) : w.failed.count id ≤ (failing w.world (.publish i err) ++ w.failed).count id := by
      rw [List.count_append]
      exact Nat.le_add_left ..
    refine ⟨fun other mem first inside => ?_,fun other mem first others text isFirst outcome => ?_,
      fun id v seen ended => ?_⟩
    · refine Nat.le_trans ?_ (Nat.succ_le_succ (more _))
      rcases List.mem_or_eq_of_mem_set mem with was | rfl
      · exact tried.claimed other was first inside
      exact tried.claimed worker working first inside
    · rcases List.mem_or_eq_of_mem_set mem with was | rfl
      · exact Int.le_trans (tried.doomed other was first others text isFirst outcome) (Int.ofNat_le.mpr (more _))
      · cases tasks.symm.trans isFirst
        have claimed := tried.claimed worker working task (tasks ▸ List.mem_cons_self)
        cases err with
        | none => cases outcome
        | some _ =>
          simp only [deliver] at outcome
          split at outcome
          · simp [failing,ith,tasks]
            omega
          cases outcome
    simp only [configsKept ith]
    obtain ⟨config,used,enough⟩ := tried.dead id v seen ended
    exact ⟨config,used,enough.trans (Int.ofNat_le.mpr (more id))⟩
  | reported ok ith decided tasks =>
    rename_i worker task rest outcome
    have working := List.mem_of_getElem? ith
    refine ⟨fun other mem first inside => ?_,fun other mem => ?_,fun id v seen ended => ?_⟩
    · rcases List.mem_or_eq_of_mem_set mem with was | rfl
      · exact tried.claimed other was first inside
      · exact tried.claimed worker working first (tasks ▸ List.mem_cons_of_mem _ inside)
    · rcases List.mem_or_eq_of_mem_set mem with was | rfl
      · exact tried.doomed other was
      · simp
    simp only [configsKept ith]
    cases ok with
    | false => exact tried.dead id v seen ended
    | true =>
      rcases lawful.reported w.world.store w.world.now task.record.id outcome id with kept | ⟨rfl,old,_,was,becomes⟩
      · exact tried.dead id v (kept ▸ seen) ended
      cases becomes.symm.trans seen
      cases outcome with
      | delivered => cases ended
      | retry => exact tried.dead _ old was ended
      | dead err => exact ⟨worker.config,List.mem_map_of_mem working,tried.doomed worker working task rest err tasks decided⟩
  | closed => exact { tried with dead := fun k v seen => tried.dead k v (lawful.closed w.world.store k ▸ seen) }
end

/-- A record is dead only after as many failed Publish calls as some relay's MaxAttempts asks for. -/
theorem deadAfterAttempts (b : Backend) {now as} {w : Audit b.State}
    (ran : Trace (auditStep b.store) (fun w a => attempted b.store b.view w a = true) ⟨start b.empty now,[]⟩ as w)
    {id} (dead : status b w.world id = some .dead) :
    ∃ config ∈ w.world.workers.map Worker.config, config.maxAttempts ≤ w.failed.count id := by
  have tried := traceInvariant (P := Tried b.view) (fun _ _ _ tried fits moved => stepTried b.lawful tried fits moved) ran
    ⟨by simp [start],by simp [start],fun id v seen => by simp [start,b.emptyView] at seen⟩
  obtain ⟨v,seen,ended⟩ := Option.map_eq_some_iff.mp dead
  exact tried.dead id v seen ended

def twice : RelayConfig := ⟨1,0,10,2,1,1⟩

def killed : List Act :=
  [.enqueue "m" order,.fetch twice ["m"],.publish 0 (some "timeout"),.report 0 true,.tick 1,.fetch twice ["m"],
    .publish 1 (some "timeout"),.report 1 true]

theorem claimsSpendAttempts :
    ¬ ∃ b : Backend, ∀ as w, Trace (auditStep b.store) Free ⟨start b.empty 0,[]⟩ as w → ∀ id,
      status b w.world id = some .dead → ∃ config ∈ w.world.workers.map Worker.config, config.maxAttempts ≤ w.failed.count id := by
  rintro ⟨b,holds⟩
  have seen : ((run (auditStep b.store) ⟨start b.empty 0,[]⟩
      [.enqueue "m" order,.fetch twice ["m"],.tick 10,.fetch twice ["m"],.publish 1 (some "timeout"),.report 1 true]).map
      fun w => (status b w.world "m",w.world.workers.map Worker.config,w.failed)) =
      some (some .dead,[withDefaults twice,withDefaults twice],["m"]) := by
    cases b <;> decide
  obtain ⟨w,ran,facts⟩ := Option.map_eq_some_iff.mp seen
  simp only [Prod.mk.injEq] at facts
  have enough := holds _ w (runFree ran) "m" facts.1
  rw [facts.2.1,facts.2.2] at enough
  exact absurd enough (by decide)

theorem deadAfterTwo : ∃ w : Audit Backend.memory.State, status .memory w.world "m" = some .dead ∧
      ∃ config ∈ w.world.workers.map Worker.config, config.maxAttempts ≤ w.failed.count "m" := by
  have accepted : accepts (auditStep Backend.memory.store) (fun w a => attempted Backend.memory.store Backend.memory.view w a = true)
      ⟨start Backend.memory.empty 0,[]⟩ killed = true := by decide
  obtain ⟨w,ran,trace⟩ := acceptedTrace accepted
  have seen : ((run (auditStep Backend.memory.store) ⟨start Backend.memory.empty 0,[]⟩ killed).map fun w =>
      status .memory w.world "m") = some (some .dead) := by decide
  rw [ran] at seen
  have dead := Option.some.inj seen
  exact ⟨w,dead,deadAfterAttempts .memory trace dead⟩

end Gofly.OutboxAttempts
