import Gofly.Roster
import Gofly.Transition
/-! The Redis Stream broker: one topic and one consumer group of it, any number of
subscriptions with their workers, and the server as far as the group goes. -/
namespace Gofly.RedisStream
open Transition Roster
open List (append_nil mem_append mem_append_left mem_map mem_of_getElem? mem_of_mem_tail mem_or_eq_of_mem_set mem_replicate)

/-- A consumer group of one topic: a read for new entries gives each entry once and leaves it
pending until it is acknowledged. -/
structure Redis (σ : Type) where
  xAdd : σ → σ
  xGroupCreate : σ → σ
  created : σ → Bool
  xReadGroup : σ → String → Nat → σ × List Nat
  xAck : σ → Nat → σ
  passed : σ → Nat → Prop
  pending : σ → Nat → Prop
  addPassed : passed s n → passed (xAdd s) n
  addPending : pending (xAdd s) n ↔ pending s n
  createPassed : passed s n → passed (xGroupCreate s) n
  createPending : pending (xGroupCreate s) n ↔ pending s n
  readNodup : (xReadGroup s consumer count).2.Nodup
  readFresh : n ∈ (xReadGroup s consumer count).2 → ¬ passed s n
  readPassed : passed (xReadGroup s consumer count).1 n ↔ passed s n ∨ n ∈ (xReadGroup s consumer count).2
  readPending : pending (xReadGroup s consumer count).1 n ↔ pending s n ∨ n ∈ (xReadGroup s consumer count).2
  ackPassed : passed s n → passed (xAck s other) n
  ackPending : pending (xAck s other) n ↔ pending s n ∧ n ≠ other

structure Config where
  concurrency : Int
  maxAttempts : Int
  retryBackoff : Int
  deadLetterTopic : String
  deriving DecidableEq

def Config.attempts (c : Config) : Nat := if c.maxAttempts < 1 then 1 else c.maxAttempts.toNat

structure Subscription where
  consumer : String
  readCount : Nat
  config : Config
  cancelled : Bool
  deriving DecidableEq

inductive Stage where
  | polling
  | reading
  | next
  | handling (attempt : Nat)
  | failed (attempt : Nat)
  | sleeping (attempt : Nat)
  | writing
  | acking
  | stopped
  deriving DecidableEq

structure Worker where
  sub : Nat
  entries : List Nat
  stage : Stage
  deriving DecidableEq

inductive Event where
  | delivered (id : Nat)
  | handled (id worker attempt : Nat) (ok : Bool)
  | deadLettered (id : Nat)
  | acked (id sub : Nat)
  deriving DecidableEq

structure World (σ : Type) where
  server : σ
  subs : List Subscription
  workers : List Worker
  log : List Event
  deriving DecidableEq

def start (server : σ) : World σ := ⟨server,[],[],[]⟩

inductive Turn where
  | poll
  | readFails
  | next
  | handle (ok : Bool)
  | check
  | wake
  | interrupt
  | write (done ok : Bool)
  | ackFails
  deriving DecidableEq

namespace Worker

def leave (x : Worker) : Worker := { x with entries := x.entries.tail,stage := .next }
def goes (x : Worker) (stage : Stage) : Worker := { x with stage := stage }

def turn (x : Worker) (i : Nat) (s : Subscription) (t : Turn) : Option (Worker × List Event) :=
  match t, x.stage, x.entries with
  | .poll,.polling,_ => some (x.goes (if s.cancelled then .stopped else .reading),[])
  | .readFails,.reading,_ => some (x.goes .polling,[])
  | .next,.next,[] => some (x.goes .polling,[])
  | .next,.next,_ :: _ => some (x.goes (.handling 0),[])
  | .handle ok,.handling k,id :: _ =>
    some (x.goes (if ok then .acking else .failed k),[.handled id i k ok])
  | .check,.failed k,_ =>
    if s.cancelled then some (x.leave,[])
    else if k + 1 < s.config.attempts then
      some (x.goes (if 0 < s.config.retryBackoff then .sleeping k else .handling (k + 1)),[])
    else some (x.goes (if s.config.deadLetterTopic = "" then .acking else .writing),[])
  | .wake,.sleeping k,_ => some (x.goes (.handling (k + 1)),[])
  | .interrupt,.sleeping _,_ => if s.cancelled then some (x.leave,[]) else none
  | .write _ true,.writing,id :: _ => some (x.goes .acking,[.deadLettered id])
  -- The write may have reached the server though its reply says otherwise.
  | .write done false,.writing,id :: _ => some (x.leave,if done then [.deadLettered id] else [])
  | .ackFails,.acking,_ => some (x.leave,[])
  | _,_,_ => none

end Worker

inductive Act where
  | publish
  | createGroup
  | subscribe (consumer : String) (readCount : Nat) (config : Config)
  | cancel (sub : Nat)
  | read (i : Nat) (arrives : Bool)
  | turn (i : Nat) (t : Turn)
  | ack (i : Nat)
  deriving DecidableEq

def World.worker (w : World σ) (i : Nat) : Option (Worker × Subscription) :=
  (w.workers[i]?).bind fun x => (w.subs[x.sub]?).map fun s => (x,s)

def step (redis : Redis σ) (w : World σ) : Act → Option (World σ)
  | .publish => some { w with server := redis.xAdd w.server }
  | .createGroup => some { w with server := redis.xGroupCreate w.server }
  | .subscribe consumer readCount config =>
    if redis.created w.server then
      some { w with
        subs := w.subs ++ [⟨consumer,readCount,config,false⟩]
        workers := w.workers ++ List.replicate (max 1 config.concurrency.toNat) ⟨w.subs.length,[],.polling⟩ }
    else none
  | .cancel sub => (w.subs[sub]?).map fun s => { w with subs := w.subs.set sub { s with cancelled := true } }
  | .read i arrives =>
    (w.worker i).bind fun (x,s) =>
      if x.stage = .reading then
        let (server,ids) := redis.xReadGroup w.server s.consumer s.readCount
        let x := if arrives then { x with entries := ids,stage := .next } else x.goes .polling
        some { w with server := server,workers := w.workers.set i x,log := w.log ++ ids.map .delivered }
      else none
  | .turn i t =>
    (w.worker i).bind fun (x,s) => (x.turn i s t).map fun (x,events) =>
      { w with workers := w.workers.set i x,log := w.log ++ events }
  | .ack i =>
    (w.worker i).bind fun (x,_) =>
      match x.stage, x.entries with
      | .acking,id :: _ =>
        some { w with
          server := redis.xAck w.server id
          workers := w.workers.set i x.leave
          log := w.log ++ [.acked id x.sub] }
      | _,_ => none

inductive Steps (redis : Redis σ) (w : World σ) : Act → World σ → Prop where
  | publish : Steps redis w .publish { w with server := redis.xAdd w.server }
  | createGroup : Steps redis w .createGroup { w with server := redis.xGroupCreate w.server }
  | subscribe (created : redis.created w.server = true) :
      Steps redis w (.subscribe consumer readCount config) { w with
        subs := w.subs ++ [⟨consumer,readCount,config,false⟩]
        workers := w.workers ++ List.replicate (max 1 config.concurrency.toNat) ⟨w.subs.length,[],.polling⟩ }
  | cancel (found : w.subs[sub]? = some s) :
      Steps redis w (.cancel sub) { w with subs := w.subs.set sub { s with cancelled := true } }
  | read (arrives : Bool) (found : w.workers[i]? = some x)
      (owner : w.subs[x.sub]? = some s) (stands : x.stage = .reading) :
      Steps redis w (.read i arrives) { w with
        server := (redis.xReadGroup w.server s.consumer s.readCount).1
        workers := w.workers.set i (if arrives then
          { x with entries := (redis.xReadGroup w.server s.consumer s.readCount).2,stage := .next } else x.goes .polling)
        log := w.log ++ (redis.xReadGroup w.server s.consumer s.readCount).2.map .delivered }
  | turn {i : Nat} {t : Turn} {x y : Worker} {s : Subscription} {events : List Event} (found : w.workers[i]? = some x)
      (owner : w.subs[x.sub]? = some s) (moved : x.turn i s t = some (y,events)) :
      Steps redis w (.turn i t) { w with workers := w.workers.set i y,log := w.log ++ events }
  | ack {i : Nat} {x : Worker} {s : Subscription} {id : Nat} {rest : List Nat} (found : w.workers[i]? = some x)
      (owner : w.subs[x.sub]? = some s) (stands : x.stage = .acking) (holds : x.entries = id :: rest) :
      Steps redis w (.ack i) { w with
        server := redis.xAck w.server id
        workers := w.workers.set i x.leave
        log := w.log ++ [.acked id x.sub] }

theorem workerSeen {w : World σ} (seen : w.worker i = some (x,s)) :
    w.workers[i]? = some x ∧ w.subs[x.sub]? = some s := by
  obtain ⟨y,got,rest⟩ := Option.bind_eq_some_iff.mp seen
  obtain ⟨z,owner,eq⟩ := Option.map_eq_some_iff.mp rest
  cases eq
  exact ⟨got,owner⟩

theorem stepCases {redis : Redis σ} (ran : step redis w a = some v) : Steps redis w a v := by
  cases a with
  | publish =>
    cases ran
    exact .publish
  | createGroup =>
    cases ran
    exact .createGroup
  | subscribe =>
    simp only [step] at ran
    split at ran <;> cases ran
    exact .subscribe ‹_›
  | cancel =>
    obtain ⟨s,got,rfl⟩ := Option.map_eq_some_iff.mp ran
    exact .cancel got
  | read _ arrives =>
    obtain ⟨⟨x,s⟩,seen,ran⟩ := Option.bind_eq_some_iff.mp ran
    dsimp only at ran
    split at ran <;> cases ran
    exact .read arrives (workerSeen seen).1 (workerSeen seen).2 ‹_›
  | turn =>
    obtain ⟨⟨x,s⟩,seen,ran⟩ := Option.bind_eq_some_iff.mp ran
    obtain ⟨⟨y,events⟩,turned,rfl⟩ := Option.map_eq_some_iff.mp ran
    exact .turn (workerSeen seen).1 (workerSeen seen).2 turned
  | ack =>
    obtain ⟨⟨x,s⟩,seen,ran⟩ := Option.bind_eq_some_iff.mp ran
    dsimp only at ran
    split at ran <;> cases ran
    exact .ack (workerSeen seen).1 (workerSeen seen).2 ‹_› ‹_›

section
variable {id i : Nat}

def Failures (log : List Event) (id worker n : Nat) : Prop := ∀ k < n, Event.handled id worker k false ∈ log

def Earned (c : Config) (log : List Event) (id : Nat) : Prop :=
  (∃ worker k, Event.handled id worker k true ∈ log) ∨
    (∃ worker, Failures log id worker c.attempts) ∧ (c.deadLetterTopic ≠ "" → Event.deadLettered id ∈ log)

def Done (c : Config) (log : List Event) (i id : Nat) : Stage → Prop
  | .handling k => Failures log id i k
  | .failed k | .sleeping k => Failures log id i (k + 1)
  | .writing => Failures log id i c.attempts
  | .acking => Earned c log id
  | .polling | .reading | .next | .stopped => True

theorem failuresGrow (failures : Failures log id i n) : Failures (log ++ more) id i n :=
  fun k below => mem_append_left _ (failures k below)

theorem earnedGrow (earned : Earned c log id) : Earned c (log ++ more) id := by
  rcases earned with ⟨worker,k,mem⟩ | ⟨⟨worker,failures⟩,dead⟩
  · exact .inl ⟨worker,k,mem_append_left _ mem⟩
  exact .inr ⟨⟨worker,failuresGrow failures⟩,fun set => mem_append_left _ (dead set)⟩

theorem doneGrow (done : Done c log i id stage) : Done c (log ++ more) i id stage := by
  cases stage with
  | handling | failed | sleeping | writing => exact failuresGrow done
  | acking => exact earnedGrow done
  | _ => trivial

def Silent (events : List Event) : Prop := ∀ event ∈ events, ∀ id sub, event ≠ .delivered id ∧ event ≠ .acked id sub

structure Turned (c : Config) (log : List Event) (i : Nat) (x y : Worker) (events : List Event) : Prop where
  owner : y.sub = x.sub
  entries : y.entries = x.entries ∨ y.entries = x.entries.tail
  silent : Silent events
  done : (∀ id rest, x.entries = id :: rest → Done c log i id x.stage) →
    ∀ id rest, y.entries = id :: rest → Done c (log ++ events) i id y.stage

theorem leaveTurned (events) (silent : Silent events) : Turned c log i x x.leave events :=
  ⟨rfl,.inr rfl,silent,fun _ _ _ _ => trivial⟩

theorem stayTurned (events) (silent : Silent events)
    (done : ∀ id rest, x.entries = id :: rest → Done c log i id x.stage → Done c (log ++ events) i id stage) :
    Turned c log i x (x.goes stage) events :=
  ⟨rfl,.inl rfl,silent,fun old id rest holds => done id rest holds (old id rest holds)⟩

theorem failuresMore (failures : Failures log id i n) : Failures (log ++ [.handled id i n false]) id i (n + 1) := by
  intro k below
  rcases Nat.lt_succ_iff_lt_or_eq.mp below with old | rfl
  · exact mem_append_left _ (failures k old)
  exact List.mem_append_right _ (List.mem_singleton_self _)

theorem turnCases (ran : x.turn i s t = some (y,events)) : Turned s.config log i x y events := by
  unfold Worker.turn at ran
  split at ran
  · cases ran
    refine stayTurned [] nofun fun _ _ _ _ => ?_
    split <;> trivial
  · cases ran
    exact stayTurned [] nofun fun _ _ _ _ => trivial
  · cases ran
    exact stayTurned [] nofun fun _ _ _ _ => trivial
  · cases ran
    exact stayTurned [] nofun fun _ _ _ _ => nofun
  · rename_i ok k id rest stands holds
    cases ran
    refine stayTurned _ (by simp [Silent]) fun other _ eq old => ?_
    rw [holds] at eq
    cases eq
    rw [stands] at old
    cases ok with
    | true => exact .inl ⟨i,k,List.mem_append_right _ (List.mem_singleton_self _)⟩
    | false => exact failuresMore old
  · rename_i stands
    split at ran
    · cases ran
      exact leaveTurned [] nofun
    split at ran <;> cases ran
    · refine stayTurned [] nofun fun id _ _ old => ?_
      rw [stands] at old
      rw [append_nil]
      split <;> exact old
    refine stayTurned [] nofun fun id _ _ old => ?_
    rw [stands] at old
    have all : Failures log id i s.config.attempts := fun j below => old j (by omega)
    rw [append_nil]
    split
    · exact .inr ⟨⟨i,all⟩,fun set => absurd ‹_› set⟩
    exact all
  · rename_i stands
    cases ran
    refine stayTurned [] nofun fun id _ _ old => ?_
    rw [stands] at old
    rw [append_nil]
    exact old
  · split at ran <;> cases ran
    exact leaveTurned [] nofun
  · rename_i stands holds
    cases ran
    refine stayTurned _ (by simp [Silent]) fun other _ eq old => ?_
    rw [holds] at eq
    cases eq
    rw [stands] at old
    exact .inr ⟨⟨i,failuresGrow old⟩,fun _ => List.mem_append_right _ (List.mem_singleton_self _)⟩
  · cases ran
    refine leaveTurned _ ?_
    split <;> simp [Silent]
  · cases ran
    exact leaveTurned [] nofun
  cases ran
end

def Event.deliveredId : Event → Option Nat
  | .delivered id => some id
  | _ => none

def deliveries (log : List Event) : List Nat := log.filterMap Event.deliveredId

theorem memDeliveries {id} : id ∈ deliveries log ↔ .delivered id ∈ log := by
  unfold deliveries
  rw [List.mem_filterMap]
  constructor
  · rintro ⟨event,mem,eq⟩
    cases event <;> cases eq
    exact mem
  exact fun mem => ⟨_,mem,rfl⟩

theorem deliveriesRead (log ids) : deliveries (log ++ ids.map .delivered) = deliveries log ++ ids := by
  unfold deliveries
  rw [List.filterMap_append,List.filterMap_map]
  exact congrArg _ (List.filterMap_some)

theorem deliveriesSilent (silent : Silent events) : deliveries (log ++ events) = deliveries log := by
  have none : events.filterMap Event.deliveredId = [] := by
    refine List.filterMap_eq_nil_iff.mpr fun event mem => ?_
    cases event with
    | delivered id => exact absurd rfl (silent _ mem id 0).1
    | _ => rfl
  rw [deliveries,List.filterMap_append,none,append_nil]
  rfl

theorem deliveriesAck (log id sub) : deliveries (log ++ [.acked id sub]) = deliveries log := by
  rw [deliveries,List.filterMap_append]
  exact append_nil _

structure Working (w : World σ) : Prop where
  owned : ∀ x ∈ w.workers, x.sub < w.subs.length
  done : ∀ (i : Nat) x s, w.workers[i]? = some x → w.subs[x.sub]? = some s →
    ∀ id rest, x.entries = id :: rest → Done s.config w.log i id x.stage
  mine : ∀ id sub, .acked id sub ∈ w.log → sub < w.subs.length
  earned : ∀ (n : Nat) id sub s, w.log[n]? = some (.acked id sub) → w.subs[sub]? = some s →
    Earned s.config (w.log.take n) id

def Held (w : World σ) (id : Nat) : Prop := ∃ x ∈ w.workers, id ∈ x.entries

section
variable {redis : Redis σ} {w v : World σ}

theorem putWorking (working : Working w) (got : w.workers[i]? = some x) (owner : y.sub = x.sub)
    (acks : ∀ id sub, .acked id sub ∈ events → sub = x.sub ∧ ∀ s, w.subs[sub]? = some s → Earned s.config w.log id)
    (done : ∀ s, w.subs[x.sub]? = some s → ∀ id rest, y.entries = id :: rest → Done s.config (w.log ++ events) i id y.stage)
    (subs : v.subs = w.subs) (workers : v.workers = w.workers.set i y) (log : v.log = w.log ++ events) : Working v where
  owned z member := by
    rw [subs]
    rw [workers] at member
    rcases mem_or_eq_of_mem_set member with old | rfl
    · exact working.owned z old
    rw [owner]
    exact working.owned x (mem_of_getElem? got)
  done j z s seen own id rest holds := by
    rw [workers] at seen
    rw [subs] at own
    rw [log]
    rcases setSeen seen with ⟨rfl,rfl⟩ | ⟨_,old⟩
    · exact done s (owner ▸ own) id rest holds
    exact doneGrow (working.done j z s old own id rest holds)
  mine id sub member := by
    rw [log] at member
    rw [subs]
    rcases mem_append.mp member with old | new
    · exact working.mine id sub old
    rw [(acks id sub new).1]
    exact working.owned x (mem_of_getElem? got)
  earned n id sub s stands own := by
    rw [log] at stands ⊢
    rw [subs] at own
    rcases Nat.lt_or_ge n w.log.length with old | new
    · rw [List.getElem?_append_left old] at stands
      rw [List.take_append_of_le_length (Nat.le_of_lt old)]
      exact working.earned n id sub s stands own
    rw [List.getElem?_append_right new] at stands
    rw [List.take_append,List.take_of_length_le new]
    exact earnedGrow ((acks id sub (mem_of_getElem? stands)).2 s own)

theorem stepWorking (working : Working w) (steps : Steps redis w a v) : Working v := by
  cases steps with
  | publish | createGroup => exact { working with }
  | @subscribe consumer readCount config =>
    have longer : w.subs.length < (w.subs ++ [Subscription.mk consumer readCount config false]).length := by simp
    have eq {k : Nat} {s : Subscription} (inside : k < w.subs.length)
        (own : (w.subs ++ [Subscription.mk consumer readCount config false])[k]? = some s) : w.subs[k]? = some s := by
      rwa [List.getElem?_append_left inside] at own
    refine ⟨fun x mem => ?_,fun i x s seen own id rest holds => ?_,fun id sub mem => ?_,fun n id sub s stands own => ?_⟩
    · rcases mem_append.mp mem with old | new
      · exact Nat.lt_trans (working.owned x old) longer
      · rw [(mem_replicate.mp new).2]
        exact longer
    · rcases Nat.lt_or_ge i w.workers.length with old | new
      · rw [List.getElem?_append_left old] at seen
        exact working.done i x s seen (eq (working.owned x (mem_of_getElem? seen)) own) id rest holds
      · rw [List.getElem?_append_right new] at seen
        rw [(mem_replicate.mp (mem_of_getElem? seen)).2] at holds
        cases holds
    · exact Nat.lt_trans (working.mine id sub mem) longer
    exact working.earned n id sub s stands (eq (working.mine id sub (mem_of_getElem? stands)) own)
  | @cancel sub s got =>
    have eq {k : Nat} {t : Subscription} (own : (w.subs.set sub { s with cancelled := true })[k]? = some t) :
        ∃ u, w.subs[k]? = some u ∧ u.config = t.config := by
      rcases setSeen own with ⟨rfl,rfl⟩ | ⟨_,old⟩
      · exact ⟨s,got,rfl⟩
      exact ⟨t,old,rfl⟩
    refine ⟨fun x mem => ?_,fun i x t seen own id rest holds => ?_,fun id k mem => ?_,fun n id k t stands own => ?_⟩
    · simpa using working.owned x mem
    · obtain ⟨u,old,config⟩ := eq own
      exact config ▸ working.done i x u seen old id rest holds
    · simpa using working.mine id k mem
    obtain ⟨u,old,config⟩ := eq own
    exact config ▸ working.earned n id k u stands old
  | @read _ _ _ arrives got =>
    refine putWorking working got ?_ (by simp) (fun _ _ _ _ _ => ?_) rfl rfl rfl
    · split <;> rfl
    cases arrives <;> trivial
  | @turn i _ x y s events got owner ran =>
    have turned : Turned s.config w.log i x y events := turnCases ran
    refine putWorking working got turned.owner (fun id sub mem => absurd rfl (turned.silent _ mem id sub).2)
      (fun other own => ?_) rfl rfl rfl
    cases Option.mem_unique owner own
    exact turned.done (working.done i x s got owner)
  | @ack i x s id rest got owner stands holds =>
    refine putWorking (y := x.leave) working got rfl (fun other sub mem => ?_) (fun _ _ _ _ _ => trivial) rfl rfl rfl
    cases List.mem_singleton.mp mem
    refine ⟨rfl,fun other own => ?_⟩
    cases Option.mem_unique owner own
    have done := working.done i x s got owner id rest holds
    rwa [stands] at done

theorem putHeld {id} (got : w.workers[i]? = some x) (entries : id ∈ y.entries → id ∈ x.entries ∨ P)
    (held : ∃ z ∈ w.workers.set i y, id ∈ z.entries) : Held w id ∨ P := by
  obtain ⟨z,mem,inside⟩ := held
  rcases mem_or_eq_of_mem_set mem with old | rfl
  · exact .inl ⟨z,old,inside⟩
  exact (entries inside).imp_left fun old => ⟨x,mem_of_getElem? got,old⟩

/-- What one step does to the entries: fresh ones are read, gone ones are acknowledged. -/
structure Effect (redis : Redis σ) (w v : World σ) (fresh gone : List Nat) : Prop where
  sent : deliveries v.log = deliveries w.log ++ fresh
  acked : ∀ id, (∃ sub, .acked id sub ∈ v.log) ↔ (∃ sub, .acked id sub ∈ w.log) ∨ id ∈ gone
  held : ∀ id, Held v id → Held w id ∨ id ∈ fresh
  mine : ∀ id ∈ gone, Held w id
  nodup : fresh.Nodup
  unread : ∀ id ∈ fresh, ¬ redis.passed w.server id
  passed : ∀ id, redis.passed w.server id ∨ id ∈ fresh → redis.passed v.server id
  pending : ∀ id, redis.pending v.server id ↔ (redis.pending w.server id ∨ id ∈ fresh) ∧ id ∉ gone

theorem quietEffect (log : v.log = w.log ++ events) (silent : Silent events) (held : ∀ id, Held v id → Held w id)
    (passed : ∀ id, redis.passed w.server id → redis.passed v.server id)
    (pending : ∀ id, redis.pending v.server id ↔ redis.pending w.server id) : Effect redis w v [] [] where
  sent := by rw [log,deliveriesSilent silent,append_nil]
  acked id := by
    simp only [log,mem_append,exists_or,List.not_mem_nil]
    exact or_congr_right (iff_false_intro fun ⟨sub,new⟩ => (silent _ new id sub).2 rfl)
  held id inside := .inl (held id inside)
  mine := nofun
  nodup := List.nodup_nil
  unread := nofun
  passed id := by simpa using passed id
  pending id := by simpa using pending id

theorem stepEffect (steps : Steps redis w a v) : ∃ fresh gone, Effect redis w v fresh gone := by
  have calm : Silent [] := nofun
  cases steps with
  | publish =>
    exact ⟨_,_,quietEffect (append_nil _).symm calm (fun _ => id) (fun _ => redis.addPassed) fun _ => redis.addPending⟩
  | createGroup =>
    exact ⟨_,_,quietEffect (append_nil _).symm calm (fun _ => id) (fun _ => redis.createPassed) fun _ => redis.createPending⟩
  | cancel => exact ⟨_,_,quietEffect (append_nil _).symm calm (fun _ => id) (fun _ => id) fun _ => Iff.rfl⟩
  | subscribe =>
    refine ⟨_,_,quietEffect (append_nil _).symm calm ?_ (fun _ => id) fun _ => Iff.rfl⟩
    rintro id ⟨z,mem,inside⟩
    rcases mem_append.mp mem with old | new
    · exact ⟨z,old,inside⟩
    rw [(mem_replicate.mp new).2] at inside
    cases inside
  | @read _ _ _ arrives got =>
    refine ⟨_,[],deliveriesRead _ _,fun id => by simp,fun id => putHeld got ?_,nofun,redis.readNodup,
      fun _ => redis.readFresh,fun _ => redis.readPassed.mpr,fun _ => by simpa using redis.readPending⟩
    cases arrives
    · exact .inl
    exact .inr
  | @turn i _ x y s events got _ ran =>
    have turned : Turned s.config w.log i x y events := turnCases ran
    refine ⟨_,_,quietEffect rfl turned.silent (fun id held => ?_) (fun _ => id) fun _ => Iff.rfl⟩
    refine (putHeld (P := False) got (fun inside => .inl ?_) held).resolve_right not_false
    rcases turned.entries with kept | left
    · exact kept ▸ inside
    exact mem_of_mem_tail (left ▸ inside)
  | @ack _ x _ other _ got _ _ holds =>
    refine ⟨[],[other],?_,fun id => by simp [exists_or],fun id => putHeld got fun inside => .inl (mem_of_mem_tail inside),
      fun id mem => ?_,List.nodup_nil,nofun,fun id => ?_,fun id => by simpa using redis.ackPending⟩
    · rw [deliveriesAck,append_nil]
    · cases List.mem_singleton.mp mem
      exact ⟨x,mem_of_getElem? got,by simp [holds]⟩
    simpa using redis.ackPassed

structure Grouped (redis : Redis σ) (w : World σ) : Prop where
  held : ∀ id, Held w id → redis.passed w.server id
  seen : ∀ id ∈ deliveries w.log, redis.passed w.server id
  settled : ∀ id, (∃ sub, .acked id sub ∈ w.log) → redis.passed w.server id
  known : ∀ id, redis.pending w.server id ↔ id ∈ deliveries w.log ∧ ¬ ∃ sub, .acked id sub ∈ w.log
  once : (deliveries w.log).Nodup

theorem stepGrouped (same : Grouped redis w) (effect : Effect redis w v fresh gone) : Grouped redis v where
  held id inside := effect.passed id ((effect.held id inside).imp_left (same.held id))
  seen id mem := by
    rw [effect.sent] at mem
    exact effect.passed id ((mem_append.mp mem).imp_left (same.seen id))
  settled id acked := by
    refine effect.passed id (.inl ?_)
    rcases (effect.acked id).mp acked with old | new
    · exact same.settled id old
    exact same.held id (effect.mine id new)
  known id := by
    have never (new : id ∈ fresh) : ¬ ∃ sub, .acked id sub ∈ w.log := fun old => effect.unread id new (same.settled id old)
    rw [effect.pending,same.known,effect.acked,effect.sent,mem_append]
    tauto
  once := by
    rw [effect.sent]
    refine List.nodup_append.mpr ⟨same.once,effect.nodup,fun id old other new eq => ?_⟩
    subst eq
    exact effect.unread id new (same.seen id old)

structure Abandoned (redis : Redis σ) (w : World σ) (id : Nat) : Prop where
  pending : redis.pending w.server id
  dropped : ¬ Held w id
  past : redis.passed w.server id

theorem abandonedStep {id} (abandoned : Abandoned redis w id) (effect : Effect redis w v fresh gone) :
    Abandoned redis v id ∧ (deliveries v.log).count id = (deliveries w.log).count id := by
  obtain ⟨pending,dropped,past⟩ := abandoned
  have unread : id ∉ fresh := fun new => effect.unread id new past
  have kept : id ∉ gone := fun left => dropped (effect.mine id left)
  refine ⟨⟨(effect.pending id).mpr ⟨.inl pending,kept⟩,fun held => ?_,effect.passed id (.inl past)⟩,?_⟩
  · exact (effect.held id held).elim dropped unread
  rw [effect.sent,List.count_append,List.count_eq_zero_of_not_mem unread,Nat.add_zero]

theorem abandonedRun {id} (abandoned : Abandoned redis w id) (ran : Trace (step redis) Free w as v) :
    Abandoned redis v id ∧ (deliveries v.log).count id = (deliveries w.log).count id := by
  refine traceInvariant (P := fun u => Abandoned redis u id ∧
    (deliveries u.log).count id = (deliveries w.log).count id) ?_ ran ⟨abandoned,rfl⟩
  rintro u a next ⟨abandoned,count⟩ _ moved
  obtain ⟨_,_,effect⟩ := stepEffect (stepCases moved)
  obtain ⟨still,eq⟩ := abandonedStep abandoned effect
  exact ⟨still,eq.trans count⟩

theorem runGrouped (clean : ∀ id, ¬ redis.pending server id) (ran : Trace (step redis) Free (start server) as w) :
    Grouped redis w := by
  refine traceInvariant (fun _ _ _ same _ moved => ?_) ran ?_
  · obtain ⟨_,_,effect⟩ := stepEffect (stepCases moved)
    exact stepGrouped same effect
  exact ⟨by simp [start,Held],by simp [start,deliveries],by simp [start],by simpa [start,deliveries] using clean,
    by simp [start,deliveries]⟩

theorem runWorking (ran : Trace (step redis) Free (start server) as w) : Working w := by
  refine traceInvariant (fun _ _ _ working _ moved => stepWorking working (stepCases moved)) ran ?_
  exact ⟨by simp [start],by simp [start],by simp [start],by simp [start]⟩

theorem abandonedHere {id} (same : Grouped redis w) (sent : .delivered id ∈ w.log)
    (open_ : ∀ sub, .acked id sub ∉ w.log) (dropped : ¬ Held w id) : Abandoned redis w id :=
  ⟨(same.known id).mpr ⟨memDeliveries.mpr sent,not_exists.mpr open_⟩,dropped,same.seen id (memDeliveries.mpr sent)⟩

/-- Whether the entry in hand is not given up. -/
def Turn.keeps (cancelled : Bool) : Turn → Bool
  | .interrupt | .ackFails => false
  | .write _ ok => ok
  | .check => !cancelled
  | _ => true

def Careful (w : World σ) : Act → Prop
  | .read _ arrives => arrives = true
  | .turn i t => (w.worker i).all (fun (_,s) => t.keeps s.cancelled) = true
  | _ => True
instance (w : World σ) (a : Act) : Decidable (Careful w a) := by
  unfold Careful
  split <;> infer_instance

def Stage.idle : Stage → Bool
  | .polling | .reading | .stopped => true
  | _ => false

theorem turnKeeps {x y : Worker} {t : Turn} (ran : x.turn i s t = some (y,events)) (keeps : t.keeps s.cancelled = true)
    (idle : x.stage.idle = true → x.entries = []) : y.entries = x.entries ∧ (y.stage.idle = true → y.entries = []) := by
  unfold Worker.turn at ran
  split at ran <;> grind [Turn.keeps,Stage.idle,Worker.goes]

structure InHand (w : World σ) : Prop where
  idle : ∀ x ∈ w.workers, x.stage.idle = true → x.entries = []
  held : ∀ id, .delivered id ∈ w.log → (∀ sub, .acked id sub ∉ w.log) → Held w id

theorem stepInHand (same : InHand w) (careful : Careful w a) (moved : step redis w a = some v) : InHand v := by
  -- A worker is replaced by one that has every entry of its own that is not yet acknowledged.
  have put {i : Nat} {x y : Worker} {id : Nat} (got : w.workers[i]? = some x)
      (kept : id ∈ x.entries → id ∈ y.entries) : Held w id → ∃ z ∈ w.workers.set i y, id ∈ z.entries := by
    rintro ⟨z,mem,inside⟩
    obtain ⟨j,seen⟩ := List.getElem?_of_mem mem
    by_cases here : i = j
    · subst here
      cases Option.mem_unique got seen
      exact ⟨y,mem_of_getElem? (setHere got),kept inside⟩
    exact ⟨z,mem_of_getElem? (setElsewhere here seen),inside⟩
  have steps := stepCases moved
  cases steps with
  | publish | createGroup | cancel => exact ⟨same.idle,same.held⟩
  | subscribe =>
    refine ⟨fun x mem => ?_,fun id sent open_ => ?_⟩
    · rcases mem_append.mp mem with old | new
      · exact same.idle x old
      rw [(mem_replicate.mp new).2]
      exact fun _ => rfl
    obtain ⟨z,mem,inside⟩ := same.held id sent open_
    exact ⟨z,mem_append_left _ mem,inside⟩
  | @read i x s arrives got _ stands =>
    obtain rfl : arrives = true := careful
    refine ⟨fun z mem => ?_,fun id sent open_ => ?_⟩
    · rcases mem_or_eq_of_mem_set mem with old | rfl
      · exact same.idle z old
      nofun
    rcases mem_append.mp sent with old | new
    · have empty := same.idle x (mem_of_getElem? got) (by rw [stands]; rfl)
      refine put got (by simp [empty]) (same.held id old fun sub mem => ?_)
      exact open_ sub (mem_append_left _ mem)
    obtain ⟨other,inside,eq⟩ := mem_map.mp new
    cases eq
    exact ⟨_,mem_of_getElem? (setHere got),inside⟩
  | @turn i t x y s events got owner ran =>
    have keeps : t.keeps s.cancelled = true := by simpa [Careful,World.worker,got,owner] using careful
    obtain ⟨entries,idle⟩ := turnKeeps ran keeps (same.idle x (mem_of_getElem? got))
    have turned : Turned s.config w.log i x y events := turnCases ran
    refine ⟨fun z mem => ?_,fun id sent open_ => ?_⟩
    · rcases mem_or_eq_of_mem_set mem with old | rfl
      · exact same.idle z old
      exact idle
    rcases mem_append.mp sent with old | new
    · refine put got (by simp [entries]) (same.held id old fun sub mem => ?_)
      exact open_ sub (mem_append_left _ mem)
    exact absurd rfl (turned.silent _ new id 0).1
  | @ack i x s other rest got _ _ holds =>
    refine ⟨fun z mem => ?_,fun id sent open_ => ?_⟩
    · rcases mem_or_eq_of_mem_set mem with old | rfl
      · exact same.idle z old
      nofun
    rcases mem_append.mp sent with old | new
    · have differs : id ≠ other := by
        rintro rfl
        exact open_ x.sub (List.mem_append_right _ (List.mem_singleton_self _))
      refine put got (fun inside => ?_) (same.held id old fun sub mem => open_ sub (mem_append_left _ mem))
      simpa [Worker.leave,holds,differs] using inside
    cases List.mem_singleton.mp new

theorem runInHand (ran : Trace (step redis) Careful (start server) as w) : InHand w :=
  traceInvariant (fun _ _ _ same careful moved => stepInHand same careful moved) ran
    ⟨by simp [start],by simp [start]⟩

/-- An entry is acknowledged only after success or its dead letter. One in nobody's hands stays
pending and is read by nobody; in a careful run there is none. -/
theorem entriesKept {server : σ} {as : List Act} (clean : ∀ id, ¬ redis.pending server id)
    (ran : Trace (step redis) Free (start server) as w) :
    (∀ (n : Nat) id sub s, w.log[n]? = some (.acked id sub) → w.subs[sub]? = some s →
      Earned s.config (w.log.take n) id) ∧
    (∀ id, .delivered id ∈ w.log → (∀ sub, .acked id sub ∉ w.log) → ¬ Held w id →
      ∀ bs v, Trace (step redis) Free w bs v →
        redis.pending v.server id ∧ (deliveries v.log).count id = 1) ∧
    (Trace (step redis) Careful (start server) as w →
      ∀ id, .delivered id ∈ w.log → (∀ sub, .acked id sub ∉ w.log) → Held w id) := by
  have grouped := runGrouped clean ran
  refine ⟨(runWorking ran).earned,fun id delivered open_ dropped bs v later => ?_,fun careful => (runInHand careful).held⟩
  obtain ⟨still,same⟩ := abandonedRun (abandonedHere grouped delivered open_ dropped) later
  refine ⟨still.pending,same.trans ?_⟩
  exact List.count_eq_one_of_mem grouped.once (memDeliveries.mpr delivered)
end

/-- A server with one topic, whose entries are numbered; the cursor is the group's. -/
structure Server where
  published : Nat
  cursor : Option Nat
  pending : List (Nat × String)
  deriving DecidableEq

namespace Server

def readGroup (s : Server) (consumer : String) (count : Nat) : Server × List Nat :=
  match s.cursor with
  | none => (s,[])
  | some cursor =>
    let ids := List.range' cursor (min count (s.published - cursor))
    ({ s with cursor := some (cursor + ids.length),pending := s.pending ++ ids.map fun id => (id,consumer) },ids)

def ack (s : Server) (id : Nat) : Server := { s with pending := s.pending.filter fun p => p.1 ≠ id }

def Passed (s : Server) (id : Nat) : Prop := ∃ cursor, s.cursor = some cursor ∧ id < cursor
def Pending (s : Server) (id : Nat) : Prop := ∃ consumer, (id,consumer) ∈ s.pending

theorem readSpec (s : Server) (consumer count id) :
    let after := (s.readGroup consumer count).1
    let ids := (s.readGroup consumer count).2
    ids.Nodup ∧ (id ∈ ids → ¬ s.Passed id) ∧ (after.Passed id ↔ s.Passed id ∨ id ∈ ids) ∧
      (after.Pending id ↔ s.Pending id ∨ id ∈ ids) := by
  dsimp only
  unfold readGroup
  cases at_ : s.cursor with
  | none => simp
  | some cursor =>
    have ids := @List.mem_range'_1 cursor (min count (s.published - cursor)) id
    refine ⟨List.nodup_range',fun mem => ?_,?_,by simp [Pending,exists_or]⟩
    · simp only [Passed,at_,Option.some.injEq,exists_eq_left']
      exact Nat.not_lt.mpr (ids.mp mem).1
    simp only [Passed,at_,Option.some.injEq,exists_eq_left',ids,List.length_range']
    omega

def redis : Redis Server where
  xAdd s := { s with published := s.published + 1 }
  xGroupCreate s := { s with cursor := s.cursor.or (some s.published) }
  created s := s.cursor.isSome
  xReadGroup := readGroup
  xAck := ack
  passed := Passed
  pending := Pending
  addPassed := id
  addPending := Iff.rfl
  createPassed := fun ⟨cursor,at_,below⟩ => ⟨cursor,by simp [at_],below⟩
  createPending := Iff.rfl
  readNodup := (readSpec _ _ _ 0).1
  readFresh := (readSpec _ _ _ _).2.1
  readPassed := (readSpec _ _ _ _).2.2.1
  readPending := (readSpec _ _ _ _).2.2.2
  ackPassed := id
  ackPending := by simp [Pending,ack]

end Server

def bare : Server := ⟨0,none,[]⟩
theorem bareClean (id) : ¬ Server.redis.pending bare id := by simp [Server.redis,Server.Pending,bare]

def plain : Config := ⟨1,2,50,""⟩

def failsOnce : List Act :=
  [.createGroup,.subscribe "c" 16 plain,.publish,.turn 0 .poll,.read 0 true,.turn 0 .next,.turn 0 (.handle false),
    .turn 0 .check]
def stoppedRun : List Act := failsOnce ++ [.cancel 0,.turn 0 .interrupt,.turn 0 .next,.turn 0 .poll]

theorem stoppedAbandons : ∃ w, run (step Server.redis) (start bare) stoppedRun = some w ∧
    .delivered 0 ∈ w.log ∧ (∀ sub, .acked 0 sub ∉ w.log) ∧ ¬ Held w 0 := by
  refine ⟨⟨⟨1,some 1,[(0,"c")]⟩,[⟨"c",16,plain,true⟩],[⟨0,[],.stopped⟩],
    [.delivered 0,.handled 0 0 0 false]⟩,rfl,by decide,?_,?_⟩
  · simp
  simp [Held]

theorem neverReturned : ∃ w, run (step Server.redis) (start bare) stoppedRun = some w ∧
    (deliveries w.log).count 0 = 1 ∧ (∀ sub, .acked 0 sub ∉ w.log) ∧
      ∀ bs v, Trace (step Server.redis) Free w bs v → (deliveries v.log).count 0 = 1 := by
  obtain ⟨w,ran,delivered,open_,dropped⟩ := stoppedAbandons
  have grouped := runGrouped bareClean (runFree ran)
  have one := List.count_eq_one_of_mem grouped.once (memDeliveries.mpr delivered)
  refine ⟨w,ran,one,open_,fun bs v later => ?_⟩
  exact (abandonedRun (abandonedHere grouped delivered open_ dropped) later).2.trans one

theorem stoppedKept : (∃ w, run (step Server.redis) (start bare) stoppedRun = some w ∧
      ∀ bs v, Trace (step Server.redis) Free w bs v →
        Server.redis.pending v.server 0 ∧ (deliveries v.log).count 0 = 1) ∧
    ∃ w, run (step Server.redis) (start bare) failsOnce = some w ∧ Held w 0 := by
  obtain ⟨w,ran,delivered,open_,dropped⟩ := stoppedAbandons
  have careful : accepts (step Server.redis) Careful (start bare) failsOnce = true := by decide +kernel
  have sent : (run (step Server.redis) (start bare) failsOnce).map World.log =
      some [.delivered 0,.handled 0 0 0 false] := by decide +kernel
  obtain ⟨u,ran',trace⟩ := acceptedTrace careful
  rw [ran'] at sent
  have log := Option.some.inj sent
  refine ⟨⟨w,ran,(entriesKept bareClean (runFree ran)).2.1 0 delivered open_ dropped⟩,u,ran',?_⟩
  exact (entriesKept bareClean (runFree ran')).2.2 trace 0 (by simp [log]) (by simp [log])

end Gofly.RedisStream
