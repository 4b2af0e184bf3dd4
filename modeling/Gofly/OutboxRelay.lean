import Gofly.Fence
import Gofly.Outbox
import Gofly.Transition

/-! Relays over a store. A worker is one call of ProcessBatch: it has the records of its Fetch,
publishes the first of them and reports the outcome, then goes on. -/
namespace Gofly.OutboxRelay
open Transition Outbox

structure Store (σ : Type) where
  enqueue : σ → Nat → String → Message → σ
  fetch : σ → Nat → List String → Int → Int → Option (List Record × σ)
  markDelivered : σ → Nat → String → σ
  retry : σ → String → Nat → String → σ
  markDead : σ → String → String → σ
  close : σ → σ

def memory : Store MemoryStore :=
  ⟨MemoryStore.enqueue,MemoryStore.fetch,MemoryStore.markDelivered,MemoryStore.retry,MemoryStore.markDead,
    MemoryStore.close⟩

def sql : Store SQLStore :=
  ⟨SQLStore.enqueue,SQLStore.fetch,SQLStore.markDelivered,SQLStore.retry,SQLStore.markDead,id⟩

structure Task where
  record : Record
  leaseUntil : Nat
  deriving DecidableEq

structure Worker where
  config : RelayConfig
  outcome : Option Outcome
  tasks : List Task
  deriving DecidableEq

structure World (σ : Type) where
  now : Nat
  store : σ
  workers : List Worker
  published : List String

inductive Act where
  | tick (d : Nat)
  | enqueue (id : String) (msg : Message)
  | fetch (config : RelayConfig) (order : List String)
  | publish (i : Nat) (err : Option String)
  | report (i : Nat) (ok : Bool)
  | close
  deriving DecidableEq

section
variable {σ : Type} (store : Store σ)

def start (empty : σ) (now : Nat) : World σ := ⟨now,empty,[],[]⟩

def report (s : σ) (now : Nat) (id : String) : Outcome → σ
  | .delivered => store.markDelivered s now id
  | .dead lastErr => store.markDead s id lastErr
  | .retry availableAt lastErr => store.retry s id availableAt lastErr

def fetched (now : Nat) (config : RelayConfig) (records : List Record) : Worker :=
  ⟨config,none,records.map fun rec => ⟨rec,now + config.visibility.toNat⟩⟩

-- a report that is not ok is a call that failed and changed nothing
def step (w : World σ) : Act → Option (World σ)
  | .tick d => some { w with now := w.now + d }
  | .enqueue id msg => some { w with store := store.enqueue w.store w.now id msg }
  | .fetch c order =>
    let config := withDefaults c
    match store.fetch w.store w.now order config.batchSize config.visibility with
    | none => none
    | some (records,s) => some { w with store := s,workers := w.workers ++ [fetched w.now config records] }
  | .publish i err =>
    match w.workers[i]? with
    | none => none
    | some worker =>
      match worker.outcome, worker.tasks with
      | none,task :: _ =>
        some { w with
          workers := w.workers.set i { worker with outcome := some (deliver worker.config w.now task.record err) }
          published := if err = none then w.published ++ [task.record.id] else w.published }
      | _,_ => none
  | .report i ok =>
    match w.workers[i]? with
    | none => none
    | some worker =>
      match worker.outcome, worker.tasks with
      | some outcome,task :: rest =>
        some { w with
          workers := w.workers.set i { worker with outcome := none,tasks := rest }
          store := if ok then report store w.store w.now task.record.id outcome else w.store }
      | _,_ => none
  | .close => some { w with store := store.close w.store }

inductive Stepped (w : World σ) : Act → World σ → Prop where
  | tick (d : Nat) : Stepped w (.tick d) { w with now := w.now + d }
  | enqueued (id : String) (msg : Message) :
      Stepped w (.enqueue id msg) { w with store := store.enqueue w.store w.now id msg }
  | fetched (config : RelayConfig) (order : List String) {records : List Record} {s : σ}
      (claims : store.fetch w.store w.now order (withDefaults config).batchSize (withDefaults config).visibility =
        some (records,s)) :
      Stepped w (.fetch config order)
        { w with store := s,workers := w.workers ++ [fetched w.now (withDefaults config) records] }
  | published (err : Option String)
      (listed : w.workers[i]? = some worker) (idle : worker.outcome = none) (tasks : worker.tasks = task :: rest) :
      Stepped w (.publish i err)
        { w with
          workers := w.workers.set i { worker with outcome := some (deliver worker.config w.now task.record err) }
          published := if err = none then w.published ++ [task.record.id] else w.published }
  | reported {i : Nat} {worker : Worker} {task : Task} {rest : List Task} {outcome : Outcome} (ok : Bool)
      (listed : w.workers[i]? = some worker) (decided : worker.outcome = some outcome) (tasks : worker.tasks = task :: rest) :
      Stepped w (.report i ok)
        { w with
          workers := w.workers.set i { worker with outcome := none,tasks := rest }
          store := if ok then report store w.store w.now task.record.id outcome else w.store }
  | closed : Stepped w .close { w with store := store.close w.store }

variable {store} {w next : World σ}

theorem steppedOf (ran : step store w a = some next) : Stepped store w a next := by
  cases a with
  | tick d => cases ran; exact .tick d
  | enqueue id msg => cases ran; exact .enqueued id msg
  | fetch config order =>
    simp only [step] at ran
    split at ran <;> cases ran
    exact .fetched config order ‹_›
  | publish i err =>
    simp only [step] at ran
    split at ran <;> try contradiction
    rename_i ith
    split at ran <;> cases ran
    rename_i idle tasks
    exact .published err ith idle tasks
  | report i ok =>
    simp only [step] at ran
    split at ran <;> try contradiction
    rename_i ith
    split at ran <;> cases ran
    rename_i decided tasks
    exact .reported ok ith decided tasks
  | close => cases ran; exact .closed
end

abbrev View := Fence.Item Status
def memoryView (s : MemoryStore) (id : String) : Option View :=
  (s.table.records id).map fun rec => ⟨rec.status,rec.attempts,max rec.availableAt ((s.leases id).getD 0)⟩

def sqlView (s : SQLStore) (id : String) : Option View :=
  (s.table.records id).map fun rec => ⟨rec.status,rec.attempts,rec.availableAt⟩

def after : Outcome → Status → Status
  | .delivered,_ => .delivered
  | .dead _,_ => .dead
  | .retry _ _,status => status

structure Fetched {σ : Type} (view : σ → String → Option View) (now : Nat) (visibility : Int) (s next : σ) (rec : Record)
    (v : View) : Prop where
  was : view s rec.id = some v
  pending : v.status = .pending
  due : v.due ≤ now
  attempts : rec.attempts = v.epoch + 1
  becomes : view next rec.id = some ⟨v.status,rec.attempts,now + visibility.toNat⟩

structure Lawful {σ : Type} (store : Store σ) (view : σ → String → Option View) : Prop where
  enqueued : ∀ s now id msg k, view (store.enqueue s now id msg) k = view s k ∨
    k = id ∧ ∃ due, view (store.enqueue s now id msg) k = some ⟨.pending,0,due⟩
  distinct : ∀ {s now order limit visibility records next},
    store.fetch s now order limit visibility = some (records,next) → (records.map Record.id).Nodup
  fetched : ∀ {s now order limit visibility records next},
    store.fetch s now order limit visibility = some (records,next) →
    ∀ rec ∈ records, ∃ v, Fetched view now visibility s next rec v
  unfetched : ∀ {s now order limit visibility records next},
    store.fetch s now order limit visibility = some (records,next) →
    ∀ k, k ∉ records.map Record.id → view next k = view s k
  reported : ∀ s now id outcome k, view (report store s now id outcome) k = view s k ∨
    k = id ∧ ∃ v due, view s k = some v ∧ view (report store s now id outcome) k = some ⟨after outcome v.status,v.epoch,due⟩
  closed : ∀ s k, view (store.close s) k = view s k

end Gofly.OutboxRelay
