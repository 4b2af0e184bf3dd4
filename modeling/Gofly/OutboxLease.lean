import Gofly.OutboxStores
import Gofly.Weights

/-! The outbox as a ledger of fenced claims. A task is a claim on its record, with the attempts
of its Fetch for the epoch. -/
namespace Gofly.OutboxLease
open Transition Weights Outbox OutboxRelay Fence OutboxStores

def claim (task : Task) : Fence.Claim String := ⟨task.record.id,task.record.attempts,task.leaseUntil⟩
def claims (workers : List Worker) : List (Fence.Claim String) := workers.flatMap fun worker => worker.tasks.map claim
def Pending (status : Status) : Prop := status = .pending

section
variable {σ : Type} (store : Store σ) (view : σ → String → Option View)

def ledger (w : World σ) : Fence.Ledger String Status := ⟨w.now,view w.store,claims w.workers⟩

def fenced (w : World σ) : Act → Bool
  | .enqueue id _ => (view w.store id).isNone
  | .report i ok =>
    match w.workers[i]? with
    | some ⟨_,_,task :: _⟩ => !ok || (view w.store task.record.id).any fun v => v.epoch = task.record.attempts
    | _ => true
  | _ => true

def Published (w : World σ) : Prop :=
  ∀ id v, view w.store id = some v → v.status = .delivered → id ∈ w.published

def Decided (w : World σ) : Prop :=
  ∀ worker ∈ w.workers, ∀ task rest, worker.tasks = task :: rest → worker.outcome = some .delivered →
    task.record.id ∈ w.published

variable {store view} {w next : World σ}

theorem claimsSame (ith : workers[i]? = some x) (eq : y.tasks = x.tasks) :
    claims (workers.set i y) = claims workers := by
  rw [claims,claims,List.flatMap_def,List.flatMap_def,mapSet ith (by rw [eq])]

theorem claimsSplit (ith : workers[i]? = some x) (tasks : x.tasks = task :: rest) (left : y.tasks = rest) :
    ∃ old after, claims workers = old ++ claim task :: after ∧ claims (workers.set i y) = old ++ after := by
  obtain ⟨mem,rfl⟩ := List.getElem_of_getElem? ith
  refine ⟨claims (workers.take i),rest.map claim ++ claims (workers.drop (i + 1)),?_,?_⟩
  · have whole : claims workers = claims (workers.take i ++ workers[i] :: workers.drop (i + 1)) :=
      congrArg claims (by simp)
    rw [whole]
    simp only [claims,List.flatMap_append,List.flatMap_cons,tasks,List.map_cons,List.cons_append]
  rw [List.set_eq_take_append_cons_drop,if_pos mem]
  simp [claims,left]

theorem stepMoves (lawful : Lawful store view) (fits : fenced view w a = true) (ran : step store w a = some next) :
    Move Pending (ledger view w) (ledger view next) := by
  have eq (items : view next.store = view w.store) (now : next.now = w.now) (held : claims next.workers = claims w.workers) :
      Move Pending (ledger view w) (ledger view next) := by
    have equal : ledger view next = ledger view w := by simp only [ledger,items,now,held]
    rw [equal]
    exact .wait 0
  cases steppedOf ran with
  | tick d => exact .wait d
  | enqueued id msg =>
    have gone : view w.store id = none := by simpa [fenced] using fits
    refine .add id gone (fun k other => ?_) rfl rfl
    rcases lawful.enqueued w.store w.now id msg k with kept | ⟨here,_⟩
    · exact kept
    exact absurd here other
  | fetched config order got =>
    rename_i recs s
    have items : (recs.map fun rec => claim ⟨rec,w.now + (withDefaults config).visibility.toNat⟩).map Claim.item =
        recs.map Record.id := by
      rw [List.map_map]
      rfl
    refine .grant (recs.map fun rec => claim ⟨rec,w.now + (withDefaults config).visibility.toNat⟩) ?_ (fun c mem => ?_)
      (fun k outside => ?_) rfl ?_
    · rw [items]
      exact lawful.distinct got
    · obtain ⟨rec,isFetched,rfl⟩ := List.mem_map.mp mem
      obtain ⟨v,was,pending,due,attempts,becomes⟩ := lawful.fetched got rec isFetched
      exact ⟨v,was,pending,due,attempts,becomes⟩
    · rw [items] at outside
      exact lawful.unfetched got k outside
    simp [ledger,claims,fetched]
  | published err ith => exact eq rfl rfl (claimsSame ith rfl)
  | closed => exact eq (funext fun k => lawful.closed w.store k) rfl rfl
  | reported ok ith decided tasks =>
    rename_i worker task rest outcome
    obtain ⟨old,after,held,left⟩ := claimsSplit (y := { worker with outcome := none,tasks := rest }) ith tasks rfl
    cases ok with
    | false => exact .settle (claim task) held left rfl (fun _ _ => rfl) (.inl rfl)
    | true =>
      have newest : (view w.store task.record.id).any (fun v => v.epoch = task.record.attempts) = true := by
        obtain ⟨config,_,_⟩ := worker
        cases tasks
        simpa [fenced,ith] using fits
      refine .settle (claim task) held left rfl (fun k other => ?_) ?_
      · rcases lawful.reported w.store w.now task.record.id outcome k with kept | ⟨here,_⟩
        · exact kept
        · exact absurd here other
      rcases lawful.reported w.store w.now task.record.id outcome task.record.id with kept | ⟨_,v,due,was,becomes⟩
      · exact .inl kept
      rw [was] at newest
      exact .inr ⟨v,_,due,was,by simpa [claim] using newest,becomes⟩

theorem startFenced (empty now) : Fenced Pending (ledger view (start empty now)) where
  single := List.nodup_nil
  stands c member := by cases member

theorem ranFenced (lawful : Lawful store view)
    (ran : Trace (step store) (fun w a => fenced view w a = true) (start empty now) as w) :
    Fenced Pending (ledger view w) :=
  traceInvariant (P := fun w => Fenced Pending (ledger view w))
    (fun _ _ _ o fits moved => moveFenced (stepMoves lawful fits moved) o) ran (startFenced empty now)

theorem terminalStays (lawful : Lawful store view) (o : Fenced Pending (ledger view w))
    (later : Trace (step store) (fun w a => fenced view w a = true) w bs next) {id}
    (was : (view w.store id).map Item.status = some status) (ended : status ≠ .pending) :
    (view next.store id).map Item.status = some status := by
  have both := traceInvariant
    (P := fun w => Fenced Pending (ledger view w) ∧ (view w.store id).map Item.status = some status)
    (fun _ _ _ o fits ran => by
      obtain ⟨x,got,rfl⟩ := Option.map_eq_some_iff.mp o.2
      have move := stepMoves lawful fits ran
      obtain ⟨y,isNow,eq⟩ := statusFinal move o.1 got ended
      exact ⟨moveFenced move o.1,Option.map_eq_some_iff.mpr ⟨y,isNow,eq⟩⟩) later ⟨o,was⟩
  exact both.2

theorem deliveredSent (sent : deliver config now rec err = .delivered) : err = none := by
  cases err with
  | none => rfl
  | some =>
    simp only [deliver] at sent
    split at sent <;> cases sent

theorem sentStays {id} (already : id ∈ published) (err : Option String) (other : String) :
    id ∈ if err = none then published ++ [other] else published := by
  split
  · exact List.mem_append_left _ already
  exact already

theorem stepPublished (lawful : Lawful store view) (ran : step store w a = some next) (decided : Decided w)
    (o : Published view w) : Published view next := by
  cases steppedOf ran with
  | tick => exact o
  | enqueued id msg =>
    intro k v found delivered
    rcases lawful.enqueued w.store w.now id msg k with kept | ⟨_,due,isNew⟩
    · exact o k v (kept.symm.trans found) delivered
    rw [isNew] at found
    cases found
    cases delivered
  | fetched _ _ got =>
    rename_i recs s
    intro k v found delivered
    by_cases taken : k ∈ recs.map Record.id
    · obtain ⟨rec,isFetched,rfl⟩ := List.mem_map.mp taken
      obtain ⟨x,was,pending,_,_,becomes⟩ := lawful.fetched got rec isFetched
      rw [becomes] at found
      cases found
      rw [pending] at delivered
      cases delivered
    exact o k v ((lawful.unfetched got k taken).symm.trans found) delivered
  | published err =>
    intro k v found delivered
    exact sentStays (o k v found delivered) err _
  | reported ok ith isDecided tasks =>
    rename_i worker task rest outcome
    intro k v found delivered
    cases ok with
    | false => exact o k v found delivered
    | true =>
      rcases lawful.reported w.store w.now task.record.id outcome k with kept | ⟨rfl,x,due,was,becomes⟩
      · exact o k v (kept.symm.trans found) delivered
      have eq := becomes.symm.trans found
      cases eq
      cases outcome with
      | delivered => exact decided worker (List.mem_of_getElem? ith) task rest tasks isDecided
      | dead => cases delivered
      | retry => exact o _ x was delivered
  | closed =>
    intro k v found delivered
    exact o k v ((lawful.closed w.store k).symm.trans found) delivered

theorem stepDecided (ran : step store w a = some next) (o : Decided w) : Decided next := by
  cases steppedOf ran with
  | tick | enqueued | closed => exact o
  | fetched =>
    intro worker mem task rest tasks outcome
    rcases List.mem_append.mp mem with was | isNew
    · exact o worker was task rest tasks outcome
    cases List.mem_singleton.mp isNew
    cases outcome
  | published err _ _ tasks =>
    intro other mem first others isFirst outcome
    rcases List.mem_or_eq_of_mem_set mem with was | rfl
    · exact sentStays (o other was first others isFirst outcome) err _
    have sent := deliveredSent (Option.some.inj outcome)
    rw [if_pos sent]
    obtain ⟨rfl,_⟩ := List.cons.inj (tasks.symm.trans isFirst)
    exact List.mem_append_right _ (List.mem_singleton_self _)
  | reported =>
    intro other mem first others isFirst outcome
    rcases List.mem_or_eq_of_mem_set mem with was | rfl
    · exact o other was first others isFirst outcome
    cases outcome
end

inductive Backend where
  | memory | sql
  deriving DecidableEq

namespace Backend

def State : Backend → Type
  | memory => MemoryStore
  | sql => SQLStore

def store : (b : Backend) → Store b.State
  | memory => OutboxRelay.memory
  | sql => OutboxRelay.sql

def view : (b : Backend) → b.State → String → Option View
  | memory => memoryView
  | sql => sqlView

def empty : (b : Backend) → b.State
  | memory => ⟨Table.empty,fun _ => none,false⟩
  | sql => ⟨Table.empty⟩

theorem lawful : (b : Backend) → Lawful b.store b.view
  | memory => memoryLawful
  | sql => sqlLawful

theorem emptyView (b : Backend) (id) : b.view b.empty id = none := by cases b <;> rfl
end Backend

def status (b : Backend) (w : World b.State) (id : String) : Option Status := (b.view w.store id).map Fence.Item.status

theorem terminalFinal (b : Backend) (now : Nat) (as bs : List Act) (w u : World b.State)
    (ran : Trace (step b.store) Free (start b.empty now) as w) (later : Trace (step b.store) Free w bs u) :
    (∀ id, status b u id = some .delivered → id ∈ u.published) ∧
      (Trace (step b.store) (fun w a => fenced b.view w a = true) (start b.empty now) as w →
        Trace (step b.store) (fun w a => fenced b.view w a = true) w bs u →
        ∀ id ended, status b w id = some ended → ended ≠ .pending → status b u id = some ended) := by
  have kept (w : World b.State) (a : Act) (next : World b.State) (o : Decided w ∧ Published b.view w) (_ : Free w a)
      (moved : step b.store w a = some next) : Decided next ∧ Published b.view next :=
    ⟨stepDecided moved o.1,stepPublished b.lawful moved o.1 o.2⟩
  have first : Decided (start b.empty now) ∧ Published b.view (start b.empty now) := by
    refine ⟨fun worker member => absurd member List.not_mem_nil,fun id v found => ?_⟩
    rw [start,b.emptyView id] at found
    cases found
  have before := traceInvariant (P := fun w => Decided w ∧ Published b.view w) kept ran first
  have sent := traceInvariant (P := fun w => Decided w ∧ Published b.view w) kept later before
  refine ⟨fun id delivered => ?_,fun disciplined laterDisciplined id ended was notPending => ?_⟩
  · obtain ⟨v,found,isDelivered⟩ := Option.map_eq_some_iff.mp delivered
    exact sent.2 id v found isDelivered
  exact terminalStays b.lawful (ranFenced b.lawful disciplined) laterDisciplined was notPending

def order : Message := ⟨"orders","",[],[]⟩
def impatient : RelayConfig := ⟨1,0,10,1,1,1⟩
def patient : RelayConfig := ⟨1,0,10,5,1,1⟩

def retried : List Act :=
  [.enqueue "m" order,.fetch patient ["m"],.publish 0 (some "timeout"),.report 0 true,.tick 1,.fetch patient ["m"],
    .publish 1 none,.report 1 true]

theorem terminalFinalRetried :
    ∃ w u : World Backend.memory.State, status .memory w "m" = some .delivered ∧ "m" ∈ u.published ∧
      status .memory u "m" = some .delivered := by
  have accepted : accepts (step Backend.memory.store) (fun w a => fenced Backend.memory.view w a = true)
      (start Backend.memory.empty 0) retried = true := by decide
  obtain ⟨w,ran,trace⟩ := acceptedTrace accepted
  have seen : ((run (step Backend.memory.store) (start Backend.memory.empty 0) retried).map fun w =>
      (status .memory w "m",accepts (step Backend.memory.store) (fun w a => fenced Backend.memory.view w a = true) w
        [.tick 20,.fetch patient ["m"]])) = some (some .delivered,true) := by decide
  rw [ran] at seen
  obtain ⟨delivered,goesOn⟩ := Prod.mk.inj (Option.some.inj seen)
  obtain ⟨u,ranOn,traceOn⟩ := acceptedTrace goesOn
  obtain ⟨published,final⟩ := terminalFinal .memory 0 _ _ w u (runFree ran) (runFree ranOn)
  have still := final trace traceOn "m" _ delivered (by decide)
  exact ⟨w,u,delivered,published "m" still,still⟩

theorem staleReportKillsDelivered :
    ¬ ∃ b : Backend, ∀ as bs w u, Trace (step b.store) Free (start b.empty 0) as w → Trace (step b.store) Free w bs u →
      ∀ id ended, status b w id = some ended → ended ≠ .pending → status b u id = some ended := by
  rintro ⟨b,final⟩
  have seen : ((run (step b.store) (start b.empty 0)
      [.enqueue "m" order,.fetch impatient ["m"],.tick 10,.fetch impatient ["m"],.publish 1 none,.report 1 true]).map
      fun w => (status b w "m",(run (step b.store) w [.publish 0 (some "timeout"),.report 0 true]).map fun u =>
        status b u "m")) = some (some .delivered,some (some .dead)) := by
    cases b <;> decide
  obtain ⟨w,ran,facts⟩ := Option.map_eq_some_iff.mp seen
  simp only [Prod.mk.injEq] at facts
  obtain ⟨delivered,rest⟩ := facts
  obtain ⟨u,ranOn,dead⟩ := Option.map_eq_some_iff.mp rest
  have same := final _ _ w u (runFree ran) (runFree ranOn) "m" _ delivered (by decide)
  rw [dead] at same
  cases same

def Exclusive (b : Backend) (w : World b.State) : Prop :=
  ∀ worker ∈ w.workers, ∀ task ∈ worker.tasks, w.now < task.leaseUntil → ∀ order limit visibility records s,
    b.store.fetch w.store w.now order limit visibility = some (records,s) → task.record.id ∉ records.map Record.id

theorem leaseExclusion (b : Backend) (now : Nat) (as : List Act) (w : World b.State)
    (ran : Trace (step b.store) (fun w a => fenced b.view w a = true) (start b.empty now) as w) : Exclusive b w := by
  intro worker isWorking task member unexpired order limit visibility records s got taken
  have o := ranFenced b.lawful ran
  obtain ⟨rec,isFetched,same⟩ := List.mem_map.mp taken
  obtain ⟨v,was,_,due,_⟩ := b.lawful.fetched got rec isFetched
  have held : claim task ∈ (ledger b.view w).claims :=
    List.mem_flatMap.mpr ⟨worker,isWorking,List.mem_map_of_mem member⟩
  rw [same] at was
  have excluded := Fence.claimExcludes o held unexpired was
  exact absurd due (Nat.not_le.mpr excluded)

theorem leaseExclusionRetried :
    ∃ w : World Backend.sql.State, (w.workers.map fun worker => worker.tasks.map fun task => (task.record.id,task.leaseUntil)) =
      [[],[("m",11)]] ∧ w.now = 5 ∧ Exclusive .sql w := by
  have accepted : accepts (step Backend.sql.store) (fun w a => fenced Backend.sql.view w a = true)
      (start Backend.sql.empty 0) (retried.take 6 ++ [.publish 1 none,.tick 4]) = true := by decide
  obtain ⟨w,ran,trace⟩ := acceptedTrace accepted
  have seen : ((run (step Backend.sql.store) (start Backend.sql.empty 0) (retried.take 6 ++ [.publish 1 none,.tick 4])).map
      fun w => ((w.workers.map fun worker => worker.tasks.map fun task => (task.record.id,task.leaseUntil)),w.now)) =
      some ([[],[("m",11)]],5) := by decide
  rw [ran] at seen
  obtain ⟨tasks,now⟩ := Prod.mk.inj (Option.some.inj seen)
  exact ⟨w,tasks,now,leaseExclusion .sql 0 _ w trace⟩

theorem staleRetryBreaksLease :
    ¬ ∃ b : Backend, ∀ as w, Trace (step b.store) Free (start b.empty 0) as w → Exclusive b w := by
  rintro ⟨b,exclusive⟩
  have seen : ((run (step b.store) (start b.empty 0)
      [.enqueue "m" order,.fetch patient ["m"],.publish 0 (some "timeout"),.tick 10,.fetch patient ["m"],
        .report 0 true]).map fun w => (w.now,w.workers[1]?.bind fun worker => worker.tasks.head?.map fun task =>
          (task.record.id,task.leaseUntil),(b.store.fetch w.store w.now ["m"] 1 10).map fun got => got.1.map Record.id)) =
      some (10,some ("m",20),some ["m"]) := by
    cases b <;> decide
  obtain ⟨w,ran,facts⟩ := Option.map_eq_some_iff.mp seen
  simp only [Prod.mk.injEq] at facts
  obtain ⟨now,held,got⟩ := facts
  obtain ⟨worker,listed,isHeld⟩ := Option.bind_eq_some_iff.mp held
  obtain ⟨task,first,same⟩ := Option.map_eq_some_iff.mp isHeld
  obtain ⟨⟨records,s⟩,isFetched,ids⟩ := Option.map_eq_some_iff.mp got
  obtain ⟨id,leaseUntil⟩ := Prod.mk.inj same
  refine exclusive _ w (runFree ran) worker (List.mem_of_getElem? listed) task (List.mem_of_head? first) ?_ _ _ _ _ _ isFetched ?_
  · omega
  rw [show records.map Record.id = ["m"] from ids,id]
  exact List.mem_singleton_self _

end Gofly.OutboxLease
