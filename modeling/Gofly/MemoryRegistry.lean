import Gofly.Discovery
import Gofly.Mailbox
import Gofly.Tasks
import Gofly.Transition
/-! The in-memory registry. A call is a task, and each of its locked sections, sends and clock
readings is one section of that task, so that two calls interleave between them. -/
namespace Gofly.MemoryRegistry
open Discovery Mailbox Tasks Transition Roster

structure MemoryEntry where
  inst : Instance
  expiresAt : Option Int
  ttl : Int

abbrev Entries := AList fun _ : String => MemoryEntry
def registerOptions (ttls : List Int) : Int :=
  ttls.foldl (fun ttl given => if 0 < given then given else ttl) 0
def MemoryEntry.stale (now : Int) (entry : MemoryEntry) : Bool := entry.expiresAt.any (· < now)

structure Resolved where
  entries : Entries
  instances : List Instance
  expired : List Instance

def purge (now : Int) (entries : Entries) : Entries :=
  ⟨entries.entries.filter fun row => !row.2.stale now,
    entries.nodupKeys.sublist List.filter_sublist⟩

def resolveLocked (order : List Nat) (entries : Entries) (options : ResolveOptions) (now : Int) : Resolved :=
  let rows := shuffle order (entries.entries.map Sigma.snd)
  let out := ((rows.filter (!·.stale now)).map (normalizeInstance ·.inst)).filter (instanceMatches · options)
  { entries := purge now entries
    instances := out.insertionSort fun a b => a.endpoint ≤ b.endpoint
    expired := (rows.filter (·.stale now)).map MemoryEntry.inst }

def Resolved.answer (found : Resolved) : Except String (List Instance) :=
  if found.instances = [] then .error "no service instances resolved" else .ok found.instances

structure Watcher where
  service : String
  options : ResolveOptions
  chan : Box Event
  registered : Bool
  opened : Bool
  cancelled : Bool
  last : Option Event

structure MemoryLease where
  inst : Instance
  ttl : Int

structure News where
  service : String
  type : EventType
  inst : Instance
  changes : ChangeSet

inductive Instr where
  | store (entry : MemoryEntry)
  | remove (inst : Instance)
  | extend (inst : Instance) (ttl : Int)
  | resolve (service : String) (options : ResolveOptions) (now : Int)
  | snapshot (now : Int)
  | watchResolve (service : String) (options : ResolveOptions) (now : Int)
  | watchEnter (service : String) (options : ResolveOptions) (instances expired : List Instance)
  | notify (news : News)
  | stamp (news : News) (watchers : List Nat)
  | gather (news : News) (ch : Nat) (now : Int)
  | announce (ch : Nat) (service : String) (instances : List Instance)
  | first (ch : Nat) (event : Event)
  | leave (ch : Nat)
  | deliver (d : Delivery Event)
  | grant (lease : MemoryLease)

structure Registry where
  now : Int
  services : String → Entries
  watchers : List Watcher
  leases : List MemoryLease
  fault : Option Fault

structure World where
  reg : Registry
  tasks : List (List Instr)

structure Luck where
  order : List Nat
  second : List Nat
  passes : Nat

def everything : ResolveOptions := ⟨∅,"","",true⟩
def Registry.setService (r : Registry) (service : String) (entries : Entries) : Registry :=
  { r with services := Function.update r.services service entries }

def Registry.setWatcher (r : Registry) (ch : Nat) (f : Watcher → Watcher) : Registry :=
  { r with watchers := r.watchers.modify ch f }

def Registry.change (r : Registry) (luck : Luck) (type : EventType) (inst : Instance)
    (f : Entries → Entries) : Registry × List Instr :=
  let previous := resolveLocked luck.order (r.services inst.service) everything r.now
  let later := r.now + luck.passes
  let current := resolveLocked luck.second (f previous.entries) everything later
  ({ r.setService inst.service current.entries with now := later },
    [.notify ⟨inst.service,type,inst,diffInstances previous.instances current.instances⟩])

def expiry (inst : Instance) : Instr :=
  .notify ⟨inst.service,.expired,inst,{ noChanges with removed := [inst] }⟩

def Instr.exec (r : Registry) (luck : Luck) : Instr → Option (Registry × List Instr)
  | .store entry => some (r.change luck .registered entry.inst (·.insert entry.inst.id entry))
  | .remove inst => some (r.change luck .deregistered inst (·.erase inst.id))
  | .extend inst ttl =>
    let entries := r.services inst.service
    let entries := match entries.lookup inst.id with
      | some entry => entries.insert inst.id { entry with expiresAt := some (r.now + ttl) }
      | none => entries
    some (r.setService inst.service entries,
      [.notify ⟨inst.service,.updated,inst,{ noChanges with updated := [normalizeInstance inst] }⟩])
  | .resolve service options now =>
    let found := resolveLocked luck.order (r.services service) options now
    some (r.setService service found.entries,found.expired.map expiry)
  | .snapshot now =>
    some ({ r with services := fun service =>
      (resolveLocked luck.order (r.services service) everything now).entries },[])
  | .watchResolve service options now =>
    let found := resolveLocked luck.order (r.services service) options now
    some (r.setService service found.entries,[.watchEnter service options found.instances found.expired])
  | .watchEnter service options instances expired =>
    let watcher : Watcher := ⟨service,options,⟨1,[],false⟩,true,false,false,none⟩
    some ({ r with watchers := r.watchers ++ [watcher] },
      expired.map expiry ++ [.announce r.watchers.length service instances])
  | .notify news =>
    let watchers := places (fun x => x.registered && x.service == news.service) r.watchers
    some (r,if watchers.isEmpty then [] else [.stamp news (shuffle luck.order watchers)])
  | .stamp news watchers => some (r,watchers.map fun ch => .gather news ch r.now)
  | .gather news ch now => do
    let watcher ← r.watchers[ch]?
    let found := resolveLocked luck.order (r.services news.service) watcher.options now
    let event : Event :=
      ⟨news.type,news.service,now,normalizeInstance news.inst,found.instances,news.changes⟩
    some (r.setService news.service found.entries,[.deliver (.send ch event)])
  | .announce ch service instances =>
    some (r,[.first ch ⟨.snapshot,service,r.now,noInstance,instances,noChanges⟩])
  | .first ch event => do
    -- The only send that waits: while the slot is taken there is no step.
    let watcher ← r.watchers[ch]?
    match watcher.chan.offer event false with
    | (chan,.taken) => some (r.setWatcher ch fun x => { x with chan := chan,opened := true },[])
    | (_,.full) => none
    | (_,.fault) => some ({ r with fault := some .sent },[])
  | .leave ch => some (r.setWatcher ch fun x => { x with registered := false },[.deliver (.close ch)])
  | .deliver d => do
    let watcher ← r.watchers[d.channel]?
    let out := Delivery.deliver watcher.chan false d
    some ({ r.setWatcher d.channel fun x => { x with chan := out.box } with fault := out.fault },
      out.pushed.map .deliver)
  | .grant lease => some ({ r with leases := r.leases ++ [lease] },[])

inductive Act where
  | register (inst : Instance) (ttls : List Int)
  | deregister (inst : Instance)
  | keepAlive (lease : Nat)
  | close (lease : Nat)
  | resolve (service : String) (opts : List ResolveOption)
  | snapshot
  | watch (service : String) (opts : List ResolveOption)
  | cancel (ch : Nat)
  | receive (ch : Nat)
  | tick (d : Nat)
  | run (i : Nat) (luck : Luck)

def register (now : Int) (inst : Instance) (ttls : List Int) : List Instr :=
  let inst := normalizeInstance inst
  let ttl := registerOptions ttls
  if inst.service = "" ∨ inst.endpoint = "" then []
  else [.store ⟨inst,if 0 < ttl then some (now + ttl) else none,ttl⟩,.grant ⟨inst,ttl⟩]

def deregister (inst : Instance) : List Instr :=
  let inst := normalizeInstance inst
  if inst.service = "" ∨ inst.id = "" then [] else [.remove inst]

def keepAlive (lease : MemoryLease) : List Instr :=
  if lease.ttl ≤ 0 then [] else [.extend lease.inst lease.ttl]
def World.call (w : World) (task : List Instr) : World := { w with tasks := w.tasks ++ [task] }

def step (w : World) (act : Act) : Option World :=
  if w.reg.fault.isSome then none
  else match act with
  | .register inst ttls => some (w.call (register w.reg.now inst ttls))
  | .deregister inst => some (w.call (deregister inst))
  | .keepAlive lease => (w.reg.leases[lease]?).map fun lease => w.call (keepAlive lease)
  | .close lease => (w.reg.leases[lease]?).map fun lease => w.call (deregister lease.inst)
  | .resolve service opts => some (w.call [.resolve service (applyResolveOptions opts) w.reg.now])
  | .snapshot => some (w.call [.snapshot w.reg.now])
  | .watch service opts => some (w.call [.watchResolve service (applyResolveOptions opts) w.reg.now])
  | .cancel ch => do
    let watcher ← w.reg.watchers[ch]?
    if watcher.opened && !watcher.cancelled then
      some ({ w with reg := w.reg.setWatcher ch fun x => { x with cancelled := true } }.call [.leave ch])
    else none
  | .receive ch => do
    let watcher ← w.reg.watchers[ch]?
    let event ← watcher.chan.queue.head?
    if watcher.opened then
      some { w with reg := w.reg.setWatcher ch fun x => { x with chan := x.chan.poll,last := some event } }
    else none
  | .tick d => some { w with reg := { w.reg with now := w.reg.now + d } }
  | .run i luck =>
    match w.tasks[i]? with
    | some (x :: rest) => do
      let (reg,pushed) ← x.exec w.reg luck
      some { reg := reg,tasks := turn w.tasks i pushed rest }
    | _ => none

def start (now : Int) : World := ⟨⟨now,fun _ => ∅,[],[],none⟩,[]⟩

def isOpening (now : Int) : Instr → Bool
  | .store _ | .remove _ | .grant _ => true
  | .extend _ ttl => 0 < ttl
  | .resolve _ _ t | .snapshot t | .watchResolve _ _ t => t == now
  | _ => false

theorem registerOpening (now inst ttls) : ∀ x ∈ register now inst ttls, isOpening now x = true := by
  unfold register
  simp only
  split <;> simp [isOpening]

theorem deregisterOpening (now inst) : ∀ x ∈ deregister inst, isOpening now x = true := by
  unfold deregister
  simp only
  split <;> simp [isOpening]

theorem keepAliveOpening (now lease) : ∀ x ∈ keepAlive lease, isOpening now x = true := by
  unfold keepAlive
  split <;> simp_all [isOpening]

inductive Moved (w : World) : Act → World → Prop where
  | call {act : Act} {task : List Instr} (opening : ∀ x ∈ task, isOpening w.reg.now x = true) :
      Moved w act (w.call task)
  | cancel (seen : w.reg.watchers[ch]? = some y) (opened : y.opened = true)
      (fresh : y.cancelled = false) :
      Moved w (.cancel ch)
        ({ w with reg := w.reg.setWatcher ch fun x => { x with cancelled := true } }.call [.leave ch])
  | receive (seen : w.reg.watchers[ch]? = some y)
      (head : y.chan.queue.head? = some event) (opened : y.opened = true) :
      Moved w (.receive ch)
        { w with reg := w.reg.setWatcher ch fun x => { x with chan := x.chan.poll,last := some event } }
  | tick (d : Nat) : Moved w (.tick d) { w with reg := { w.reg with now := w.reg.now + d } }
  | run {i : Nat} {luck : Luck} {x : Instr} {rest pushed : List Instr} {reg : Registry}
      (found : w.tasks[i]? = some (x :: rest)) (ran : x.exec w.reg luck = some (reg,pushed)) :
      Moved w (.run i luck) ⟨reg,turn w.tasks i pushed rest⟩

theorem stepMoved (moved : step w act = some next) : Moved w act next := by
  simp only [step] at moved
  split at moved <;> try contradiction
  cases act with
  | register inst ttls =>
    cases moved
    exact .call (registerOpening _ inst ttls)
  | deregister inst =>
    cases moved
    exact .call (deregisterOpening _ inst)
  | keepAlive =>
    obtain ⟨lease,_,rfl⟩ := Option.map_eq_some_iff.mp moved
    exact .call (keepAliveOpening _ lease)
  | close =>
    obtain ⟨lease,_,rfl⟩ := Option.map_eq_some_iff.mp moved
    exact .call (deregisterOpening _ lease.inst)
  | resolve | snapshot | watch =>
    cases moved
    exact .call (by simp [isOpening])
  | cancel =>
    obtain ⟨y,seen,done⟩ := Option.bind_eq_some_iff.mp moved
    split at done <;> cases done
    rename_i both
    simp only [Bool.and_eq_true,Bool.not_eq_true'] at both
    exact .cancel seen both.1 both.2
  | receive =>
    obtain ⟨y,seen,later⟩ := Option.bind_eq_some_iff.mp moved
    obtain ⟨event,head,done⟩ := Option.bind_eq_some_iff.mp later
    split at done <;> cases done
    exact .receive seen head ‹_›
  | tick d =>
    cases moved
    exact .tick d
  | run =>
    simp only at moved
    split at moved <;> try contradiction
    rename_i got
    obtain ⟨⟨reg,pushed⟩,ran,done⟩ := Option.bind_eq_some_iff.mp moved
    cases done
    exact .run got ran

def listed (entries : Entries) (options : ResolveOptions) : List Instance :=
  (entries.entries.map fun row => normalizeInstance row.2.inst).filter (instanceMatches · options)

def Fresh (now : Int) (entries : Entries) : Prop := ∀ row ∈ entries.entries, row.2.stale now = false
instance (now : Int) (entries : Entries) : Decidable (Fresh now entries) :=
  inferInstanceAs (Decidable (∀ row ∈ entries.entries, row.2.stale now = false))

variable {entries : Entries}

theorem purgeFresh (fresh : Fresh t entries) : purge t entries = entries := by
  refine AList.ext (List.filter_eq_self.mpr fun row mem => ?_)
  simp [fresh row mem]

theorem resolvePurges (order entries options now) :
    (resolveLocked order entries options now).entries = purge now entries := rfl

theorem resolveListed (fresh : Fresh t entries) (order options) :
    (resolveLocked order entries options t).instances.Perm (listed entries options) := by
  have alive : (shuffle order (entries.entries.map Sigma.snd)).filter (!·.stale t) =
      shuffle order (entries.entries.map Sigma.snd) := by
    refine List.filter_eq_self.mpr fun entry mem => ?_
    obtain ⟨row,inside,rfl⟩ := List.mem_map.mp ((shufflePerm order _).mem_iff.mp mem)
    simp [fresh row inside]
  unfold resolveLocked listed
  simp only [alive]
  refine (List.perm_insertionSort _ _).trans (List.Perm.filter _ ?_)
  have mapped := (shufflePerm order (entries.entries.map Sigma.snd)).map fun entry =>
    normalizeInstance entry.inst
  rwa [List.map_map] at mapped

theorem resolveExpired (fresh : Fresh t entries) (order options) :
    (resolveLocked order entries options t).expired = [] := by
  refine List.map_eq_nil_iff.mpr (List.filter_eq_nil_iff.mpr fun entry mem => ?_)
  obtain ⟨row,inside,rfl⟩ := List.mem_map.mp ((shufflePerm order _).mem_iff.mp mem)
  simp [fresh row inside]

theorem staleExpired (mem : row ∈ entries.entries) (stale : row.2.stale t = true) (order options) :
    row.2.inst ∈ (resolveLocked order entries options t).expired := by
  refine List.mem_map_of_mem (List.mem_filter.mpr ⟨?_,stale⟩)
  exact (shufflePerm order _).mem_iff.mpr (List.mem_map_of_mem mem)

def Placed (services : String → Entries) : Prop :=
  ∀ service, ∀ row ∈ (services service).entries, row.2.inst.service = service

def isNotify (service : String) : Instr → Bool
  | .notify news => news.service == service
  | _ => false

section
variable {r : Registry} {x : Instr}

theorem setServiceOther (r : Registry) (entries) (ne : service ≠ other) :
    (r.setService other entries).services service = r.services service := by
  simp [Registry.setService,ne]

theorem setServiceHere (r : Registry) (entries) : (r.setService service entries).services service = entries := by
  simp [Registry.setService]

theorem resolveKeeps (fresh : Fresh t (r.services other)) (order options) :
    (r.setService other (resolveLocked order (r.services other) options t).entries).services service =
      r.services service := by
  by_cases here : service = other
  · subst here
    rw [setServiceHere,resolvePurges,purgeFresh fresh]
  exact setServiceOther r _ here

theorem resolveNotices (placed : Placed r.services) (other order options) :
    (r.setService other (resolveLocked order (r.services other) options t).entries).services service =
        r.services service ∨
      0 < ((resolveLocked order (r.services other) options t).expired.map expiry).countP (isNotify service) := by
  by_cases here : service = other
  · subst here
    by_cases fresh : Fresh t (r.services service)
    · exact .inl (resolveKeeps fresh order options)
    simp only [Fresh,not_forall,Bool.not_eq_false] at fresh
    obtain ⟨row,mem,stale⟩ := fresh
    have noticed := staleExpired mem stale order options
    refine .inr (List.countP_pos_iff.mpr ⟨_,List.mem_map_of_mem noticed,?_⟩)
    simp [expiry,isNotify,placed service row mem]
  exact .inl (setServiceOther r _ here)

theorem changeNotices : (r.change luck type inst f).1.services service = r.services service ∨
      0 < (r.change luck type inst f).2.countP (isNotify service) := by
  by_cases here : service = inst.service
  · exact .inr (by simp [Registry.change,isNotify,here])
  exact .inl (setServiceOther r _ here)

def Finds (r : Registry) : Instr → Prop
  | .watchResolve service _ t => Fresh t (r.services service)
  | .gather news _ t => Fresh t (r.services news.service)
  | .snapshot t => ∀ y ∈ r.watchers, y.registered = true → Fresh t (r.services y.service)
  | _ => True

theorem execServices (ran : x.exec r luck = some (next,pushed)) (placed : Placed r.services)
    (finds : Finds r x) (mem : y ∈ r.watchers) (known : y.registered = true) (eq : y.service = service) :
    next.services service = r.services service ∨ 0 < pushed.countP (isNotify service) := by
  cases x with
  | store | remove =>
    cases ran
    exact changeNotices
  | extend inst =>
    cases ran
    by_cases here : service = inst.service
    · exact .inr (by simp [isNotify,here])
    exact .inl (setServiceOther r _ here)
  | resolve other options =>
    cases ran
    exact resolveNotices placed other luck.order options
  | watchResolve _ options =>
    cases ran
    exact .inl (resolveKeeps finds luck.order options)
  | snapshot =>
    cases ran
    exact .inl (purgeFresh (eq ▸ finds y mem known))
  | gather =>
    obtain ⟨watcher,_,done⟩ := Option.bind_eq_some_iff.mp ran
    cases done
    exact .inl (resolveKeeps finds luck.order watcher.options)
  | first =>
    obtain ⟨watcher,_,done⟩ := Option.bind_eq_some_iff.mp ran
    split at done <;> try contradiction
    all_goals
      cases done
      exact .inl rfl
  | deliver =>
    obtain ⟨watcher,_,done⟩ := Option.bind_eq_some_iff.mp ran
    cases done
    exact .inl rfl
  | watchEnter | notify | stamp | announce | leave | grant =>
    cases ran
    exact .inl rfl

theorem placedSet (placed : Placed r.services) (here : ∀ row ∈ entries.entries, row.2.inst.service = service) :
    Placed (r.setService service entries).services := by
  intro other row mem
  by_cases eq : other = service
  · subst eq
    rw [setServiceHere] at mem
    exact here row mem
  rw [setServiceOther r entries eq] at mem
  exact placed other row mem

theorem placedPurge (placed : ∀ row ∈ entries.entries, row.2.inst.service = service) (t) :
    ∀ row ∈ (purge t entries).entries, row.2.inst.service = service :=
  fun row mem => placed row (List.mem_of_mem_filter mem)

theorem placedInsert (placed : ∀ row ∈ entries.entries, row.2.inst.service = service) (id) (eq : entry.inst.service = service) :
    ∀ row ∈ (entries.insert id entry).entries, row.2.inst.service = service := by
  intro row mem
  rcases List.mem_cons.mp mem with rfl | old
  · exact eq
  exact placed row ((List.kerase_sublist _ _).subset old)

theorem execPlaced (ran : x.exec r luck = some (next,pushed)) (placed : Placed r.services) :
    Placed next.services := by
  have resolved (other : String) (t : Int) : Placed (r.setService other (purge t (r.services other))).services :=
    placedSet placed (placedPurge (placed other) t)
  cases x with
  | store =>
    cases ran
    exact placedSet placed (placedPurge (placedInsert (placedPurge (placed _) _) _ rfl) _)
  | remove =>
    cases ran
    refine placedSet placed (placedPurge (fun row mem => ?_) _)
    exact placedPurge (placed _) _ row ((List.kerase_sublist _ _).subset mem)
  | extend inst =>
    cases ran
    refine placedSet placed ?_
    split
    · rename_i entry got
      refine placedInsert (placed _) _ ?_
      exact placed inst.service ⟨inst.id,entry⟩ (AList.mem_lookup_iff.mp got)
    exact placed inst.service
  | resolve other _ t | watchResolve other _ t =>
    cases ran
    exact resolved other t
  | snapshot t =>
    cases ran
    exact fun service => placedPurge (placed service) t
  | gather news _ t =>
    obtain ⟨watcher,_,done⟩ := Option.bind_eq_some_iff.mp ran
    cases done
    exact resolved news.service t
  | first =>
    obtain ⟨watcher,_,done⟩ := Option.bind_eq_some_iff.mp ran
    split at done <;> try contradiction
    all_goals
      cases done
      exact placed
  | deliver =>
    obtain ⟨watcher,_,done⟩ := Option.bind_eq_some_iff.mp ran
    cases done
    exact placed
  | watchEnter | notify | stamp | announce | leave | grant =>
    cases ran
    exact placed
end
end Gofly.MemoryRegistry
