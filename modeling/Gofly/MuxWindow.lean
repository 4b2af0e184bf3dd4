import Gofly.MuxBirth
import Gofly.MuxTasks

/-! The window of one stream. -/
namespace Gofly.MuxWindow
open Transition Weights MuxFrame MuxMessage MuxState MuxTransport MuxSteps MuxObjects MuxTasks MuxIssue MuxBirth Duplex
open Nat (zero_le)

def takesSlot (f : Frame) : Bool :=
  isDataFrame f ∨ kind f.typ = .fin ∨ kind f.typ = .close ∨ kind f.typ = .cancel
def spends (x : UInt64) (f : Frame) : Nat := if f.streamID = x ∧ takesSlot f = true then 1 else 0

def repays (x : UInt64) (f : Frame) : Nat :=
  if f.streamID = x then
    match kind f.typ with
    | .window => f.window.toNat
    | .opens => 1
    | _ => 0
  else 0

def heldTask (x : UInt64) : Task → Nat
  | .connCredit send => if send.id = x then 1 else 0
  | .writeData send => if send.id = x then 1 else 0
  | .write f _ => spends x f
  | _ => 0

def updateTask (x : UInt64) : Task → Nat
  | .write f _ => repays x f
  | _ => 0

def heldLoop (x : UInt64) : Loop → Nat
  | .got f => repays x f
  | _ => 0

def closes (s : Stream) : Nat := s.localDone.toNat + s.localClosed.toNat
def spare (x : UInt64) (s : Stream) : Nat := if s.id = x then s.credit - closes s else 0

def holds (x : UInt64) (t : Transport) : Nat :=
  weigh (spare x) t.objects + weigh (heldTask x) t.tasks + heldLoop x t.loop

def eventSlots (event : Event) : Nat :=
  match event.body with
  | .ok _ => max 1 event.streamWindowUpdate.toNat
  | .error _ => 1

def jobSlots : Job → Nat
  | .opens => 0
  | .data _ => 1
  | .frag _ => 1
  | .last _ => 1
  | .whole _ stream _ => max 1 stream.toNat

def inHand : Loop → Option (Nat × Nat)
  | .accepting ref job => some (ref,jobSlots job)
  | .abandoning ref job => some (ref,jobSlots job)
  | .forsaken ref job => some (ref,jobSlots job)
  | .found ref job => some (ref,jobSlots job)
  | .terminal ref _ _ _ => some (ref,1)
  | .delivering ref event _ => some (ref,eventSlots event)
  | _ => none

def inHandFor (x : UInt64) (ids : List UInt64) (l : Loop) : Nat :=
  match inHand l with
  | some (ref,slots) => if ids[ref]? = some x then slots else 0
  | none => 0

def owedLoop (x : UInt64) (ids : List UInt64) : Loop → Nat
  | .got f => spends x f
  | .relook id _ stream _ => if id = x then max 1 stream.toNat else 0
  | l => inHandFor x ids l

def unfinished (p : WindowPolicy) (a : Assembly) : Nat := if p = .onReceive then a.fragmentCount.toNat else 0

theorem unfinishedEmpty (p) : unfinished p .empty = 0 := by cases p <;> rfl

def queued (p : WindowPolicy) (x : UInt64) (s : Stream) : Nat :=
  if s.id = x then weigh eventSlots s.recv + unfinished p s.assembly else 0

def owes (p : WindowPolicy) (x : UInt64) (t : Transport) : Nat :=
  weigh (queued p x) t.objects + owedLoop x (ids t) t.loop + weigh (updateTask x) t.tasks

def slots (p : WindowPolicy) (x : UInt64) : Ledger Transport Frame := ⟨holds x,owes p x,spends x,repays x⟩
variable {t next : Transport}

theorem seeksSlots {id} (asks : seeks l = some (id,job)) (names) :
    owedLoop x names l = (if id = x then jobSlots job else 0) ∧ heldLoop x l = openLoop x l := by
  cases l with
  | got =>
    simp only [seeks] at asks
    split at asks <;> simp at asks
    all_goals
      obtain ⟨rfl,rfl⟩ := asks
      simp [owedLoop,heldLoop,openLoop,spends,repays,opening,takesSlot,isDataFrame,jobSlots, *]
  | relook =>
    obtain ⟨rfl,rfl⟩ := asks
    exact ⟨rfl,rfl⟩
  | _ => simp [seeks] at asks

theorem creditSpare (obj : t.objects[ref]? = some s) (delta) :
    weigh (spare x) (t.objects.modify ref fun s => addCredit c s delta) ≤
      weigh (spare x) t.objects + if s.id = x then delta else 0 := by
  have more : spare x (addCredit c s delta) ≤ spare x s + if s.id = x then delta else 0 := by
    have most : (addCredit c s delta).credit ≤ s.credit + delta := Nat.min_le_right _ _
    have eq : closes (addCredit c s delta) = closes s := rfl
    rw [spare,spare,show (addCredit c s delta).id = s.id from rfl]
    split <;> omega
  have sum := weighSet (w := spare x) (y := addCredit c s delta) obj
  rw [modifySet obj]
  omega

theorem asyncStream (id delta) : weigh (heldTask x) (sendWindowUpdateAsync id delta) = 0 ∧
      weigh (updateTask x) (sendWindowUpdateAsync id delta) = if id = x then delta.toNat else 0 := by
  unfold sendWindowUpdateAsync
  split
  · rename_i none
    simp [none]
  simp [heldTask,updateTask,spends,repays,windowFrame,takesSlot,isDataFrame,kind]

theorem asyncConnection (delta) : weigh (heldTask x) (sendConnectionWindowUpdateAsync delta) = 0 ∧
      weigh (updateTask x) (sendConnectionWindowUpdateAsync delta) = 0 := by
  unfold sendConnectionWindowUpdateAsync
  split
  · exact ⟨rfl,rfl⟩
  simp [heldTask,updateTask,spends,repays,windowConnFrame,takesSlot,isDataFrame,kind]

theorem fragmentUpdates (id) : weigh (heldTask x) (sendFragmentWindowUpdates c id) = 0 ∧
      weigh (updateTask x) (sendFragmentWindowUpdates c id) =
        if c.streamPolicy = .perFragment ∧ id = x then 1 else 0 := by
  have stream := asyncStream (x := x) id 1
  have conn := asyncConnection (x := x) 1
  simp only [sendFragmentWindowUpdates]
  split <;> split <;> simp_all

theorem receiveUpdates (ref id event) : weigh (heldTask x) (afterReceive ref id event) = 0 ∧
      weigh (updateTask x) (afterReceive ref id event) ≤ if id = x then eventSlots event else 0 := by
  have stream := asyncStream (x := x) id event.streamWindowUpdate
  have conn := asyncConnection (x := x) event.connectionWindowUpdate
  cases body : event.body with
  | error =>
    simp only [afterReceive,body]
    split <;> exact ⟨rfl,zero_le _⟩
  | ok =>
    simp only [afterReceive,eventSlots,body,weighAppend,stream,conn]
    refine ⟨trivial,?_⟩
    split <;> omega

def Sends (t : Transport) : Prop :=
  ∀ task ∈ t.tasks, ∀ send, sending task = some send → (shapes t)[send.ref]? = some (send.id,false,false)

theorem shapeObject {ref : Nat} {id : UInt64} (h : (shapes t)[ref]? = some (id,false,false)) :
    ∃ s, t.objects[ref]? = some s ∧ s.id = id ∧ closes s = 0 := by
  simp only [shapes,List.getElem?_map,Option.map_eq_some_iff,shape,Prod.mk.injEq] at h
  obtain ⟨s,obj,named,done,closed⟩ := h
  exact ⟨s,obj,named,by simp [closes,done,closed]⟩

theorem shapeKept {ref : Nat} (grown : ∃ more, shapes next = shapes t ++ more)
    (h : (shapes t)[ref]? = some one) : (shapes next)[ref]? = some one := by
  obtain ⟨more,grown⟩ := grown
  rw [grown,List.getElem?_append_left (List.getElem_of_getElem? h).1]
  exact h

theorem sendsKept (sends : Sends t) (grown : ∃ more, shapes next = shapes t ++ more)
    (tasks : ∃ more, next.tasks = t.tasks ++ more ∧ ∀ task ∈ more, ∀ send, sending task = some send →
      (shapes t)[send.ref]? = some (send.id,false,false)) : Sends next := by
  obtain ⟨more,tasks,new⟩ := tasks
  intro task mem send isSend
  rw [tasks,List.mem_append] at mem
  rcases mem with old | added
  · exact shapeKept grown (sends task old send isSend)
  exact shapeKept grown (new task added send isSend)

theorem heldFalls (objects : weigh (spare x) next.objects ≤ weigh (spare x) t.objects)
    (tasks : ∃ more, next.tasks = t.tasks ++ more ∧ weigh (heldTask x) more = 0)
    (loop : heldLoop x next.loop ≤ heldLoop x t.loop) : holds x next ≤ holds x t := by
  obtain ⟨more,tasks,free⟩ := tasks
  simp only [holds,tasks,weighAppend]
  omega

inductive Held (c : Config) (x : UInt64) (t : Transport) (out : List Frame) (next : Transport) : Prop where
  | kept (same : ids next = ids t) (fewer : holds x next + weigh (spends x) out ≤ holds x t)
  | accepted {id : UInt64} (opens : openLoop id t.loop = 1) (grown : ids next = ids t ++ [id])
      (fewer : holds x next + weigh (spends x) out + (if id = x then 1 else 0) ≤
        holds x t + if id = x then c.receiveQueueSize else 0)
  | registered {id : UInt64} {index : Nat} (listed : t.tasks[index]? = some (.register id)) (grown : ids next = ids t ++ [id])
      (fewer : holds x next + weigh (spends x) out ≤ holds x t + if id = x then c.receiveQueueSize else 0)

theorem cancelSpends (id code reason) : spends x (cancelFrame id code reason) = if id = x then 1 else 0 := by
  simp [spends,takesSlot,cancelFrame,kind]

theorem createdSpare (id) : weigh (spare x) (createStream c t id).objects =
      weigh (spare x) t.objects + if id = x then c.receiveQueueSize else 0 := by
  simp [spare,newStream,closes]

theorem soughtHeld {id} (h : Sought c t id job next)
    (asks : seeks t.loop = some (id,job)) (fits : addressed t = true) : Held c x t [] next := by
  cases h with
  | found => exact .kept rfl (heldFalls le_rfl ⟨[],by simp,rfl⟩ (zero_le _))
  | rejected gone =>
    have opens := addressedExact asks fits gone
    subst opens
    have held := (seeksSlots (x := x) asks []).2
    rw [seeksOpens asks] at held
    have idle : heldLoop x .idle = 0 := rfl
    refine .kept rfl ?_
    simp only [holds,rejectStream,spawn,weighAppend,weighCons,weighNil,heldTask,cancelSpends]
    omega
  | created gone =>
    have opens := addressedExact asks fits gone
    subst opens
    have held := (seeksSlots (x := x) asks []).2
    rw [seeksOpens asks] at held
    have quiet : heldLoop x (if t.closed then Loop.found t.objects.length .opens
        else .accepting t.objects.length .opens) = 0 := by split <;> rfl
    have more := createdSpare (c := c) (t := t) (x := x) id
    refine .accepted (by rw [seeksOpens asks,if_pos rfl]) (createdIDs id) ?_
    simp only [holds,createStream] at more ⊢
    simp only [weighNil]
    omega

theorem dispatchedHeld (h : Dispatched c t f next) (here : t.loop = .got f)
    (fits : addressed t = true) : Held c x t [] next := by
  cases h with
  | sought asks h => exact soughtHeld h (here ▸ asks) fits
  | @windowed _ isWindow known =>
    obtain ⟨s,obj,named⟩ := lookedUp known
    have more := creditSpare (c := c) (x := x) obj f.window.toNat
    have amount : heldLoop x t.loop = if s.id = x then f.window.toNat else 0 := by
      rw [here,named]
      simp [heldLoop,repays,isWindow]
    have idle : heldLoop x .idle = 0 := rfl
    refine .kept (idsSame (shapesModify t _ fun _ => rfl)) ?_
    simp only [holds,weighNil]
    omega
  | ponged =>
    exact .kept rfl (heldFalls le_rfl
      ⟨_,rfl,by simp [heldTask,spends,takesSlot,isDataFrame,pongFrame,kind]⟩ (zero_le _))
  | _ => exact .kept rfl (heldFalls le_rfl ⟨[],by simp,rfl⟩ (zero_le _))

theorem foundHeld (h : Found c t ref s job next) (obj : t.objects[ref]? = some s) : Held c x t [] next := by
  have eq := idsSame (foundShapes obj h)
  cases h with
  | appended =>
    exact .kept eq (heldFalls (weighFalls obj le_rfl) ⟨_,rfl,(fragmentUpdates s.id).1⟩ (zero_le _))
  | lastTooLong => exact .kept eq (heldFalls (weighFalls obj le_rfl) ⟨[],by simp,rfl⟩ (zero_le _))
  | assembled =>
    refine .kept eq (heldFalls (weighFalls obj le_rfl) ⟨_,rfl,?_⟩ (zero_le _))
    split
    · rfl
    exact (fragmentUpdates s.id).1
  | _ => exact .kept eq (heldFalls le_rfl ⟨[],by simp,rfl⟩ (zero_le _))

theorem failAllTasks (t err) : ∃ more, (failAll t err).tasks = t.tasks ++ more ∧ weigh (heldTask x) more = 0 := by
  unfold failAll
  split
  · exact ⟨[],by simp,rfl⟩
  exact ⟨_,rfl,rfl⟩

theorem deliveredSpare (h : Delivered c t s event ok u) : spare x u ≤ spare x s := by cases h <;> exact le_rfl

theorem loopedHeld (h : Looped c t ok next) (fits : addressed t = true) : Held c x t [] next := by
  cases h with
  | dispatched here h => exact dispatchedHeld h here fits
  | relooked here h => exact soughtHeld h (by rw [here]; rfl) fits
  | removed | accepted | unacceptedTold => exact .kept rfl (heldFalls le_rfl ⟨[],by simp,rfl⟩ (zero_le _))
  | @failed err => exact .kept (by simp [ids]) (heldFalls (by simp) (failAllTasks t err) (zero_le _))
  | found _ obj h => exact foundHeld h obj
  | abandoned _ obj h =>
    exact .kept (idsSame (shapesSet obj (deliveredShape h)))
      (heldFalls (weighFalls obj (deliveredSpare h)) ⟨[],by simp,rfl⟩ (zero_le _))
  | @already _ _ remove =>
    exact .kept rfl (heldFalls le_rfl ⟨[],by simp,rfl⟩ (by cases remove <;> exact zero_le _))
  | @delivered _ _ remove _ _ _ obj h =>
    exact .kept (idsSame (shapesSet obj (deliveredShape h)))
      (heldFalls (weighFalls obj (deliveredSpare h)) ⟨[],by simp,rfl⟩ (by cases remove <;> exact zero_le _))
  | unaccepted _ _ obj | forsaken _ obj | aborted _ obj | marked _ obj =>
    exact .kept (idsSet obj rfl) (heldFalls (weighFalls obj le_rfl) ⟨[],by simp,rfl⟩ (zero_le _))

theorem dataSpends (send : Sending) (mem : f ∈ send.todo) :
    spends x f = (if send.id = x then 1 else 0) ∧ repays x f = 0 := by
  obtain ⟨named,plain⟩ := send.plain f mem
  refine ⟨by simp [spends,takesSlot,plain,named],?_⟩
  simp only [isDataFrame,decide_eq_true_eq] at plain
  rcases plain with isKind | isKind | isKind <;> simp [repays,isKind]

theorem ranHeld (h : Ran c t ok task next out)
    (own : ∀ send, sending task = some send → (shapes t)[send.ref]? = some (send.id,false,false)) :
    (ids next = ids t ∧ holds x next + weigh (spends x) out ≤ holds x t + heldTask x task) ∨
      ∃ id, task = .register id ∧ ids next = ids t ++ [id] ∧
        holds x next + weigh (spends x) out ≤ holds x t + if id = x then c.receiveQueueSize else 0 := by
  have quietly (eq : ids next = ids t) (objects : weigh (spare x) next.objects ≤ weigh (spare x) t.objects)
      (tasks : ∃ more, next.tasks = t.tasks ++ more ∧ weigh (heldTask x) more = 0) (loop : next.loop = t.loop) :
      ids next = ids t ∧ holds x next + 0 ≤ holds x t + heldTask x task :=
    ⟨eq,Nat.le_trans (heldFalls objects tasks (by rw [loop])) (Nat.le_add_right _ _)⟩
  cases h with
  | refused | starved | kept => exact .inl (quietly rfl le_rfl ⟨[],by simp,rfl⟩ rfl)
  | @registered id _ _ h =>
    have free : spends x (openFrame id) = 0 := by simp [spends,takesSlot,isDataFrame,openFrame,kind]
    cases h with
    | found => exact .inl (quietly rfl le_rfl ⟨_,rfl,by simp [heldTask,free]⟩ rfl)
    | created =>
      have more := createdSpare (c := c) (t := t) (x := x) id
      refine .inr ⟨id,rfl,createdIDs id,?_⟩
      simp only [holds,spawn,createStream,weighAppend,weighCons,weighNil,heldTask] at more ⊢
      omega
  | @wrote _ after =>
    refine .inl ⟨by cases after <;> rfl,?_⟩
    have objects : (afterWrite t after).objects = t.objects := by cases after <;> rfl
    have loop : (afterWrite t after).loop = t.loop := by cases after <;> rfl
    have tasks : weigh (heldTask x) (afterWrite t after).tasks = weigh (heldTask x) t.tasks := by
      cases after <;> simp [afterWrite,heldTask]
    simp only [holds,objects,loop,weighCons,weighNil,heldTask]
    omega
  | @unwritten _ after => cases after <;> exact .inl (quietly rfl le_rfl ⟨[],by simp [afterWriteError],rfl⟩ rfl)
  | @credited send s obj credit =>
    obtain ⟨u,eq,named,unclosed⟩ := shapeObject (own send rfl)
    rw [obj] at eq
    cases eq
    have sum := weighSet (w := spare x) (y := { s with credit := s.credit - 1 }) obj
    have old : spare x s = if send.id = x then s.credit else 0 := by rw [spare,named,unclosed]; rfl
    have after : spare x { s with credit := s.credit - 1 } = if send.id = x then s.credit - 1 else 0 := by
      rw [← named]
      exact congrArg (fun n => if s.id = x then s.credit - 1 - n else 0) unclosed
    refine .inl ⟨idsSet obj rfl,?_⟩
    simp only [holds,spawn,setStream,weighAppend,weighCons,weighNil,heldTask]
    by_cases named : send.id = x
    · simp only [named,if_true] at old after ⊢
      omega
    simp only [named,if_false] at old after ⊢
    omega
  | connected =>
    refine .inl ⟨rfl,?_⟩
    simp only [holds,spawn,weighAppend,weighCons,weighNil,heldTask]
    omega
  | @unconnected send =>
    obtain ⟨s,obj,named,_⟩ := shapeObject (own send rfl)
    have more := creditSpare (c := c) (x := x) obj 1
    refine .inl ⟨idsSame (shapesModify t _ fun _ => rfl),?_⟩
    simp only [holds,releaseCredit,weighNil,heldTask,← named]
    omega
  | @sentLast send f todo =>
    have one := (dataSpends (x := x) send (f := f) (by simp [todo])).1
    exact .inl ⟨rfl,by simp [holds,heldTask,one]⟩
  | @sentMore send f _ todo =>
    have one := (dataSpends (x := x) send (f := f) (by simp [todo])).1
    refine .inl ⟨rfl,?_⟩
    simp only [holds,spawn,weighAppend,weighCons,weighNil,heldTask]
    omega
  | @unsent send =>
    obtain ⟨s,obj,named,_⟩ := shapeObject (own send rfl)
    have more := creditSpare (c := c) (x := x) obj 1
    refine .inl ⟨idsSame (shapesModify t _ fun _ => rfl),?_⟩
    simp only [holds,releaseCredit,addConnectionCredit,weighNil,heldTask,← named]
    omega
  | removed =>
    refine .inl (quietly rfl le_rfl ⟨_,rfl,?_⟩ rfl)
    cases lookupStream t _ <;> rfl
  | closedDone obj => exact .inl (quietly (idsSet obj rfl) (weighFalls obj le_rfl) ⟨[],by simp,rfl⟩ rfl)
  | failedAll => exact .inl (quietly (by simp [ids]) (by simp) ⟨[],by simp,rfl⟩ (by simp))
  | failMarked obj | failDone obj =>
    exact .inl (quietly (idsSet obj rfl) (weighFalls obj le_rfl) ⟨_,rfl,rfl⟩ rfl)
  | failDelivered obj h =>
    exact .inl (quietly (idsSame (shapesSet obj (deliveredShape h)))
      (weighFalls obj (deliveredSpare h)) ⟨_,rfl,rfl⟩ rfl)
  | _ => exact .inl (quietly rfl le_rfl ⟨_,rfl,rfl⟩ rfl)

def spares (t : Transport) (ref : Nat) : Bool :=
  match t.objects[ref]? with
  | none => true
  | some s => closes s < s.credit ∧ ∀ task ∈ t.tasks, ∀ send ∈ sending task, send.ref ≠ ref

def closing (t : Transport) : Act → Bool
  | .closeSend ref _ => spares t ref
  | .closeWithCode ref _ _ => spares t ref
  | _ => true

theorem closeSpends (id code reason) : spends x (closeFrame id code reason) = (if id = x then 1 else 0) ∧
      repays x (closeFrame id code reason) = 0 := by
  unfold closeFrame
  split <;> simp [spends,repays,takesSlot,kind]

theorem finSpends (id reason) :
    spends x (finFrame id reason) = (if id = x then 1 else 0) ∧ repays x (finFrame id reason) = 0 := by
  simp [spends,repays,takesSlot,finFrame,kind]

theorem closedHeld (obj : t.objects[ref]? = some s) (id : u.id = s.id) (credit : u.credit = s.credit)
    (more : closes u = closes s + 1) (left : closes s < s.credit) (ends : spends x f = if s.id = x then 1 else 0) :
    Held c x t [] (spawn (setStream t ref u) [.write f after]) := by
  have sum := weighSet (w := spare x) (y := u) obj
  have less : spare x u + (if s.id = x then 1 else 0) ≤ spare x s := by
    rw [spare,spare,id]
    split <;> omega
  refine .kept (idsSet obj id) ?_
  simp only [holds,spawn,setStream,weighAppend,weighCons,weighNil,heldTask]
  omega

theorem calledHeld (h : Called c t a next) (fits : closing t a = true) : Held c x t [] next := by
  have eq := calledIDs h
  have quietly (objects : weigh (spare x) next.objects ≤ weigh (spare x) t.objects)
      (tasks : ∃ more, next.tasks = t.tasks ++ more ∧ weigh (heldTask x) more = 0) (loop : next.loop = t.loop) :
      Held c x t [] next := .kept eq (heldFalls objects tasks (by rw [loop]))
  cases h with
  | received obj => exact quietly (weighFalls obj le_rfl) ⟨_,rfl,(receiveUpdates _ _ _).1⟩ rfl
  | receivedDone obj => exact quietly (weighFalls obj le_rfl) ⟨[],by simp,rfl⟩ rfl
  | @closeSend _ s reason obj _ may =>
    simp only [closing,spares,obj,decide_eq_true_eq] at fits
    exact closedHeld obj rfl rfl (by simp [closes,may]) fits.1 (finSpends s.id reason).1
  | @closeWithCode _ s code reason obj _ may =>
    simp only [closing,spares,obj,decide_eq_true_eq] at fits
    exact closedHeld obj rfl rfl (by simp [closes,may]) fits.1 (closeSpends s.id code reason).1
  | @keepaliveFail err => exact quietly (by simp) (failAllTasks t err) (by simp)
  | readFail => exact .kept rfl (heldFalls le_rfl ⟨[],by simp,rfl⟩ (zero_le _))
  | drain => exact quietly le_rfl ⟨_,rfl,by simp [heldTask,spends,takesSlot,isDataFrame,goAwayFrame,kind]⟩ rfl
  | sendPing => exact quietly le_rfl ⟨_,rfl,by simp [heldTask,spends,takesSlot,isDataFrame,pingFrame,kind]⟩ rfl
  | acceptStream | drainAgain | closeLate | connFail => exact quietly le_rfl ⟨[],by simp,rfl⟩ rfl
  | _ => exact quietly le_rfl ⟨_,rfl,rfl⟩ rfl

theorem stepHeld (h : Step c t a next out) (sends : Sends t)
    (data : ∀ ok, a = .loop ok → addressed t = true) (shuts : closing t a = true) : Held c x t out next := by
  cases h with
  | called h => exact calledHeld h shuts
  | looped h => exact loopedHeld h (data _ rfl)
  | ran ith h =>
    have taken := weighErase (w := heldTask x) ith
    have own := sends _ (List.mem_of_getElem? ith)
    rcases ranHeld (x := x) h own with ⟨eq,fewer⟩ | ⟨id,rfl,grown,fewer⟩
    · refine .kept eq ?_
      simp only [holds] at fewer ⊢
      omega
    refine .registered ith grown ?_
    simp only [holds] at fewer taken ⊢
    omega

theorem loopedSends (h : Looped c t ok next) (sends : Sends t) : Sends next := by
  obtain ⟨more,tasks,spawned⟩ := loopedSpawns h
  refine sendsKept sends (loopedShapes h) ⟨more,tasks,fun task mem send isSend => ?_⟩
  rcases spawned task mem with small | ⟨_,_,fails⟩
  · simp [(minorExact small).1] at isSend
  cases task <;> simp [failing] at fails <;> simp [sending] at isSend

theorem ranSends (h : Ran c t ok task next out) (sends : Sends t)
    (own : ∀ send, sending task = some send → (shapes t)[send.ref]? = some (send.id,false,false)) : Sends next := by
  obtain ⟨more,tasks,spawned⟩ := ranSpawns h
  refine sendsKept sends (ranShapes h) ⟨more,tasks,fun new mem send isSend => ?_⟩
  cases spawned new mem with
  | opens => simp [sending] at isSend
  | connects | writes =>
    cases isSend
    exact own send rfl
  | @resumes old =>
    cases isSend
    exact own old rfl
  | fails _ is => cases new <;> simp [failing] at is <;> simp [sending] at isSend
  | minor small => simp [(minorExact small).1] at isSend

theorem closedSends (sends : Sends t) (obj : t.objects[ref]? = some s) (fits : spares t ref = true) :
    Sends (spawn (setStream t ref u) [.write f after]) := by
  simp only [spares,obj,decide_eq_true_eq] at fits
  intro task mem send isSend
  simp only [spawn,List.mem_append,List.mem_singleton] at mem
  rcases mem with old | rfl
  · have other := fits.2 task old send (by simp [isSend])
    have here := sends task old send isSend
    simp only [shapes,List.getElem?_map,spawn,setStream] at here ⊢
    rw [List.getElem?_set_ne other.symm]
    exact here
  simp [sending] at isSend

theorem calledSends (h : Called c t a next) (sends : Sends t) (fits : closing t a = true) : Sends next := by
  by_cases stays : (∀ ref reason, a ≠ .closeSend ref reason) ∧ ∀ ref code reason, a ≠ .closeWithCode ref code reason
  · obtain ⟨more,tasks,spawned⟩ := calledSpawns h
    refine sendsKept sends ⟨[],by rw [calledShapes h stays,List.append_nil]⟩
      ⟨more,tasks,fun new mem send isSend => ?_⟩
    cases spawned new mem with
    | registers => simp [sending] at isSend
    | sends obj may =>
      cases isSend
      simp [shapes,shape,obj,may]
    | fails _ _ is => cases new <;> simp [failing] at is <;> simp [sending] at isSend
    | minor small => simp [(minorExact small).1] at isSend
  cases h with
  | closeSend obj | closeWithCode obj => exact closedSends sends obj fits
  | _ => exact absurd ⟨by simp,by simp⟩ stays

theorem stepSends (h : Step c t a next out) (sends : Sends t) (fits : closing t a = true) : Sends next := by
  cases h with
  | called h => exact calledSends h sends fits
  | looped h => exact loopedSends h sends
  | ran ith h =>
    exact ranSends h (fun task mem => sends task (List.mem_of_mem_eraseIdx mem)) (sends _ (List.mem_of_getElem? ith))

end Gofly.MuxWindow
