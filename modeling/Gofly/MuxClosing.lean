import Gofly.MuxAdmission
import Gofly.MuxQueue

/-! What is still delivered to a stream once its transport is closed. -/
namespace Gofly.MuxClosing
open Transition Weights MuxFrame MuxMessage MuxState MuxTransport MuxSteps MuxObjects MuxTasks MuxWindow MuxQueue MuxAdmission
open Nat (zero_le)

def abandonsTo (ref : Nat) : Loop → Nat
  | .abandoning r _ => if r = ref then 1 else 0
  | _ => 0

def hand (ref : Nat) (l : Loop) : Nat :=
  (match inHand l with
    | some (r,slots) => if r = ref then min 1 slots else 0
    | none => 0) + abandonsTo ref l

def fails (ref : Nat) : Task → Nat
  | .failDeliver _ _ r _ => if r = ref then 1 else 0
  | _ => 0

def aims (ref : Nat) : Task → Nat
  | .failMark _ _ refs => if ref ∈ refs then 1 else 0
  | .failDeliver _ _ _ refs => if ref ∈ refs then 1 else 0
  | .failDone _ _ _ refs => if ref ∈ refs then 1 else 0
  | _ => 0

def awaits (ref : Nat) : Loop → Nat
  | .accepting r _ => if r = ref then 1 else 0
  | _ => 0

def load (l : Loop) (tasks : List Task) (ref : Nat) (s : Stream) : Nat :=
  s.recv.length + hand ref l + weigh (fails ref) tasks +
    if s.remoteDone then 0 else min 1 (weigh (aims ref) tasks + awaits ref l)

structure Shut (c : Config) (t : Transport) : Prop where
  streams : t.streams = []
  loads : ∀ ref s, t.objects[ref]? = some s → load t.loop t.tasks ref s ≤ c.receiveQueueSize

theorem stepClosed (h : Step c t a next out) (shut : t.closed = true) : next.closed = true := by
  cases h with
  | called h =>
    cases h with
    | keepaliveFail => exact failAllClosed t _
    | close => rfl
    | _ => exact shut
  | looped h =>
    cases h with
    | dispatched _ h =>
      cases h with
      | sought _ h => cases h <;> exact shut
      | _ => exact shut
    | relooked _ h | found _ _ h => cases h <;> exact shut
    | failed => exact failAllClosed t _
    | _ => exact shut
  | ran _ h =>
    cases h with
    | registered h => cases h <;> exact shut
    | @wrote _ after | @unwritten _ after => cases after <;> exact shut
    | failedAll => simpa using shut
    | _ => exact shut

theorem liveKept (live : Live t) (undone : next.done = t.done) (tasks : Plain t next)
    (loop : abandons next.loop = false) : Live next := by
  obtain ⟨more,tasks,plain⟩ := tasks
  refine ⟨undone.trans live.undone,fun task mem => ?_,loop⟩
  rw [tasks,List.mem_append] at mem
  rcases mem with old | added
  · exact live.tasks task old
  exact plain task added

theorem loopedLive (h : Looped c t ok next) (live : Live t) (stays : next.closed = false) : Live next := by
  have kept (undone : next.done = t.done) (loop : abandons next.loop = false) : Live next :=
    liveKept live undone (loopedPlain h fun _ => stays) loop
  have sought {id : UInt64} {job : Job} (h : Sought c t id job next) : next.done = t.done ∧ abandons next.loop = false := by
    cases h with
    | created =>
      refine ⟨rfl,?_⟩
      split <;> rfl
    | _ => exact ⟨rfl,rfl⟩
  cases h with
  | dispatched _ h =>
    cases h with
    | sought _ h => exact kept (sought h).1 (sought h).2
    | _ => exact kept rfl rfl
  | relooked _ h => exact kept (sought h).1 (sought h).2
  | failed => simp at stays
  | unaccepted _ gone => simp [live.undone] at gone
  | found _ _ h => cases h <;> exact kept rfl rfl
  | @already _ _ remove | @delivered _ _ remove => exact kept rfl (by cases remove <;> rfl)
  | _ => exact kept rfl rfl

theorem ranLive (h : Ran c t ok task next out) (live : Live t) (plain : failing task = false) : Live next := by
  have kept (undone : next.done = t.done) : Live next :=
    liveKept live undone (ranPlain h plain) (by rw [ranLoop h]; exact live.loop)
  cases h with
  | registered h => cases h <;> exact kept rfl
  | @wrote _ after | @unwritten _ after => cases after <;> exact kept rfl
  | failedAll => simp [failing] at plain
  | _ => exact kept rfl

theorem calledLive (h : Called c t a next) (live : Live t) (stays : next.closed = false) : Live next := by
  have kept (undone : next.done = t.done) (loop : next.loop = t.loop) : Live next :=
    liveKept live undone (calledPlain h fun _ => stays) (by rw [loop]; exact live.loop)
  cases h with
  | keepaliveFail | close => simp at stays
  | readFail => exact liveKept live rfl ⟨[],by simp,by simp⟩ rfl
  | _ => exact kept rfl rfl

theorem stepLive (h : Step c t a next out) (live : Live t) (stays : next.closed = false) : Live next := by
  cases h with
  | called h => exact calledLive h live stays
  | looped h => exact loopedLive h live stays
  | ran ith h =>
    exact ranLive h { live with tasks := fun task mem => live.tasks task (List.mem_of_mem_eraseIdx mem) }
      (live.tasks _ (List.mem_of_getElem? ith))

theorem plainTask (plain : failing task = false) (ref) : fails ref task = 0 ∧ aims ref task = 0 := by
  cases task with
  | failMark | failDeliver | failDone => cases plain
  | _ => exact ⟨rfl,rfl⟩

theorem plainWeights (plain : ∀ task ∈ tasks, failing task = false) (ref) :
    weigh (fails ref) tasks = 0 ∧ weigh (aims ref) tasks = 0 :=
  ⟨weighZero fun task mem => (plainTask (plain task mem) ref).1,
    weighZero fun task mem => (plainTask (plain task mem) ref).2⟩

theorem loadFalls (queue : u.recv.length + hand ref l ≤ s.recv.length + hand ref before)
    (told : u.remoteDone = s.remoteDone) (failed : weigh (fails ref) tasks ≤ weigh (fails ref) old)
    (aimed : weigh (aims ref) tasks ≤ weigh (aims ref) old) (awaited : awaits ref l ≤ awaits ref before) :
    load l tasks ref u ≤ load before old ref s := by
  simp only [load,told]
  split <;> omega

theorem shutSame (shut : Shut c t) (streams : next.streams = []) (objects : next.objects = t.objects)
    (less : ∀ ref s, load next.loop next.tasks ref s ≤ load t.loop t.tasks ref s) : Shut c next :=
  ⟨streams,fun ref s obj => Nat.le_trans (less ref s) (shut.loads ref s (objects ▸ obj))⟩

theorem shutSet (shut : Shut c t) (streams : next.streams = [])
    (obj : t.objects[ref]? = some s) (objects : next.objects = t.objects.set ref u)
    (here : load next.loop next.tasks ref u ≤ load t.loop t.tasks ref s)
    (there : ∀ other v, other ≠ ref → load next.loop next.tasks other v ≤ load t.loop t.tasks other v) :
    Shut c next := by
  refine ⟨streams,fun other v mem => ?_⟩
  rw [objects] at mem
  rcases atSet obj mem with ⟨rfl,rfl⟩ | ⟨away,old⟩
  · exact here.trans (shut.loads other s obj)
  exact Nat.le_trans (there other v away) (shut.loads other v old)

theorem handIdle (free : inHand l = none) (ref) : hand ref l = 0 ∧ awaits ref l = 0 := by
  cases l <;> simp [inHand] at free <;> exact ⟨rfl,rfl⟩

theorem handAway {slots} (holds : inHand l = some (ref,slots)) (away : other ≠ ref) :
    hand other l = 0 ∧ awaits other l = 0 := by
  cases l <;> simp only [inHand] at holds <;>
    obtain ⟨rfl,rfl⟩ := holds <;> simp [hand,inHand,abandonsTo,awaits,away.symm]

theorem foundShut (h : Found c t ref s job next) (shut : Shut c t)
    (here : t.loop = .found ref job) (obj : t.objects[ref]? = some s)
    (weights : ∀ ref, weigh (fails ref) next.tasks ≤ weigh (fails ref) t.tasks ∧
      weigh (aims ref) next.tasks ≤ weigh (aims ref) t.tasks) : Shut c next := by
  have idled (free : inHand next.loop = none) (other : Nat) (v u : Stream) (queue : u.recv.length = v.recv.length)
      (told : u.remoteDone = v.remoteDone) : load next.loop next.tasks other u ≤ load t.loop t.tasks other v :=
    loadFalls (by rw [(handIdle free other).1]; omega) told (weights other).1 (weights other).2
      (by rw [(handIdle free other).2]; exact zero_le _)
  cases h with
  | @decoded job _ _ _ _ carried =>
    refine shutSame shut shut.streams rfl fun other v =>
      loadFalls (Nat.add_le_add_left ?_ _) rfl (weights other).1 (weights other).2 (zero_le _)
    rw [here]
    cases job <;> simp [carries] at carried <;> obtain ⟨rfl,rfl,rfl⟩ := carried <;>
      simp [hand,inHand,jobSlots,eventSlots,abandonsTo]
  | appended | lastTooLong | assembled =>
    exact shutSet shut shut.streams obj rfl (idled rfl ref _ _ rfl rfl)
      fun other v ne => idled rfl other v v rfl rfl
  | _ => exact shutSame shut shut.streams rfl fun other v => idled rfl other v v rfl rfl

theorem deliveredLength (h : Delivered c t s event ok u) :
    u.recv.length ≤ s.recv.length + 1 ∧ u.remoteDone = s.remoteDone := by
  cases h with
  | pushed | dropped => simp

theorem eventPositive (event) : 0 < eventSlots event := by
  unfold eventSlots
  split <;> omega

theorem handDelivering (ref event remove) : hand ref (.delivering ref event remove) = 1 := by
  simp only [hand,inHand,abandonsTo,if_true]
  rw [Nat.min_eq_left (eventPositive event)]

theorem loopedShut (h : Looped c t ok next) (closed : t.closed = true) (shut : Shut c t)
    (live : ∀ id job, seeks t.loop = some (id,job) → inserts c t id = true → t.closed = false) : Shut c next := by
  obtain ⟨more,tasks,writes⟩ := loopedPlain h (by simp [closed])
  have weights (ref : Nat) : weigh (fails ref) next.tasks ≤ weigh (fails ref) t.tasks ∧
      weigh (aims ref) next.tasks ≤ weigh (aims ref) t.tasks := by
    have plain := plainWeights writes ref
    rw [tasks,weighAppend,weighAppend,plain.1,plain.2]
    exact ⟨le_rfl,le_rfl⟩
  have gone (id : UInt64) : lookupStream t id = none := by simp [lookupStream,shut.streams]
  have spared (ref : Nat) (s : Stream) (free : hand ref next.loop = 0 ∧ awaits ref next.loop = 0) :
      load next.loop next.tasks ref s ≤ load t.loop t.tasks ref s :=
    loadFalls (by rw [free.1]; omega) rfl (weights ref).1 (weights ref).2 (by rw [free.2]; exact zero_le _)
  have idled (objects : next.objects = t.objects) (streams : next.streams = []) (free : inHand next.loop = none) :
      Shut c next :=
    shutSame shut streams objects fun ref s => spared ref s (handIdle free ref)
  have passed {ref : Nat} {s u : Stream} (obj : t.objects[ref]? = some s) (objects : next.objects = t.objects.set ref u)
      (streams : next.streams = []) (here : load next.loop next.tasks ref u ≤ load t.loop t.tasks ref s)
      (ne : ∀ other, other ≠ ref → hand other next.loop = 0 ∧ awaits other next.loop = 0) : Shut c next :=
    shutSet shut streams obj objects here fun other v away => spared other v (ne other away)
  have sought {id : UInt64} {job : Job} (h : Sought c t id job next) (asks : seeks t.loop = some (id,job)) :
      Shut c next := by
    cases h with
    | found known => simp [gone] at known
    | rejected => exact idled rfl shut.streams rfl
    | created _ serving room =>
      have open' := live id job asks (by simp [inserts,gone,serving,room])
      simp [closed] at open'
  cases h with
  | dispatched here h =>
    cases h with
    | sought asks h => exact sought h (here ▸ asks)
    | terminated _ known | finished _ known | windowed _ known => simp [gone] at known
    | _ => exact idled rfl shut.streams rfl
  | relooked here h => exact sought h (by rw [here]; rfl)
  | removed => exact idled rfl (by simp [shut.streams]) rfl
  | @failed => exact idled (by simp) (by simpa [failAll,closed] using shut.streams) rfl
  | accepted here | unacceptedTold here =>
    refine shutSame shut shut.streams rfl fun ref s =>
      loadFalls ?_ rfl (weights ref).1 (weights ref).2 (zero_le _)
    rw [here]
    simp [hand,inHand,abandonsTo]
  | @unaccepted _ _ _ here _ obj untold =>
    refine passed obj rfl shut.streams ?_ fun other away => handAway rfl away
    simp only [load,setStream,here,untold,hand,inHand,abandonsTo,awaits,if_true,Bool.false_eq_true,if_false]
    omega
  | @abandoned ref _ _ _ here obj h =>
    obtain ⟨queue,told⟩ := deliveredLength h
    refine passed obj rfl shut.streams (loadFalls ?_ told (weights ref).1 (weights ref).2 (zero_le _))
      fun other away => handAway rfl away
    rw [here]
    simp only [hand,inHand,abandonsTo,if_true]
    omega
  | @forsaken ref _ _ here obj | @aborted ref _ _ _ here obj =>
    refine passed obj rfl shut.streams (loadFalls ?_ rfl (weights ref).1 (weights ref).2 (zero_le _))
      fun other away => handAway rfl away
    rw [here]
    simp [hand,inHand,abandonsTo]
  | found here obj h => exact foundShut h shut here obj weights
  | @already _ _ remove => exact idled rfl shut.streams (by cases remove <;> rfl)
  | @marked _ _ _ _ here obj untold =>
    refine passed obj rfl shut.streams ?_ fun other away => handAway rfl away
    simp only [load,setStream,here,hand,inHand,eventSlots,Event.terminal,abandonsTo,if_true]
    omega
  | @delivered ref _ remove s _ here obj h =>
    obtain ⟨queue,told⟩ := deliveredLength h
    have free : inHand (afterDelivery s.id remove) = none := by cases remove <;> rfl
    have one : hand ref t.loop = 1 := by rw [here,handDelivering]
    obtain ⟨after,awaited⟩ := handIdle free ref
    refine passed obj rfl shut.streams (loadFalls ?_ told (weights ref).1 (weights ref).2 ?_)
      fun other _ => handIdle free other
    · simp only [after]
      omega
    rw [awaited]
    exact zero_le _

theorem aimsTail (other ref : Nat) (refs) :
    (if other ∈ refs then 1 else 0) ≤ if other ∈ ref :: refs then 1 else 0 := by
  by_cases mem : other ∈ refs <;> simp [mem]

theorem ranShut (h : Ran c t ok task next out) (shut : Shut c { t with tasks := all }) (closed : t.closed = true)
    (weights : ∀ ref, weigh (fails ref) all = weigh (fails ref) t.tasks + fails ref task ∧
      weigh (aims ref) all = weigh (aims ref) t.tasks + aims ref task) : Shut c next := by
  have loop := ranLoop h
  have spawned (tasks : Plain t next)
      (ref : Nat) (u v : Stream) (queue : u.recv.length = v.recv.length) (told : u.remoteDone = v.remoteDone) :
      load next.loop next.tasks ref u ≤ load t.loop all ref v := by
    obtain ⟨more,tasks,plain⟩ := tasks
    have free := plainWeights plain ref
    have old := weights ref
    rw [loop,tasks]
    refine loadFalls (by omega) told ?_ ?_ le_rfl <;> rw [weighAppend] <;> omega
  have eq (tasks : Plain t next) (objects : next.objects = t.objects) (streams : next.streams = t.streams) :
      Shut c next :=
    shutSame shut (streams.trans shut.streams) objects fun ref v => spawned tasks ref v v rfl rfl
  have changed {ref : Nat} {s u : Stream} (tasks : Plain t next) (obj : t.objects[ref]? = some s)
      (objects : next.objects = t.objects.set ref u) (streams : next.streams = t.streams)
      (queue : u.recv.length = s.recv.length) (told : u.remoteDone = s.remoteDone) : Shut c next :=
    shutSet shut (streams.trans shut.streams) obj objects (spawned tasks ref u s queue told)
      fun other v _ => spawned tasks other v v rfl rfl
  have plain := ranPlain h
  have empty : t.streams = [] := shut.streams
  cases h with
  | registered h => cases h <;> simp_all
  | @wrote _ after => cases after <;> exact eq (plain rfl) rfl rfl
  | @unwritten _ after =>
    cases after with
    | opened => exact eq (plain rfl) rfl (by simp [afterWriteError,empty])
    | _ => exact eq (plain rfl) rfl rfl
  | credited obj | closedDone obj => exact changed (plain rfl) obj rfl rfl rfl rfl
  | @unconnected send | @unsent send =>
    cases obj : t.objects[send.ref]? with
    | none => exact eq (plain rfl) (modifyAbsent obj) rfl
    | some => exact changed (plain rfl) obj (modifySet obj) rfl rfl rfl
  | removed | removedDone => exact eq (plain rfl) rfl (by simp [empty])
  | failedAll => exact eq ⟨[],by simp,by simp⟩ (by simp) (by simp)
  | @failSkipped _ _ ref refs =>
    refine shutSame shut empty rfl fun other v => ?_
    obtain ⟨failed,aimed⟩ := weights other
    have fewer := aimsTail other ref refs
    simp only [aims] at failed aimed
    refine loadFalls le_rfl rfl ?_ ?_ le_rfl <;> simp only [spawn,weighAppend,weighCons,weighNil,fails,aims] <;> omega
  | @failMarked _ _ ref refs _ obj untold =>
    refine shutSet shut empty obj rfl ?_ fun other v ne => ?_
    · obtain ⟨failed,aimed⟩ := weights ref
      simp only [aims,List.mem_cons,true_or] at failed aimed
      simp only [load,spawn,setStream,weighAppend,weighCons,weighNil,fails,untold,aimed,
        if_true,Bool.false_eq_true,if_false]
      omega
    obtain ⟨failed,aimed⟩ := weights other
    have fewer := aimsTail other ref refs
    simp only [aims] at failed aimed
    refine loadFalls le_rfl rfl ?_ ?_ le_rfl <;>
      simp only [spawn,setStream,weighAppend,weighCons,weighNil,fails,aims,if_neg ne.symm] <;>
      omega
  | @failDelivered _ _ ref _ _ _ obj h =>
    obtain ⟨queue,told⟩ := deliveredLength h
    refine shutSet shut empty obj rfl ?_ fun other v ne => ?_
    · obtain ⟨failed,aimed⟩ := weights ref
      simp only [fails,if_true] at failed aimed
      simp only [load,spawn,setStream,weighAppend,weighCons,weighNil,fails,aims,told,aimed]
      split <;> omega
    obtain ⟨failed,aimed⟩ := weights other
    simp only [aims] at failed aimed
    refine loadFalls le_rfl rfl ?_ ?_ le_rfl <;>
      simp only [spawn,setStream,weighAppend,weighCons,weighNil,fails,aims] <;> omega
  | @failDone who err ref refs s obj =>
    have fewer (other : Nat) (v u : Stream) (queue : u.recv.length = v.recv.length)
        (told : u.remoteDone = v.remoteDone) :
        load t.loop (t.tasks ++ [.failMark who err refs]) other u ≤ load t.loop all other v := by
      obtain ⟨failed,aimed⟩ := weights other
      simp only [aims] at failed aimed
      refine loadFalls (by omega) told ?_ ?_ le_rfl <;>
        simp only [weighAppend,weighCons,weighNil,fails,aims] <;> omega
    exact shutSet shut empty obj rfl (fewer ref s _ rfl rfl) fun other v _ => fewer other v v rfl rfl
  | _ => exact eq (plain rfl) rfl rfl

theorem calledShut (h : Called c t a next) (shut : Shut c t) (closed : t.closed = true) : Shut c next := by
  obtain ⟨more,tasks,plain⟩ := calledPlain h (by simp [closed])
  have spawned (loop : next.loop = t.loop)
      (ref : Nat) (u v : Stream) (queue : u.recv.length ≤ v.recv.length) (told : u.remoteDone = v.remoteDone) :
      load next.loop next.tasks ref u ≤ load t.loop t.tasks ref v := by
    have free := plainWeights plain ref
    rw [loop,tasks]
    refine loadFalls (by omega) told ?_ ?_ le_rfl <;> rw [weighAppend] <;> omega
  have eq (objects : next.objects = t.objects) (streams : next.streams = t.streams) (loop : next.loop = t.loop) :
      Shut c next :=
    shutSame shut (streams.trans shut.streams) objects fun ref v => spawned loop ref v v le_rfl rfl
  have changed {ref : Nat} {s u : Stream} (obj : t.objects[ref]? = some s) (objects : next.objects = t.objects.set ref u)
      (streams : next.streams = t.streams) (loop : next.loop = t.loop) (queue : u.recv.length ≤ s.recv.length)
      (told : u.remoteDone = s.remoteDone) : Shut c next :=
    shutSet shut (streams.trans shut.streams) obj objects (spawned loop ref u s queue told)
      fun other v _ => spawned loop other v v le_rfl rfl
  cases h with
  | received obj _ head | receivedDone obj _ head => exact changed obj rfl rfl rfl (by simp [head]) rfl
  | closeSend obj | closeWithCode obj => exact changed obj rfl rfl rfl le_rfl rfl
  | keepaliveFail => simpa [failAll,closed] using shut
  | close _ serving => simp [closed] at serving
  | readFail =>
    refine shutSame shut shut.streams rfl fun ref s => loadFalls ?_ rfl le_rfl le_rfl (zero_le _)
    rw [(handIdle (l := .failed .connection) rfl ref).1]
    omega
  | _ => exact eq rfl rfl rfl

theorem stepShut (h : Step c t a next out) (shut : Shut c t) (closed : t.closed = true)
    (live : ∀ ok, a = .loop ok → ∀ id job, seeks t.loop = some (id,job) → inserts c t id = true → t.closed = false) :
    Shut c next := by
  cases h with
  | called h => exact calledShut h shut closed
  | looped h => exact loopedShut h closed shut (live _ rfl)
  | ran ith h =>
    refine ranShut h shut closed fun ref => ?_
    have failed := weighErase (w := fails ref) ith
    have aimed := weighErase (w := aims ref) ith
    exact ⟨failed.symm,aimed.symm⟩

def waiting (t : Transport) : List Nat :=
  t.streams ++ match t.loop with
    | .accepting ref _ => [ref]
    | _ => []

def spacious (c : Config) (t : Transport) (ref : Nat) : Bool :=
  match t.objects[ref]? with
  | none => true
  | some s => s.remoteDone ∨ s.recv.length + hand ref t.loop < c.receiveQueueSize

-- every stream that is to be told of the end has a slot for it
def roomy (c : Config) (t : Transport) : Bool := ∀ ref ∈ waiting t, spacious c t ref

theorem closingShut (live : Live t) (room : roomy c t = true)
    (fits : ∀ ref s, t.objects[ref]? = some s → s.recv.length + hand ref t.loop ≤ c.receiveQueueSize)
    (objects : next.objects = t.objects) (streams : next.streams = [])
    (tasks : ∃ who err, next.tasks = t.tasks ++ [.failMark who err t.streams])
    (loop : ∀ ref, hand ref next.loop ≤ hand ref t.loop ∧ awaits ref next.loop ≤ awaits ref t.loop) :
    Shut c next := by
  obtain ⟨who,err,tasks⟩ := tasks
  refine ⟨streams,fun ref s obj => ?_⟩
  rw [objects] at obj
  obtain ⟨failed,aimed⟩ := plainWeights live.tasks ref
  obtain ⟨less,awaited⟩ := loop ref
  have most := fits ref s obj
  simp only [load,tasks,weighAppend,weighCons,weighNil,failed,aimed,fails,aims]
  cases told : s.remoteDone with
  | true =>
    simp only [if_true]
    omega
  | false =>
    simp only [Bool.false_eq_true,if_false]
    by_cases mem : ref ∈ waiting t
    · simp only [roomy,decide_eq_true_eq] at room
      have space := room ref mem
      simp only [spacious,obj,told,Bool.false_eq_true,false_or,decide_eq_true_eq] at space
      omega
    simp only [waiting,List.mem_append,not_or] at mem
    have still : awaits ref t.loop = 0 := by
      have away := mem.2
      cases here : t.loop <;> simp [here] at away <;> first | rfl | simp [awaits,Ne.symm away]
    simp only [mem.1,if_false]
    omega

theorem stepCloses (h : Step c t a next out) (was : t.closed = false) (now : next.closed = true) :
    next.objects = t.objects ∧ next.streams = [] ∧
      (∃ who err, next.tasks = t.tasks ++ [.failMark who err t.streams]) ∧
      (next.loop = t.loop ∨ next.loop = .stopped) ∧
      (a = .close ∨ (∃ err, a = .keepaliveFail err) ∨ ∃ ok err, a = .loop ok ∧ t.loop = .failed err) := by
  have eq : next.closed = t.closed → False := fun eq => by simp [eq,was] at now
  cases h with
  | called h =>
    cases h with
    | close => exact ⟨rfl,rfl,⟨_,_,rfl⟩,.inl rfl,.inl rfl⟩
    | keepaliveFail => simp [failAll,was]
    | _ => exact (eq rfl).elim
  | looped h =>
    cases h with
    | dispatched _ h =>
      cases h with
      | sought _ h => cases h <;> exact (eq rfl).elim
      | _ => exact (eq rfl).elim
    | relooked _ h | found _ _ h => cases h <;> exact (eq rfl).elim
    | failed here => simp [failAll,was,here]
    | _ => exact (eq rfl).elim
  | ran _ h =>
    refine (eq ?_).elim
    cases h with
    | registered h => cases h <;> rfl
    | @wrote _ after | @unwritten _ after => cases after <;> rfl
    | failedAll => simp
    | _ => rfl

end Gofly.MuxClosing
