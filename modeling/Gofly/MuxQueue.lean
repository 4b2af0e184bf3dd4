import Gofly.MuxWindow

/-! Whether deliver finds a free slot. -/
namespace Gofly.MuxQueue
open Transition Weights MuxFrame MuxMessage MuxState MuxTransport MuxSteps MuxObjects MuxTasks MuxIssue MuxBirth MuxWindow Duplex
open Nat (mod_le zero_le)

def abandons : Loop → Bool
  | .abandoning _ _ => true
  | _ => false

structure Live (t : Transport) : Prop where
  undone : t.done = false
  tasks : ∀ task ∈ t.tasks, failing task = false
  loop : abandons t.loop = false

variable {t next : Transport}

theorem inHandRef {slots} (here : inHand l = some (ref,slots)) : heldRef l = some ref := by
  cases l <;> simp [inHand] at here <;> simp [heldRef,here.1]

theorem owedGrows (grounded : Grounded t) : owedLoop x (ids t ++ more) t.loop = owedLoop x (ids t) t.loop := by
  have eq : inHandFor x (ids t ++ more) t.loop = inHandFor x (ids t) t.loop := by
    unfold inHandFor
    split
    · rename_i ref slots here
      rw [List.getElem?_append_left (grounded ref (inHandRef here))]
    rfl
  cases here : t.loop <;> rw [here] at eq <;> first | rfl | exact eq

theorem owedFalls (objects : weigh (queued p x) next.objects ≤ weigh (queued p x) t.objects)
    (tasks : ∃ more, next.tasks = t.tasks ++ more ∧ weigh (updateTask x) more = 0)
    (loop : owedLoop x (ids next) next.loop ≤ owedLoop x (ids t) t.loop) : owes p x next ≤ owes p x t := by
  obtain ⟨more,tasks,free⟩ := tasks
  simp only [owes,tasks,weighAppend]
  omega

theorem setOwed (obj : t.objects[ref]? = some s) (eq : shape u = shape s)
    (queue : queued p x u ≤ queued p x s) (loop : owedLoop x (ids t) l ≤ owedLoop x (ids t) t.loop) :
    owes p x { setStream t ref u with loop := l } ≤ owes p x t := by
  refine owedFalls (weighFalls obj queue) ⟨[],by simp,rfl⟩ ?_
  change owedLoop x (ids (setStream t ref u)) l ≤ _
  rw [idsSame (shapesSet obj eq)]
  exact loop

theorem soughtOwed {id} (h : Sought c t id job next)
    (asks : seeks t.loop = some (id,job)) (fits : addressed t = true) : owes p x next ≤ owes p x t := by
  have slots := (seeksSlots (x := x) asks (ids t)).1
  cases h with
  | @found ref known =>
    refine owedFalls le_rfl ⟨[],by simp,rfl⟩ ?_
    have named := lookedName known
    rw [slots]
    change (if (ids t)[ref]? = some x then jobSlots job else 0) ≤ _
    rw [named]
    simp
  | rejected => exact owedFalls le_rfl ⟨_,rfl,by simp [updateTask,repays,cancelFrame,kind]⟩ (zero_le _)
  | created gone =>
    have opens := addressedExact asks fits gone
    subst opens
    refine owedFalls (by simp [queued,newStream,unfinishedEmpty]) ⟨[],by simp,rfl⟩ ?_
    have free (names : List UInt64) : owedLoop x names (if t.closed then Loop.found t.objects.length .opens
        else .accepting t.objects.length .opens) = 0 := by
      split <;> simp [owedLoop,inHandFor,inHand,jobSlots]
    rw [free]
    exact zero_le _

theorem endsSpends (isEnd : ends f = some err) : spends x f = if f.streamID = x then 1 else 0 := by
  unfold ends at isEnd
  split at isEnd <;> simp [spends,takesSlot, *] at isEnd ⊢

theorem dispatchedOwed (h : Dispatched c t f next) (here : t.loop = .got f)
    (fits : addressed t = true) : owes p x next ≤ owes p x t := by
  have owedHere : owedLoop x (ids t) t.loop = spends x f := by rw [here]; rfl
  have ended {ref : Nat} {err : MuxError} {abort remove : Bool} (known : lookupStream t f.streamID = some ref)
      (one : spends x f = if f.streamID = x then 1 else 0) :
      owedLoop x (ids t) (.terminal ref err abort remove) ≤ owedLoop x (ids t) t.loop := by
    rw [owedHere,one]
    change (if (ids t)[ref]? = some x then 1 else 0) ≤ _
    rw [lookedName known]
    simp
  cases h with
  | sought asks h => exact soughtOwed h (here ▸ asks) fits
  | terminated isEnd known => exact owedFalls le_rfl ⟨[],by simp,rfl⟩ (ended known (endsSpends isEnd))
  | finished isFin known =>
    exact owedFalls le_rfl ⟨[],by simp,rfl⟩ (ended known (by simp [spends,takesSlot,isFin]))
  | windowed => exact owedFalls (Nat.le_of_eq (weighModify fun _ => rfl)) ⟨[],by simp,rfl⟩ (zero_le _)
  | ponged => exact owedFalls le_rfl ⟨_,rfl,by simp [updateTask,repays,pongFrame,kind]⟩ (zero_le _)
  | _ => exact owedFalls le_rfl ⟨[],by simp,rfl⟩ (zero_le _)

theorem refillMost (delta ceil) : (experimentalMuxWindowRefillDelta delta ceil).toNat ≤ delta.toNat := by
  unfold experimentalMuxWindowRefillDelta
  split
  · exact zero_le _
  rename_i some
  have pos : delta.toNat ≠ 0 := fun zero => some (UInt32.toNat.inj zero)
  split
  · change 1 ≤ delta.toNat
    omega
  split
  · exact le_rfl
  exact UInt32.le_iff_toNat_le.mp (UInt32.not_lt.mp ‹_›)

theorem deferredMost (c fragments) : (deferredFragments c fragments).toNat ≤ fragments.toNat := by
  unfold deferredFragments
  split
  · rename_i fewer
    exact Nat.le_trans (mod_le _ _) fewer.2.le
  exact le_rfl

theorem updateMost (c fragments) : (fragmentWindowUpdates c fragments).1.toNat ≤ fragments.toNat := by
  unfold fragmentWindowUpdates
  split
  · exact zero_le _
  split
  · exact Nat.le_trans (refillMost _ _) (deferredMost c fragments)
  exact zero_le _

theorem countedMost (n : UInt32) : (n + 1).toNat ≤ n.toNat + 1 := by exact mod_le _ _

theorem assemblySet (obj : t.objects[ref]? = some s) :
    weigh (queued p x) (t.objects.set ref { s with assembly := a }) +
        (if s.id = x then unfinished p s.assembly else 0) =
      weigh (queued p x) t.objects + if s.id = x then unfinished p a else 0 := by
  have sum := weighSet (w := queued p x) (y := { s with assembly := a }) obj
  have old : queued p x s = if s.id = x then weigh eventSlots s.recv + unfinished p s.assembly else 0 := rfl
  have after : queued p x { s with assembly := a } =
    if s.id = x then weigh eventSlots s.recv + unfinished p a else 0 := rfl
  by_cases named : s.id = x
  · simp only [if_pos named] at old after ⊢
    omega
  simp only [if_neg named] at old after ⊢
  omega

def whole (c : Config) (t : Transport) : Bool :=
  match t.loop with
  | .found _ (.last _) => c.streamPolicy = .onReceive
  | _ => true

theorem foundOwed (h : Found c t ref s job next)
    (policy : c.streamPolicy = p) (here : t.loop = .found ref job) (obj : t.objects[ref]? = some s)
    (fits : whole c t = true) : owes p x next ≤ owes p x t := by
  have name : (ids t)[ref]? = some s.id := by simp [ids,obj]
  have owedHere : owedLoop x (ids t) t.loop = if s.id = x then jobSlots job else 0 := by
    rw [here]
    change (if (ids t)[ref]? = some x then jobSlots job else 0) = _
    rw [name]
    simp
  have idle (names : List UInt64) : owedLoop x names .idle = 0 := rfl
  cases h with
  | opens | malformed | fragTooLong => exact owedFalls le_rfl ⟨[],by simp,rfl⟩ (zero_le _)
  | @decoded job _ stream _ _ carried =>
    refine owedFalls le_rfl ⟨[],by simp,rfl⟩ ?_
    rw [owedHere]
    change (if (ids t)[ref]? = some x then max 1 stream.toNat else 0) ≤ _
    rw [name]
    cases job <;> simp [carries] at carried <;> obtain ⟨rfl,rfl,rfl⟩ := carried <;> simp [jobSlots]
  | @appended _ assembly room =>
    have count : assembly.fragmentCount.toNat ≤ s.assembly.fragmentCount.toNat + 1 := by
      unfold appendFragment at room
      split at room <;> cases room
      exact countedMost _
    have more : unfinished p assembly + (if c.streamPolicy = .perFragment then 1 else 0) ≤
        unfinished p s.assembly + 1 := by
      rw [policy]
      cases p <;> simp [unfinished]
      exact count
    have sum := assemblySet (p := p) (x := x) (a := assembly) obj
    have updates := (fragmentUpdates (c := c) (x := x) s.id).2
    simp only [owes,spawn,setStream,weighAppend,updates,owedHere,jobSlots,idle]
    by_cases named : s.id = x
    · simp only [named,and_true,if_true] at sum ⊢
      omega
    simp only [named,and_false,if_false] at sum ⊢
    omega
  | lastTooLong =>
    have sum := assemblySet (p := p) (x := x) (a := .empty) obj
    simp only [unfinishedEmpty,ite_self] at sum
    exact owedFalls (by simp only [setStream]; omega) ⟨[],by simp,rfl⟩ (zero_le _)
  | @assembled _ whole fragments room =>
    have receives : p = .onReceive := by simpa [MuxQueue.whole,here,policy] using fits
    have count : fragments.toNat ≤ s.assembly.fragmentCount.toNat + 1 := by
      unfold finishFragments at room
      split at room <;> cases room
      exact countedMost _
    have most := updateMost c fragments
    have sum := assemblySet (p := p) (x := x) (a := .empty) obj
    have kept : unfinished p s.assembly = s.assembly.fragmentCount.toNat := by simp [unfinished,receives]
    have updates : weigh (updateTask x) (if fragments = 0 then [] else sendFragmentWindowUpdates c s.id) = 0 := by
      split
      · rfl
      rw [(fragmentUpdates (c := c) (x := x) s.id).2,policy,receives]
      simp
    have later (names : List UInt64) (stream conn : UInt32) :
        owedLoop x names (.relook s.id whole stream conn) = if s.id = x then max 1 stream.toNat else 0 := rfl
    rw [unfinishedEmpty,kept] at sum
    simp only [owes,spawn,setStream,weighAppend,updates,owedHere,jobSlots,later]
    by_cases named : s.id = x
    · simp only [named,if_true] at sum ⊢
      omega
    simp only [named,if_false] at sum ⊢
    omega

theorem deliveredQueue (h : Delivered c t s event ok u) :
    queued p x u ≤ queued p x s + if s.id = x then eventSlots event else 0 := by
  cases h with
  | pushed =>
    simp only [queued,weighAppend,weighCons,weighNil]
    by_cases named : s.id = x
    · simp only [named,if_true]
      omega
    simp [named]
  | dropped => omega

theorem loopedOwed (h : Looped c t ok next) (policy : c.streamPolicy = p) (live : Live t)
    (stays : next.closed = false) (data : addressed t = true) (fits : whole c t = true) :
    owes p x next ≤ owes p x t := by
  cases h with
  | dispatched here h => exact dispatchedOwed h here data
  | relooked here h => exact soughtOwed h (by rw [here]; rfl) data
  | removed => exact owedFalls le_rfl ⟨[],by simp,rfl⟩ (zero_le _)
  | failed => simp at stays
  | accepted here => exact owedFalls le_rfl ⟨[],by simp,rfl⟩ (by rw [here]; exact le_rfl)
  | unaccepted _ gone | unacceptedTold _ gone => simp [live.undone] at gone
  | abandoned here =>
    have done := live.loop
    simp [here,abandons] at done
  | forsaken here obj | aborted here obj | marked here obj => exact setOwed obj rfl le_rfl (by rw [here]; exact le_rfl)
  | found here obj h => exact foundOwed h policy here obj fits
  | @already _ _ remove => exact owedFalls le_rfl ⟨[],by simp,rfl⟩ (by cases remove <;> exact zero_le _)
  | @delivered ref event remove s u here obj h =>
    have sum := weighSet (w := queued p x) (y := u) obj
    have more := deliveredQueue (p := p) (x := x) h
    have name : (ids t)[ref]? = some s.id := by simp [ids,obj]
    have owedHere : owedLoop x (ids t) t.loop = if s.id = x then eventSlots event else 0 := by
      rw [here]
      change (if (ids t)[ref]? = some x then eventSlots event else 0) = _
      rw [name]
      simp
    have after (names : List UInt64) : owedLoop x names (afterDelivery s.id remove) = 0 := by
      cases remove <;> rfl
    simp only [owes,setStream,after]
    omega

theorem registeredQueue {id} (h : Registered c t id next ref) :
    weigh (queued p x) next.objects = weigh (queued p x) t.objects := by
  cases h with
  | found => rfl
  | created => simp [queued,newStream,unfinishedEmpty]

theorem openRepays (id) : repays x (openFrame id) = if id = x then 1 else 0 := by simp [repays,openFrame,kind]

theorem ranOwed (h : Ran c t ok task next out) (grounded : Grounded t) (plain : failing task = false) :
    owes p x next + weigh (repays x) out + t.opened.count x ≤
      owes p x t + updateTask x task + next.opened.count x := by
  have quietly (objects : weigh (queued p x) next.objects ≤ weigh (queued p x) t.objects)
      (tasks : ∃ more, next.tasks = t.tasks ++ more ∧ weigh (updateTask x) more = 0)
      (eq : ids next = ids t) (loop : next.loop = t.loop) (opened : next.opened = t.opened) :
      owes p x next + 0 + t.opened.count x ≤ owes p x t + updateTask x task + next.opened.count x := by
    have fewer := owedFalls (p := p) (x := x) objects tasks (by rw [eq,loop])
    rw [opened]
    omega
  cases h with
  | refused | starved | kept => exact quietly le_rfl ⟨[],by simp,rfl⟩ rfl rfl rfl
  | @registered id u _ h =>
    have tasks : u.tasks = t.tasks := by cases h <;> rfl
    have loop : u.loop = t.loop := by cases h <;> rfl
    obtain ⟨more,grown⟩ := idsGrow (registeredShapes h)
    have queue := registeredQueue (p := p) (x := x) h
    have hand : owedLoop x (ids t ++ more) t.loop = owedLoop x (ids t) t.loop := owedGrows grounded
    have opens := openRepays (x := x) id
    simp only [owes,ids,spawn] at hand grown ⊢
    simp only [tasks,loop,grown,weighAppend,weighCons,weighNil,updateTask,
      List.count_append,List.count_singleton,beq_iff_eq]
    omega
  | @wrote _ after =>
    have objects : (afterWrite t after).objects = t.objects := by cases after <;> rfl
    have loop : (afterWrite t after).loop = t.loop := by cases after <;> rfl
    have opened : (afterWrite t after).opened = t.opened := by cases after <;> rfl
    have tasks : weigh (updateTask x) (afterWrite t after).tasks = weigh (updateTask x) t.tasks := by
      cases after <;> simp [afterWrite,updateTask]
    simp only [owes,ids,objects,loop,opened,weighCons,weighNil,updateTask]
    omega
  | @unwritten _ after => cases after <;> exact quietly le_rfl ⟨[],by simp [afterWriteError],rfl⟩ rfl rfl rfl
  | credited obj => exact quietly (weighFalls obj le_rfl) ⟨_,rfl,rfl⟩ (idsSet obj rfl) rfl rfl
  | unconnected | unsent =>
    exact quietly (Nat.le_of_eq (weighModify fun _ => rfl)) ⟨[],by simp,rfl⟩
      (idsSame (shapesModify t _ fun _ => rfl)) rfl rfl
  | @sentLast send f todo =>
    have none := (dataSpends (x := x) send (f := f) (by simp [todo])).2
    simp only [owes,ids,weighCons,weighNil]
    omega
  | @sentMore send f _ todo =>
    have none := (dataSpends (x := x) send (f := f) (by simp [todo])).2
    simp only [owes,ids,spawn,weighAppend,weighCons,weighNil,updateTask]
    omega
  | removed =>
    refine quietly le_rfl ⟨_,rfl,?_⟩ rfl rfl rfl
    cases lookupStream t _ <;> rfl
  | removedDone | connected => exact quietly le_rfl ⟨_,rfl,rfl⟩ rfl rfl rfl
  | closedDone obj => exact quietly (weighFalls obj le_rfl) ⟨[],by simp,rfl⟩ (idsSet obj rfl) rfl rfl
  | _ => simp [failing] at plain

theorem calledOwed (h : Called c t a next) (stays : next.closed = false) : owes p x next ≤ owes p x t := by
  have eq := calledIDs h
  have quietly (objects : weigh (queued p x) next.objects ≤ weigh (queued p x) t.objects)
      (tasks : ∃ more, next.tasks = t.tasks ++ more ∧ weigh (updateTask x) more = 0) (loop : next.loop = t.loop) :
      owes p x next ≤ owes p x t := owedFalls objects tasks (by rw [eq,loop])
  cases h with
  | @received ref s event rest obj _ head =>
    have sum := weighSet (w := queued p x) (y := { s with recv := rest,returned := s.returned ++ [event] }) obj
    have updates := (receiveUpdates (x := x) ref s.id event).2
    have old : queued p x s =
        if s.id = x then eventSlots event + weigh eventSlots rest + unfinished p s.assembly else 0 := by
      simp [queued,head]
    have after : queued p x { s with recv := rest,returned := s.returned ++ [event] } =
      if s.id = x then weigh eventSlots rest + unfinished p s.assembly else 0 := rfl
    simp only [owes,eq]
    simp only [spawn,setStream,weighAppend]
    by_cases named : s.id = x
    · simp only [if_pos named] at old after updates
      omega
    simp only [if_neg named] at old after updates
    omega
  | @receivedDone _ _ _ _ obj _ head =>
    refine quietly (weighFalls obj ?_) ⟨[],by simp,rfl⟩ rfl
    simp only [queued,head,weighCons]
    split <;> omega
  | closeSend obj => exact quietly (weighFalls obj le_rfl) ⟨_,rfl,by simp [updateTask,finSpends]⟩ rfl
  | closeWithCode obj => exact quietly (weighFalls obj le_rfl) ⟨_,rfl,by simp [updateTask,closeSpends]⟩ rfl
  | keepaliveFail | close => simp at stays
  | readFail => exact owedFalls le_rfl ⟨[],by simp,rfl⟩ (zero_le _)
  | drain => exact quietly le_rfl ⟨_,rfl,by simp [updateTask,repays,goAwayFrame,kind]⟩ rfl
  | sendPing => exact quietly le_rfl ⟨_,rfl,by simp [updateTask,repays,pingFrame,kind]⟩ rfl
  | openStream | send => exact quietly le_rfl ⟨_,rfl,rfl⟩ rfl
  | _ => exact quietly le_rfl ⟨[],by simp,rfl⟩ rfl

theorem stepOwed (h : Step c t a next out) (policy : c.streamPolicy = p)
    (live : Live t) (grounded : Grounded t) (stays : next.closed = false)
    (fits : ∀ ok, a = .loop ok → addressed t = true ∧ whole c t = true) :
    owes p x next + weigh (repays x) out + t.opened.count x ≤ owes p x t + next.opened.count x := by
  cases h with
  | called h =>
    have fewer := calledOwed (p := p) (x := x) h stays
    rw [(calledBorn (x := x) h).2]
    simp only [weighNil]
    omega
  | looped h =>
    obtain ⟨data,one⟩ := fits _ rfl
    have fewer := loopedOwed (x := x) h policy live stays data one
    rw [(loopedQuiet h).opened]
    simp only [weighNil]
    omega
  | ran ith h =>
    have taken := weighErase (w := updateTask x) ith
    have worked := ranOwed (p := p) (x := x) h grounded (live.tasks _ (List.mem_of_getElem? ith))
    simp only [owes,ids] at worked ⊢
    omega

end Gofly.MuxQueue
