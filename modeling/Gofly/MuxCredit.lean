import Gofly.MuxSteps

/-! The books of the connection window. -/
namespace Gofly.MuxCredit
open Transition Weights MuxFrame MuxMessage MuxState MuxTransport MuxSteps Duplex

def spends (f : Frame) : Nat := if isDataFrame f = true then 1 else 0
def repays (f : Frame) : Nat := if kind f.typ = .windowConn then f.window.toNat else 0

def heldTask : Task → Nat
  | .writeData _ => 1
  | .write f _ => spends f
  | _ => 0

def updateTask : Task → Nat
  | .write f _ => repays f
  | _ => 0

def heldLoop : Loop → Nat
  | .got f => repays f
  | _ => 0

def eventCredit (event : Event) : Nat :=
  match event.body with
  | .ok _ => event.connectionWindowUpdate.toNat
  | .error _ => 0

def jobCredit : Job → Nat
  | .opens => 0
  | .data _ => 1
  | .frag _ => 1
  | .last _ => 1
  | .whole _ _ connection => connection.toNat

def owedLoop : Loop → Nat
  | .got f => spends f
  | .accepting _ job => jobCredit job
  | .abandoning _ job => jobCredit job
  | .forsaken _ job => jobCredit job
  | .found _ job => jobCredit job
  | .relook _ _ _ connection => connection.toNat
  | .delivering _ event _ => eventCredit event
  | _ => 0

def queued (s : Stream) : Nat := weigh eventCredit s.recv
def holds (t : Transport) : Nat := t.connCredit + weigh heldTask t.tasks + heldLoop t.loop
def owes (t : Transport) : Nat := weigh queued t.objects + owedLoop t.loop + weigh updateTask t.tasks
def credits : Ledger Transport Frame := ⟨holds,owes,spends,repays⟩

def reaches (c : Config) (t : Transport) : Bool :=
  match seeks t.loop with
  | none => true
  | some (id,job) =>
    jobCredit job = 0 ∨ lookupStream t id ≠ none ∨ t.draining = false ∧ full c t = false

def completes (c : Config) (s : Stream) : Job → Bool
  | .opens => true
  | .frag payload =>
    match appendFragment c s.assembly payload with
    | .ok _ => true
    | .error _ => false
  | .last payload =>
    match finishFragments c s.assembly payload with
    | .ok (_,fragments) => fragments ≠ 0
    | .error _ => false
  | .data payload | .whole payload _ _ =>
    match dispatchDataPayload c payload with
    | .ok _ => true
    | .error _ => false

def returns (c : Config) (t : Transport) : Act → Bool
  | .receive ref done =>
    match t.objects[ref]? with
    | none => true
    | some s => done = false ∨ ∀ event ∈ s.recv.head?, eventCredit event = 0
  | .task index ok =>
    match t.tasks[index]? with
    | some (.write f _) => ok ∨ spends f = 0 ∧ repays f = 0
    | _ => true
  | .loop ok =>
    match t.loop with
    | .found ref job =>
      match t.objects[ref]? with
      | none => true
      | some s => completes c s job
    | .delivering _ event _ => ok ∨ eventCredit event = 0
    | _ => reaches c t
  | _ => true

def creditRule : Rule := ⟨returns,fun c f => (frameBytes f).length ≤ c.maxFrame⟩

theorem asyncStream (id delta) :
    weigh heldTask (sendWindowUpdateAsync id delta) = 0 ∧ weigh updateTask (sendWindowUpdateAsync id delta) = 0 := by
  unfold sendWindowUpdateAsync
  split
  · exact ⟨rfl,rfl⟩
  simp [heldTask,updateTask,spends,repays,windowFrame,isDataFrame,kind]

theorem asyncConnection (delta) : weigh heldTask (sendConnectionWindowUpdateAsync delta) = 0 ∧
      weigh updateTask (sendConnectionWindowUpdateAsync delta) = delta.toNat := by
  unfold sendConnectionWindowUpdateAsync
  split
  · rename_i none
    simp [none]
  simp [heldTask,updateTask,spends,repays,windowConnFrame,isDataFrame,kind]

theorem fragmentUpdates (policy : c.connectionPolicy = .perFragment) (id) :
    weigh heldTask (sendFragmentWindowUpdates c id) = 0 ∧ weigh updateTask (sendFragmentWindowUpdates c id) = 1 := by
  have stream := asyncStream id 1
  have conn := asyncConnection 1
  simp only [sendFragmentWindowUpdates,policy,if_true,weighAppend,conn]
  split <;> simp [stream]

theorem receiveUpdates (ref id event) : weigh heldTask (afterReceive ref id event) = 0 ∧
      weigh updateTask (afterReceive ref id event) = eventCredit event := by
  have stream := asyncStream id event.streamWindowUpdate
  have conn := asyncConnection event.connectionWindowUpdate
  cases body : event.body with
  | error =>
    simp only [afterReceive,eventCredit,body]
    split <;> exact ⟨rfl,rfl⟩
  | ok => simp [afterReceive,eventCredit,body,stream,conn]

structure Balanced (t : Transport) (out : List Frame) (next : Transport) : Prop where
  held : holds next + weigh spends out = holds t
  owed : owes next + weigh repays out = owes t

theorem balanced (credit : next.connCredit = t.connCredit) (objects : weigh queued next.objects = weigh queued t.objects)
    (tasks : ∃ more, next.tasks = t.tasks ++ more ∧ weigh heldTask more = 0 ∧
      owedLoop next.loop + weigh updateTask more = owedLoop t.loop)
    (loop : heldLoop next.loop = heldLoop t.loop) : Balanced t [] next := by
  obtain ⟨more,tasks,held,owed⟩ := tasks
  constructor
  · simp only [holds,tasks,weighAppend,weighNil]
    omega
  simp only [owes,objects,tasks,weighAppend,weighNil]
  omega

theorem seeksCredit {id} (asks : seeks l = some (id,job)) : heldLoop l = 0 ∧ owedLoop l = jobCredit job := by
  cases l with
  | got =>
    simp only [seeks] at asks
    split at asks <;> simp at asks
    all_goals
      obtain ⟨rfl,rfl⟩ := asks
      simp [heldLoop,owedLoop,repays,spends,isDataFrame,jobCredit, *]
  | relook =>
    obtain ⟨rfl,rfl⟩ := asks
    exact ⟨rfl,rfl⟩
  | _ => simp [seeks] at asks

theorem soughtBalanced {id} (h : Sought c t id job next)
    (asks : seeks t.loop = some (id,job)) (fits : reaches c t = true) : Balanced t [] next := by
  obtain ⟨held,owed⟩ := seeksCredit asks
  cases h with
  | found => exact balanced rfl rfl ⟨[],by simp,rfl,owed.symm⟩ held.symm
  | rejected gone refuses =>
    have free : jobCredit job = 0 := by
      simp only [reaches,asks,gone,ne_eq,not_true_eq_false,false_or,decide_eq_true_eq] at fits
      rcases fits with free | ⟨serving,room⟩
      · exact free
      simp [serving,room] at refuses
    exact balanced rfl rfl ⟨_,rfl,rfl,by rw [owed,free]; rfl⟩ held.symm
  | created =>
    refine balanced rfl (by simp [newStream,queued]) ⟨[],by simp,rfl,?_⟩ ?_
    · rw [owed]
      split <;> rfl
    rw [held]
    split <;> rfl

theorem dispatchedBalanced (h : Dispatched c t f next) (here : t.loop = .got f)
    (fits : reaches c t = true) (window : holds t ≤ c.connectionWindow) : Balanced t [] next := by
  have heldHere : heldLoop t.loop = repays f := by rw [here]; rfl
  have owedHere : owedLoop t.loop = spends f := by rw [here]; rfl
  have heldIdle : heldLoop .idle = 0 := rfl
  have owedIdle : owedLoop .idle = 0 := rfl
  have idle (data : spends f = 0) (conn : repays f = 0) (l : Loop) (held : heldLoop l = 0) (owed : owedLoop l = 0) :
      Balanced t [] { t with loop := l } :=
    balanced rfl rfl ⟨[],by simp,rfl,by rw [owedHere,data]; exact owed⟩ (by rw [heldHere,conn]; exact held)
  cases h with
  | sought asks h => exact soughtBalanced h (here ▸ asks) fits
  | terminated isEnd | unknown isEnd =>
    have kinds : spends f = 0 ∧ repays f = 0 := by
      unfold ends at isEnd
      split at isEnd <;> simp [spends,repays,isDataFrame, *] at isEnd ⊢
    exact idle kinds.1 kinds.2 _ rfl rfl
  | finished isFin => exact idle (by simp [spends,isDataFrame,isFin]) (by simp [repays,isFin]) _ rfl rfl
  | windowed isWindow =>
    exact balanced rfl (weighModify fun _ => rfl)
      ⟨[],by simp,rfl,by rw [owedHere]; simp [spends,isDataFrame,isWindow,owedIdle]⟩
      (by rw [heldHere]; simp [repays,isWindow,heldIdle])
  | windowedConn isWindow =>
    have amount : repays f = f.window.toNat := by simp [repays,isWindow]
    have data : spends f = 0 := by simp [spends,isDataFrame,isWindow]
    simp only [holds] at window
    constructor
    · simp only [holds,addConnectionCredit,weighNil]
      omega
    simp only [owes,addConnectionCredit,weighNil]
    omega
  | ponged isPing =>
    have data : spends f = 0 := by simp [spends,isDataFrame,isPing]
    have conn : repays f = 0 := by simp [repays,isPing]
    exact balanced rfl rfl ⟨_,rfl,rfl,by rw [owedHere,data]; rfl⟩ (by rw [heldHere,conn]; rfl)
  | ignored isQuiet =>
    have kinds : spends f = 0 ∧ repays f = 0 := by
      rcases isQuiet with pong | ⟨_,fin | window⟩ <;> simp [spends,repays,isDataFrame, *]
    exact idle kinds.1 kinds.2 _ rfl rfl
  | goneAway isGoAway =>
    have books := idle (by simp [spends,isDataFrame,isGoAway]) (by simp [repays,isGoAway]) .idle rfl rfl
    exact { books with }
  | unsupported isOther =>
    exact idle (by simp [spends,isDataFrame,isOther]) (by simp [repays,isOther]) _ rfl rfl

theorem deliveredQueue (h : Delivered c t s event ok u)
    (fits : ok = true ∨ eventCredit event = 0) : queued u = queued s + eventCredit event := by
  cases h with
  | pushed => simp [queued]
  | dropped =>
    have free : eventCredit event = 0 := by simpa using fits
    omega

theorem foundBalanced (h : Found c t ref s job next)
    (policy : c.connectionPolicy = .perFragment) (here : t.loop = .found ref job)
    (obj : t.objects[ref]? = some s) (fits : completes c s job = true) : Balanced t [] next := by
  have heldHere : heldLoop t.loop = 0 := by rw [here]; rfl
  have owedHere : owedLoop t.loop = jobCredit job := by rw [here]; rfl
  cases h with
  | opens => exact balanced rfl rfl ⟨[],by simp,rfl,owedHere.symm⟩ heldHere.symm
  | malformed carried bad =>
    cases job <;> simp [carries] at carried <;> obtain ⟨rfl,rfl,rfl⟩ := carried <;> simp [completes,bad] at fits
  | decoded carried =>
    refine balanced rfl rfl ⟨[],by simp,rfl,?_⟩ heldHere.symm
    rw [owedHere]
    cases job <;> simp [carries] at carried <;> obtain ⟨rfl,rfl,rfl⟩ := carried <;> rfl
  | fragTooLong long | lastTooLong long => simp [completes,long] at fits
  | appended =>
    obtain ⟨held,updates⟩ := fragmentUpdates policy s.id
    exact balanced rfl (weighSame obj rfl) ⟨_,rfl,held,by rw [owedHere,updates]; rfl⟩ heldHere.symm
  | @assembled _ _ fragments room =>
    obtain ⟨held,updates⟩ := fragmentUpdates policy s.id
    have some : fragments ≠ 0 := by simpa [completes,room] using fits
    have deferred : (fragmentWindowUpdates c fragments).2 = 0 := by simp [fragmentWindowUpdates,some,policy]
    refine balanced rfl (weighSame obj rfl) ⟨_,rfl,?_,?_⟩ heldHere.symm
    · rw [if_neg some,held]
    rw [if_neg some,updates,owedHere,deferred]
    rfl

theorem loopedBalanced (h : Looped c t ok next) (policy : c.connectionPolicy = .perFragment)
    (fits : returns c t (.loop ok) = true) (window : holds t ≤ c.connectionWindow) : Balanced t [] next := by
  cases h with
  | @dispatched _ _ here h => exact dispatchedBalanced h here (by simpa [returns,here] using fits) window
  | relooked here h => exact soughtBalanced h (by rw [here]; rfl) (by simpa [returns,here] using fits)
  | removed here | accepted here | unacceptedTold here => exact balanced rfl rfl ⟨[],by simp,rfl,by rw [here]; rfl⟩ (by rw [here]; rfl)
  | @failed err here =>
    refine balanced (by simp) (by simp) ?_ (by rw [here]; rfl)
    rw [here]
    unfold failAll
    split
    · exact ⟨[],by simp,rfl,rfl⟩
    exact ⟨_,rfl,rfl,rfl⟩
  | unaccepted here _ obj | forsaken here obj | aborted here obj | marked here obj =>
    exact balanced rfl (weighSame obj rfl) ⟨[],by simp,rfl,by rw [here]; rfl⟩ (by rw [here]; rfl)
  | abandoned here obj h =>
    have queue := deliveredQueue h (.inr rfl)
    exact balanced rfl (weighSame obj queue) ⟨[],by simp,rfl,by rw [here]; rfl⟩ (by rw [here]; rfl)
  | found here obj h => exact foundBalanced h policy here obj (by simpa [returns,here,obj] using fits)
  | @already _ _ remove _ here =>
    cases remove <;> exact balanced rfl rfl ⟨[],by simp,rfl,by rw [here]; rfl⟩ (by rw [here]; rfl)
  | @delivered _ event remove s u here obj h =>
    have queue := deliveredQueue h (by simpa [returns,here] using fits)
    have sum := weighSet (w := queued) (y := u) obj
    have owedHere : owedLoop t.loop = eventCredit event := by rw [here]; rfl
    have heldHere : heldLoop t.loop = 0 := by rw [here]; rfl
    have after : owedLoop (afterDelivery s.id remove) = 0 ∧ heldLoop (afterDelivery s.id remove) = 0 := by
      cases remove <;> exact ⟨rfl,rfl⟩
    constructor
    · simp only [holds,setStream,heldHere,after,weighNil]
    simp only [owes,setStream,weighNil]
    omega

structure TaskBalanced (t : Transport) (task : Task) (out : List Frame) (next : Transport) : Prop where
  held : holds next + weigh spends out = holds t + heldTask task
  owed : owes next + weigh repays out = owes t + updateTask task

theorem taskBalanced (credit : next.connCredit = t.connCredit)
    (objects : weigh queued next.objects = weigh queued t.objects) (loop : next.loop = t.loop)
    (tasks : ∃ more, next.tasks = t.tasks ++ more ∧ weigh heldTask more = 0 ∧ weigh updateTask more = 0)
    (free : heldTask task = 0 ∧ updateTask task = 0) : TaskBalanced t task [] next := by
  obtain ⟨more,tasks,held,owed⟩ := tasks
  constructor
  · simp only [holds,tasks,loop,weighAppend,weighNil]
    omega
  simp only [owes,tasks,loop,weighAppend,weighNil]
  omega

theorem registeredBooks {id} (h : Registered c t id next ref) :
    next.connCredit = t.connCredit ∧ weigh queued next.objects = weigh queued t.objects ∧ next.loop = t.loop ∧
      next.tasks = t.tasks := by
  cases h with
  | found => exact ⟨rfl,rfl,rfl,rfl⟩
  | created => exact ⟨rfl,by simp [newStream,queued],rfl,rfl⟩

theorem wroteBalanced (after) : TaskBalanced t (.write f after) [f] (afterWrite t after) := by
  have spawned (tasks : List Task) (held : weigh heldTask tasks = 0) (owed : weigh updateTask tasks = 0) :
      TaskBalanced t (.write f after) [f] (spawn t tasks) := by
    constructor
    · simp only [holds,spawn,weighAppend,weighCons,weighNil,heldTask]
      omega
    simp only [owes,spawn,weighAppend,weighCons,weighNil,updateTask]
    omega
  have nothing := spawned [] rfl rfl
  simp only [spawn,List.append_nil] at nothing
  cases after with
  | nothing => exact nothing
  | opened => exact { nothing with }
  | halfClosed id => exact spawned [.removeIfDone id] rfl rfl
  | closed ref => exact spawned [.removeStream ref] rfl rfl

theorem dataSpends (send : Sending) (mem : f ∈ send.todo) : spends f = 1 ∧ repays f = 0 := by
  have plain := (send.plain f mem).2
  refine ⟨by simp [spends,plain],?_⟩
  unfold repays
  split
  · rename_i isWindow
    simp [isDataFrame,isWindow] at plain
  rfl

theorem ranBalanced (h : Ran c t ok task next out)
    (fits : ∀ f after, task = .write f after → ok = true ∨ spends f = 0 ∧ repays f = 0)
    (window : holds t + heldTask task ≤ c.connectionWindow) : TaskBalanced t task out next := by
  cases h with
  | refused | starved | kept => exact taskBalanced rfl rfl rfl ⟨[],by simp,rfl,rfl⟩ ⟨rfl,rfl⟩
  | @registered _ _ _ h =>
    obtain ⟨credit,objects,loop,tasks⟩ := registeredBooks h
    exact taskBalanced credit objects loop ⟨_,congrArg (· ++ _) tasks,rfl,rfl⟩ ⟨rfl,rfl⟩
  | @wrote _ after => exact wroteBalanced after
  | @unwritten f after failed =>
    have free : spends f = 0 ∧ repays f = 0 := by simpa [failed] using fits f after rfl
    cases after <;> exact taskBalanced rfl rfl rfl ⟨[],by simp [afterWriteError],rfl,rfl⟩ free
  | credited obj | failMarked obj | failDone obj => exact taskBalanced rfl (weighSame obj rfl) rfl ⟨_,rfl,rfl,rfl⟩ ⟨rfl,rfl⟩
  | connected =>
    constructor
    · simp only [holds,spawn,weighAppend,weighCons,weighNil,heldTask]
      omega
    simp only [owes,spawn,weighAppend,weighCons,weighNil,updateTask]
    omega
  | unconnected => exact taskBalanced rfl (weighModify fun _ => rfl) rfl ⟨[],by simp,rfl,rfl⟩ ⟨rfl,rfl⟩
  | @sentLast send f todo =>
    obtain ⟨one,none⟩ := dataSpends send (f := f) (by simp [todo])
    exact ⟨by simp [holds,heldTask,one],by simp [owes,updateTask,none]⟩
  | @sentMore send f _ todo =>
    obtain ⟨one,none⟩ := dataSpends send (f := f) (by simp [todo])
    constructor
    · simp only [holds,spawn,weighAppend,weighCons,weighNil,heldTask]
      omega
    simp only [owes,spawn,weighAppend,weighCons,weighNil,updateTask]
    omega
  | @unsent send =>
    simp only [holds,heldTask] at window
    constructor
    · simp only [holds,releaseCredit,addConnectionCredit,weighNil,heldTask]
      omega
    have objects : weigh queued (t.objects.modify send.ref fun s => addCredit c s 1) = weigh queued t.objects :=
      weighModify fun _ => rfl
    simp only [owes,releaseCredit,addConnectionCredit,weighNil,updateTask,objects]
  | removed => refine taskBalanced rfl rfl rfl ⟨_,rfl,?_,?_⟩ ⟨rfl,rfl⟩ <;> cases lookupStream t _ <;> rfl
  | closedDone obj => exact taskBalanced rfl (weighSame obj rfl) rfl ⟨[],by simp,rfl,rfl⟩ ⟨rfl,rfl⟩
  | failedAll => exact taskBalanced (by simp) (by simp) (by simp) ⟨[],by simp,rfl,rfl⟩ ⟨rfl,rfl⟩
  | failDelivered obj h =>
    have queue := deliveredQueue h (.inr rfl)
    exact taskBalanced rfl (weighSame obj queue) rfl ⟨_,rfl,rfl,rfl⟩ ⟨rfl,rfl⟩
  | _ => exact taskBalanced rfl rfl rfl ⟨_,rfl,rfl,rfl⟩ ⟨rfl,rfl⟩

theorem calledBalanced (h : Called c t a next) (fits : returns c t a = true) : Balanced t [] next := by
  cases h with
  | acceptStream | drainAgain | closeLate | connFail => exact balanced rfl rfl ⟨[],by simp,rfl,rfl⟩ rfl
  | @received ref s event rest obj _ head =>
    obtain ⟨held,updates⟩ := receiveUpdates ref s.id event
    have sum := weighSet (w := queued) (y := { s with recv := rest,returned := s.returned ++ [event] }) obj
    have old : queued s = eventCredit event + weigh eventCredit rest := by simp [queued,head]
    constructor
    · simp only [holds,spawn,setStream,weighAppend,weighNil]
      omega
    simp only [owes,spawn,setStream,weighAppend,weighNil]
    simp only [queued] at sum old ⊢
    omega
  | @receivedDone _ _ event _ obj _ head =>
    have free : eventCredit event = 0 := by simpa [returns,obj,head] using fits
    refine balanced rfl (weighSame obj ?_) ⟨[],by simp,rfl,rfl⟩ rfl
    simp [queued,head,free]
  | closeSend obj => exact balanced rfl (weighSame obj rfl) ⟨_,rfl,rfl,rfl⟩ rfl
  | @closeWithCode _ s code reason obj =>
    have free : spends (closeFrame s.id code reason) = 0 ∧ repays (closeFrame s.id code reason) = 0 := by
      unfold closeFrame
      split <;> exact ⟨rfl,rfl⟩
    refine balanced rfl (weighSame obj rfl) ⟨_,rfl,?_,?_⟩ rfl
    · simp [heldTask,free]
    simp [updateTask,free]
  | keepaliveFail =>
    refine balanced (by simp) (by simp) ?_ (by simp)
    unfold failAll
    split
    · exact ⟨[],by simp,rfl,rfl⟩
    exact ⟨_,rfl,rfl,rfl⟩
  | readFail here => exact balanced rfl rfl ⟨[],by simp,rfl,by rw [here]; rfl⟩ (by rw [here]; rfl)
  | _ => exact balanced rfl rfl ⟨_,rfl,rfl,rfl⟩ rfl

theorem stepBalanced (h : Step c t a next out)
    (policy : c.connectionPolicy = .perFragment) (fits : returns c t a = true)
    (window : holds t ≤ c.connectionWindow) : Balanced t out next := by
  cases h with
  | called h => exact calledBalanced h fits
  | looped h => exact loopedBalanced h policy fits window
  | @ran _ ok task _ _ ith h =>
    have held := weighErase (w := heldTask) ith
    have owed := weighErase (w := updateTask) ith
    have rule : ∀ f after, task = .write f after → ok = true ∨ spends f = 0 ∧ repays f = 0 := by
      rintro f after rfl
      simpa [returns,ith] using fits
    simp only [holds] at window
    have worked := ranBalanced h rule (by simp only [holds]; omega)
    have heldAfter := worked.held
    have owedAfter := worked.owed
    simp only [holds,owes] at heldAfter owedAfter ⊢
    exact ⟨by simp only [holds]; omega,by simp only [owes]; omega⟩

theorem takenBalanced (h : takeFrame c t f = some next) (readable : (frameBytes f).length ≤ c.maxFrame) :
    holds next = holds t + repays f ∧ owes next = owes t + spends f := by
  obtain ⟨here,_,rfl⟩ := takeExact h
  have heldHere : heldLoop t.loop = 0 := by rw [here]; rfl
  have owedHere : owedLoop t.loop = 0 := by rw [here]; rfl
  have held : heldLoop (.got f) = repays f := rfl
  have owed : owedLoop (.got f) = spends f := rfl
  simp only [if_pos readable,holds,owes]
  omega

def Conserved (cfg : Side → Config) (l : Link Transport Frame) : Prop :=
  ∀ s, credits.total l s = (cfg s).connectionWindow

theorem conservedStep (policy : ∀ s, (cfg s).connectionPolicy = .perFragment) (held : Conserved cfg l)
    (fits : kept creditRule cfg l m = true) (h : step (parties cfg) l m = some after) :
    Conserved cfg after := by
  have window (s : Side) : holds (l.party s) ≤ (cfg s).connectionWindow := by
    have total := held s
    simp only [Ledger.total,credits] at total
    omega
  intro x
  rw [← held x]
  rcases linkCases h fits with ⟨s,a,u,outs,ran,rule,worked⟩ | ⟨s,f,u,ran,readable,took⟩
  · have books := stepBalanced worked (policy s) rule (window s)
    exact totalKept ran books.held books.owed x
  obtain ⟨holding,owing⟩ := takenBalanced took (by simpa [creditRule] using readable)
  refine totalKept ran ?_ ?_ x
  · simpa [credits] using holding
  simpa [credits] using owing

-- nothing under way on either side and every queue of the peer is read
structure Quiet (l : Link Transport Frame) (s : Side) : Prop where
  wires : ∀ x, l.wire x = []
  tasks : ∀ x, (l.party x).tasks = []
  loops : ∀ x, (l.party x).loop = .idle ∨ (l.party x).loop = .stopped
  queues : ∀ o ∈ (l.party s.other).objects, o.recv = []

theorem quietReturns (quiet : Quiet l s) : credits.total l s = (l.party s).connCredit := by
  have owedIdle (x : Side) : owedLoop (l.party x).loop = 0 := by
    rcases quiet.loops x with idle | stopped
    · rw [idle]; rfl
    rw [stopped]; rfl
  have heldIdle (x : Side) : heldLoop (l.party x).loop = 0 := by
    rcases quiet.loops x with idle | stopped
    · rw [idle]; rfl
    rw [stopped]; rfl
  have read : weigh queued (l.party s.other).objects = 0 := weighZero fun o mem => by simp [queued,quiet.queues o mem]
  simp only [Ledger.total,credits,holds,owes,quiet.wires,quiet.tasks,owedIdle,heldIdle,weighNil]
  omega

theorem connectionCreditsConserved (cfg : Side → Config)
    (policy : ∀ s, (cfg s).connectionPolicy = .perFragment) (moves : List (Move Act)) (l : Link Transport Frame)
    (h : Trace (Duplex.step (parties cfg)) (kept creditRule cfg · ·) (connected cfg) moves l) (s : Side) :
    holds (l.party s) + weigh spends (l.wire s) + owes (l.party s.other) + weigh repays (l.wire s.other) =
        (cfg s).connectionWindow ∧ (Quiet l s → (l.party s).connCredit = (cfg s).connectionWindow) := by
  have start : Conserved cfg (connected cfg) := by intro s; cases s <;> rfl
  have conserved := traceInvariant (P := Conserved cfg)
    (fun _ _ _ held fits moved => conservedStep policy held fits moved) h start s
  exact ⟨conserved,fun quiet => (quietReturns quiet).symm.trans conserved⟩

def sendsMessage : List (Move Act) :=
  opensStream ++ ([.act .client (.send 0 hello),.act .client (.task 0 true),
    .act .client (.task 0 true),.act .client (.task 0 true),.take .server,.act .server (.loop true),
    .act .server (.loop true),.act .server (.loop true)] : List (Move Act))

theorem connectionCreditsConservedQueued : ∃ l : Link Transport Frame, (l.party .client).connCredit = 15 ∧
    holds (l.party .client) + weigh spends (l.wire .client) + owes (l.party .server) +
      weigh repays (l.wire .server) = 16 := by
  have accepted : accepts (step (parties plain)) (kept creditRule plain · ·) (connected plain) sendsMessage =
      true := by decide
  obtain ⟨l,ran,trace⟩ := acceptedTrace accepted
  refine ⟨l,?_,(connectionCreditsConserved plain (fun _ => rfl) sendsMessage l trace .client).1⟩
  have seen : ((run (step (parties plain)) (connected plain) sendsMessage).map
      fun l => (l.party .client).connCredit) = some 15 := by decide
  simpa [ran] using seen

def readsAfterClose : List (Move Act) :=
  [.act .server (.closeWithCode 0 codeOK []),.act .server (.task 0 true),.act .server (.task 0 true),
    .act .server (.task 0 true),.act .server (.task 0 true),.take .client,.act .client (.loop true),
    .act .client (.loop true),.act .client (.loop true),.act .client (.loop true),.act .client (.loop true),
    .act .server (.receive 0 true)]

theorem closedReceiveKeepsCredit :
    ¬ ∀ moves l, Trace (Duplex.step (parties plain)) Free (connected plain) moves l → ∀ s,
      holds (l.party s) + weigh spends (l.wire s) + owes (l.party s.other) + weigh repays (l.wire s.other) =
        (plain s).connectionWindow := by
  intro conserved
  have lost : ((run (step (parties plain)) (connected plain) (sendsMessage ++ readsAfterClose)).map
      fun l => holds (l.party .client) + weigh spends (l.wire .client) + owes (l.party .server) +
        weigh repays (l.wire .server)) = some 15 := by decide
  obtain ⟨l,ran,seen⟩ := Option.map_eq_some_iff.mp lost
  have total := conserved _ l (runFree ran) .client
  rw [show Side.client.other = .server from rfl,seen] at total
  exact absurd total (by decide)

end Gofly.MuxCredit
