import Gofly.MuxSteps

/-! Which streams a transport admits. -/
namespace Gofly.MuxAdmission
open Transition MuxFrame MuxMessage MuxState MuxTransport MuxSteps Duplex
open FramedTransport (plainCodecs)

inductive Input where
  | act (a : Act)
  | frame (f : Frame)

def step (c : Config) (t : Transport) : Input → Option Transport
  | .act a => (act c t a).map Prod.fst
  | .frame f => takeFrame c t f

def inserts (c : Config) (t : Transport) (id : UInt64) : Bool :=
  lookupStream t id = none ∧ t.draining = false ∧ full c t = false

def orderly (c : Config) (t : Transport) : Input → Bool
  | .act (.loop _) =>
    match seeks t.loop with
    | some (id,_) => inserts c t id → t.closed = false
    | none => true
  | .act (.task index _) =>
    match t.tasks[index]? with
    | some (.register id) => t.remoteDraining → lookupStream t id = none
    | _ => true
  | _ => true

structure Admits (c : Config) (t next : Transport) : Prop where
  bounded : 0 < c.maxStreams → t.streams.length ≤ c.maxStreams → next.streams.length ≤ c.maxStreams
  drained : t.draining = true → next.draining = true ∧ ∀ ref ∈ next.streams, ref ∈ t.streams
  remote : t.remoteDraining = true → next.remoteDraining = true ∧ next.opened = t.opened
  shut : (t.closed = true → t.streams = []) → next.closed = true → next.streams = []


theorem admitsFewer (streams : next.streams.Sublist t.streams) (closed : next.closed = t.closed)
    (draining : next.draining = t.draining) (remote : next.remoteDraining = t.remoteDraining)
    (opened : next.opened = t.opened) : Admits c t next where
  bounded _ fits := streams.length_le.trans fits
  drained was := ⟨draining.trans was,fun ref mem => streams.subset mem⟩
  remote was := ⟨remote.trans was,opened⟩
  shut was now := by
    rw [closed] at now
    rw [was now] at streams
    exact List.sublist_nil.mp streams

theorem admitsSame (streams : next.streams = t.streams) (closed : next.closed = t.closed)
    (draining : next.draining = t.draining) (remote : next.remoteDraining = t.remoteDraining)
    (opened : next.opened = t.opened) : Admits c t next :=
  admitsFewer (streams ▸ List.Sublist.refl _) closed draining remote opened

theorem admitsEmptied (streams : next.streams = []) (draining : t.draining = true → next.draining = true)
    (remote : next.remoteDraining = t.remoteDraining) (opened : next.opened = t.opened) :
    Admits c t next where
  bounded _ _ := by simp [streams]
  drained was := ⟨draining was,by simp [streams]⟩
  remote was := ⟨remote.trans was,opened⟩
  shut _ _ := streams

theorem createdBounded (room : full c t = false) (limit : 0 < c.maxStreams) (id) :
    (createStream c t id).streams.length ≤ c.maxStreams := by
  simp only [full,decide_eq_false_iff_not] at room
  simp only [createStream,List.length_append,List.length_singleton]
  omega

theorem soughtAdmits {id} (h : Sought c t id job next)
    (ordered : inserts c t id = true → t.closed = false) : Admits c t next := by
  cases h with
  | found | rejected => exact admitsSame rfl rfl rfl rfl rfl
  | created gone serving room =>
    have live : t.closed = false := ordered (by simp [inserts,gone,serving,room])
    exact {
      bounded limit _ := createdBounded room limit id
      drained was := absurd was (by simp [serving])
      remote was := ⟨was,rfl⟩
      shut _ now := absurd (show t.closed = true from now) (by simp [live]) }

theorem dispatchedAdmits (h : Dispatched c t f next)
    (ordered : ∀ id job, seeks (.got f) = some (id,job) → inserts c t id = true → t.closed = false) :
    Admits c t next := by
  cases h with
  | sought asks h => exact soughtAdmits h (ordered _ _ asks)
  | goneAway =>
    exact {
      bounded _ fits := fits
      drained was := ⟨was,fun _ mem => mem⟩
      remote _ := ⟨rfl,rfl⟩
      shut was now := was now }
  | _ => exact admitsSame rfl rfl rfl rfl rfl

theorem failAllAdmits (err) : Admits c t (failAll t err) := by
  unfold failAll
  split
  · exact admitsSame rfl rfl rfl rfl rfl
  exact admitsEmptied rfl id rfl rfl

theorem loopedAdmits (h : Looped c t ok next)
    (ordered : ∀ id job, seeks t.loop = some (id,job) → inserts c t id = true → t.closed = false) :
    Admits c t next := by
  cases h with
  | dispatched here h => exact dispatchedAdmits h (here ▸ ordered)
  | relooked here h => exact soughtAdmits h (ordered _ _ (by rw [here]; rfl))
  | removed => exact admitsFewer List.filter_sublist rfl rfl rfl rfl
  | @failed err =>
    have all : Admits c t (failAll t err) := failAllAdmits err
    exact { all with }
  | found _ _ h => cases h <;> exact admitsSame rfl rfl rfl rfl rfl
  | _ => exact admitsSame rfl rfl rfl rfl rfl

theorem registeredAdmits {id}
    (h : Registered c t id next ref) (fresh : t.remoteDraining = true → lookupStream t id = none)
    (eq : u = { spawn next tasks with opened := t.opened ++ [id] }) : Admits c t u := by
  subst eq
  cases h with
  | found _ known =>
    exact {
      bounded _ fits := fits
      drained was := ⟨was,fun _ mem => mem⟩
      remote was := absurd known (by simp [fresh was])
      shut was now := was now }
  | created live _ serving =>
    exact {
      bounded limit _ := createdBounded serving.2.2 limit id
      drained was := absurd was (by simp [serving.1])
      remote was := absurd was (by simp [serving.2.1])
      shut _ now := absurd (show t.closed = true from now) (by simp [live]) }

theorem ranAdmits (h : Ran c t ok task next out)
    (fresh : ∀ id, task = .register id → t.remoteDraining = true → lookupStream t id = none) : Admits c t next := by
  cases h with
  | registered h => exact registeredAdmits h (fresh _ rfl) rfl
  | removed | removedDone => exact admitsFewer List.filter_sublist rfl rfl rfl rfl
  | @wrote _ after => cases after <;> exact admitsSame rfl rfl rfl rfl rfl
  | @unwritten _ after =>
    cases after with
    | opened => exact admitsFewer List.filter_sublist rfl rfl rfl rfl
    | _ => exact admitsSame rfl rfl rfl rfl rfl
  | @failedAll who =>
    cases who with
    | close => exact admitsSame rfl rfl rfl rfl rfl
    | failAll =>
      simp only [finishClose]
      split <;> exact admitsSame rfl rfl rfl rfl rfl
  | _ => exact admitsSame rfl rfl rfl rfl rfl

theorem calledAdmits (h : Called c t a next) : Admits c t next := by
  cases h with
  | drain =>
    exact {
      bounded _ fits := fits
      drained _ := ⟨rfl,fun _ mem => mem⟩
      remote was := ⟨was,rfl⟩
      shut was now := was now }
  | close => exact admitsEmptied rfl id rfl rfl
  | keepaliveFail => exact failAllAdmits _
  | _ => exact admitsSame rfl rfl rfl rfl rfl

theorem orderlyLoop (ordered : orderly c t (.act (.loop ok)) = true) (id job)
    (asks : seeks t.loop = some (id,job)) (inserting : inserts c t id = true) : t.closed = false := by
  simp only [orderly,asks,decide_eq_true_eq] at ordered
  exact ordered inserting

theorem orderlyTask (ordered : orderly c t (.act (.task index ok)) = true)
    (id) (ith : t.tasks[index]? = some (.register id)) (draining : t.remoteDraining = true) :
    lookupStream t id = none := by
  simp only [orderly,ith,decide_eq_true_eq] at ordered
  exact ordered draining

theorem stepAdmits (h : step c t input = some next) (ordered : orderly c t input = true) : Admits c t next := by
  cases input with
  | act =>
    obtain ⟨⟨u,out⟩,acted,rfl⟩ := Option.map_eq_some_iff.mp h
    cases stepOf acted with
    | called made => exact calledAdmits made
    | looped looped => exact loopedAdmits looped (orderlyLoop ordered)
    | ran ith worked =>
      have ran := ranAdmits worked fun id isRegister => orderlyTask ordered id (isRegister ▸ ith)
      exact { ran with }
  | frame =>
    obtain ⟨_,_,rfl⟩ := takeExact h
    exact admitsSame rfl rfl rfl rfl rfl

structure Admission (c : Config) (t u : Transport) : Prop where
  bounded : 0 < c.maxStreams → u.streams.length ≤ c.maxStreams
  drained : t.draining = true → u.draining = true ∧ ∀ ref ∈ u.streams, ref ∈ t.streams
  remote : t.remoteDraining = true → u.remoteDraining = true ∧ u.opened = t.opened
  shut : u.closed = true → u.streams = []

theorem admissionStep (held : Admission c t u)
    (ordered : orderly c u input = true) (h : step c u input = some next) : Admission c t next := by
  have admits := stepAdmits h ordered
  refine ⟨fun limit => admits.bounded limit (held.bounded limit),fun was => ?_,fun was => ?_,admits.shut held.shut⟩
  · obtain ⟨still,within⟩ := held.drained was
    obtain ⟨now,fewer⟩ := admits.drained still
    exact ⟨now,fun ref mem => within ref (fewer ref mem)⟩
  obtain ⟨still,eq⟩ := held.remote was
  obtain ⟨now,opened⟩ := admits.remote still
  exact ⟨now,opened.trans eq⟩

theorem admissionInvariant (c : Config) (side : Side) (before after : List Input) (t u : Transport)
    (first : Trace (step c) (orderly c · ·) (newTransport c side) before t)
    (later : Trace (step c) (orderly c · ·) t after u) : Admission c t u := by
  have start : Admission c (newTransport c side) (newTransport c side) :=
    ⟨fun limit => Nat.zero_le _,fun was => ⟨was,fun _ member => member⟩,fun was => ⟨was,rfl⟩,fun _ => rfl⟩
  have reached := traceInvariant (P := Admission c (newTransport c side))
    (fun _ _ _ held ordered moved => admissionStep held ordered moved) first start
  exact traceInvariant (P := Admission c t) (fun _ _ _ held ordered moved => admissionStep held ordered moved) later
    ⟨reached.bounded,fun was => ⟨was,fun _ member => member⟩,fun was => ⟨was,rfl⟩,reached.shut⟩

def small : Config := newConfig plainCodecs [.maxStreams 1]
def opensThenDrains : List Input :=
  [.act .openStream,.act (.task 0 true),.act (.task 0 true),.act (.drain [])]

theorem admissionInvariantDraining : ∃ t u, t.draining = true ∧ t.opened = [1] ∧ Admission small t u := by
  refine ⟨_,_,?_,?_,admissionInvariant small .client opensThenDrains [.act .openStream] _ _
    (.more rfl rfl <| .more rfl rfl <| .more rfl rfl <| .more rfl rfl <| .done _)
    (.more rfl rfl <| .done _)⟩
  · rfl
  rfl

def closesUnderDispatch : List Input := [.frame (openFrame 1),.act .close,.act (.loop true)]

theorem closedTransportAccepts : ¬ ∀ before after t u, Trace (step small) Free (newTransport small .server) before t →
      Trace (step small) Free t after u → Admission small t u := by
  intro admission
  have kept : ((run (step small) (newTransport small .server) closesUnderDispatch).map
      fun u => (u.closed,u.streams)) = some (true,[0]) := by decide
  obtain ⟨u,ran,seen⟩ := Option.map_eq_some_iff.mp kept
  obtain ⟨shut,left⟩ := Prod.mk.inj seen
  have empty := (admission _ [] u u (runFree ran) (.done u)).shut shut
  rw [empty] at left
  cases left

end Gofly.MuxAdmission
