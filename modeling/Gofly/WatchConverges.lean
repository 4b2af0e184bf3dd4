import Gofly.RegistrySteady
/-! Watch returns, and its watcher converges. A Watch waits only for a free slot when it sends
its snapshot, and until then its watcher stays registered. -/
namespace Gofly.MemoryRegistry
open Discovery Mailbox Tasks Transition Roster
open Instr
open Option (any_eq_true)

namespace Instr

def isAnnounce (ch : Nat) : Instr → Bool
  | .announce other _ _ => other == ch
  | _ => false

def isSend (ch : Nat) : Instr → Bool
  | .first other _ => other == ch
  | _ => false

def isFirst (ch : Nat) (x : Instr) : Bool := x.isAnnounce ch || x.isSend ch
end Instr

structure Opens (w : World) : Prop where
  before : ∀ ch, ahead (isFirst ch) w.tasks + mark Watcher.opened w.reg.watchers ch ≤
    mark (fun _ => true) w.reg.watchers ch
  cancels : ∀ ch, mark Watcher.cancelled w.reg.watchers ch ≤ mark Watcher.opened w.reg.watchers ch

theorem execOpened (ran : x.exec r luck = some (next,pushed)) (ch) :
    mark Watcher.opened r.watchers ch ≤ mark Watcher.opened next.watchers ch ∧ mark Watcher.opened next.watchers ch ≤
        mark Watcher.opened r.watchers ch + if isSend ch x then 1 else 0 := by
  have eq (equal : mark Watcher.opened next.watchers ch = mark Watcher.opened r.watchers ch) :
      mark Watcher.opened r.watchers ch ≤ mark Watcher.opened next.watchers ch ∧
        mark Watcher.opened next.watchers ch ≤ mark Watcher.opened r.watchers ch + if isSend ch x then 1 else 0 := by
    omega
  cases x with
  | watchEnter =>
    cases ran
    exact eq (by simp [markAdded])
  | first other event =>
    obtain ⟨watcher,seen,rfl,⟨_,rfl⟩ | ⟨_,rfl⟩⟩ := execFirst ran
    · have raised := markRaised (p := Watcher.opened)
        (f := fun y => { y with chan := (watcher.chan.offer event false).1,opened := true })
        (fun _ => rfl) r.watchers other ch
      have le : mark Watcher.opened r.watchers ch ≤ mark (fun _ => true) r.watchers ch :=
        markMono (fun _ _ => rfl) r.watchers ch
      have here : mark (fun _ : Watcher => true) r.watchers ch ≤ 1 := Bool.toNat_le _
      simp only [Registry.setWatcher,raised,isSend,beq_iff_eq]
      split_ifs <;> omega
    exact eq rfl
  | leave =>
    cases ran
    exact eq (markSame (p := Watcher.opened) (f := fun y => { y with registered := false }) (fun _ => rfl) ..)
  | deliver d =>
    obtain ⟨watcher,seen,done⟩ := Option.bind_eq_some_iff.mp ran
    cases done
    exact eq (markSame (p := Watcher.opened)
      (f := fun y => { y with chan := (Delivery.deliver watcher.chan false d).box }) (fun _ => rfl) ..)
  | store _ | remove _ | extend _ _ | resolve _ _ _ | snapshot _ | watchResolve _ _ _ | notify _
  | stamp | gather | announce | grant => exact eq (by rw [(execQuiet rfl ran).1])

theorem firstOn (first : isFirst ch x = true) : isOn ch x = true := by
  cases x with
  | announce | first => simpa [isFirst,isAnnounce,isSend,isOn] using first
  | _ => simp [isFirst,isAnnounce,isSend] at first

theorem execFirsts (ran : x.exec r luck = some (next,pushed)) (ch) :
    pushed.countP (isFirst ch) ≤ (if isAnnounce ch x then 1 else 0) + if isEnter r ch x then 1 else 0 := by
  have fewer : pushed.countP (isFirst ch) ≤ pushed.countP (isOn ch) :=
    List.countP_mono_left fun _ _ first => firstOn first
  cases x with
  | watchEnter =>
    cases ran
    simp only [List.countP_append,expiryCount (p := isFirst ch) fun _ => rfl]
    simp only [List.countP_singleton,isFirst,isAnnounce,isSend,isEnter,Bool.or_false,beq_iff_eq, eq_comm (a := ch)]
    omega
  | announce =>
    cases ran
    simp [isFirst,isAnnounce,isSend]
  | first =>
    obtain ⟨watcher,seen,rfl,_⟩ := execFirst ran
    exact Nat.zero_le _
  | deliver =>
    obtain ⟨watcher,seen,done⟩ := Option.bind_eq_some_iff.mp ran
    cases done
    rw [pushedCount Instr.deliver (isFirst ch) (fun _ => false) fun _ => rfl]
    simp
  | gather =>
    obtain ⟨watcher,seen,done⟩ := Option.bind_eq_some_iff.mp ran
    cases done
    exact Nat.zero_le _
  | store _ | remove _ | extend _ _ | resolve _ _ _ | snapshot _ | watchResolve _ _ _ | notify _
  | stamp | leave | grant =>
    have none : pushed.countP (isOn ch) = 0 := execOn ran rfl rfl rfl
    omega

theorem execOpens (opens : Opens w) (got : w.tasks[i]? = some (x :: rest))
    (ran : x.exec w.reg luck = some (next,pushed)) : Opens ⟨next,turn w.tasks i pushed rest⟩ := by
  refine ⟨fun ch => ?_,fun ch => ?_⟩
  · have count := aheadTurn (isFirst ch) pushed got
    have firsts := execFirsts ran ch
    have opened := (execOpened ran ch).2
    have old := opens.before ch
    have one : (if isFirst ch x then 1 else 0) = (if isAnnounce ch x then 1 else 0) +
        if isSend ch x then 1 else 0 := by
      cases x <;> simp [isFirst,isAnnounce,isSend]
    simp only [execPresent ran ch]
    omega
  have opened := (execOpened ran ch).1
  have old := opens.cancels ch
  simp only [execCancelled ran ch]
  omega

theorem stepOpens (opens : Opens w) (moved : step w act = some next) : Opens next := by
  cases stepMoved moved with
  | call opening =>
    refine ⟨fun ch => ?_,opens.cancels⟩
    have none := openingCount (p := isFirst ch) opening fun x opens => by
      cases x <;> first | rfl | cases opens
    simpa only [World.call,aheadSpawn,none,Nat.add_zero] using opens.before ch
  | @cancel ch y seen opened =>
    have isSame (p : Watcher → Bool) (eq : ∀ y, p { y with cancelled := true } = p y) := markSame eq w.reg.watchers ch
    have raised := markRaised (p := Watcher.cancelled) (f := fun y => { y with cancelled := true })
      (fun _ => rfl) w.reg.watchers ch
    refine ⟨fun other => ?_,fun other => ?_⟩
    · have none : [Instr.leave ch].countP (isFirst other) = 0 := rfl
      simpa only [World.call,Registry.setWatcher,isSame Watcher.opened fun _ => rfl,
        isSame (fun _ => true) fun _ => rfl,aheadSpawn,none,Nat.add_zero] using opens.before other
    have old := opens.cancels other
    simp only [World.call,Registry.setWatcher,isSame Watcher.opened fun _ => rfl,raised]
    split_ifs with here
    · subst here
      rw [markSeen seen,markSeen seen,opened]
    exact old
  | @receive ch y event _ _ opened =>
    have isSame (p : Watcher → Bool) (eq : ∀ y, p { y with chan := y.chan.poll,last := some event } = p y) :=
      markSame eq w.reg.watchers ch
    refine ⟨fun other => ?_,fun other => ?_⟩
    · simpa only [Registry.setWatcher,isSame Watcher.opened fun _ => rfl,
        isSame (fun _ => true) fun _ => rfl] using opens.before other
    simpa only [Registry.setWatcher,isSame Watcher.opened fun _ => rfl,
      isSame Watcher.cancelled fun _ => rfl] using opens.cancels other
  | tick => exact { opens with }
  | run got ran => exact execOpens opens got ran

theorem opensStart (now) : Opens (start now) := ⟨by simp [start,mark,ahead],by simp [start,mark]⟩

def watchTurns : Instr → Nat
  | .watchResolve .. => 4
  | .watchEnter .. => 3
  | .announce .. => 2
  | .first .. => 1
  | _ => 0

def Runs (r : Registry) (x : Instr) : Prop :=
  ∀ luck, ∃ next pushed, x.exec r luck = some (next,pushed) ∧
    (0 < watchTurns x →
      (∀ later ∈ pushed, 0 < watchTurns later) ∧ (pushed.map watchTurns).sum < watchTurns x)

section
variable {w : World} {i : Nat} {x : Instr} {ch : Nat}

theorem targetSeen (held : Held w) (got : w.tasks[i]? = some (x :: rest)) (target : isTarget ch x = true) :
    ∃ y, w.reg.watchers[ch]? = some y := by
  by_contra gone
  have beyond : w.reg.watchers.length ≤ ch :=
    List.getElem?_eq_none_iff.mp (Option.eq_none_iff_forall_ne_some.mpr fun y seen => gone ⟨y,seen⟩)
  have isAhead := aheadPositive got List.mem_cons_self target
  exact absurd (held.aimed ch beyond) isAhead.ne'

theorem firstRegistered (kept : Kept w) (opens : Opens w) (got : w.tasks[i]? = some (x :: rest))
    (first : isFirst ch x = true) : mark Watcher.registered w.reg.watchers ch = 1 := by
  have isAhead := aheadPositive got List.mem_cons_self first
  have old := opens.before ch
  have cancels := opens.cancels ch
  have awaited := kept.awaited ch
  have known : mark Watcher.registered w.reg.watchers ch ≤ 1 := Bool.toNat_le _
  have either : mark isOpen w.reg.watchers ch + mark Watcher.cancelled w.reg.watchers ch =
      mark (fun _ => true) w.reg.watchers ch := markNot Watcher.cancelled w.reg.watchers ch
  omega

theorem firstRuns (held : Held w) (opens : Opens w)
    (got : w.tasks[i]? = some (.first ch event :: rest)) : Runs w.reg (.first ch event) := by
  intro luck
  obtain ⟨y,seen⟩ := targetSeen held got (beq_self_eq_true ch)
  have known : y.registered = true := by
    have first : isFirst ch (.first ch event) = true := by simp [isFirst,isSend]
    have one := firstRegistered held.toKept opens got first
    rw [markSeen seen] at one
    exact Bool.toNat_eq_one.mp one
  have tended := held.tended ch y seen known
  have empty := tended.bare _ (aheadHere got) (beq_self_eq_true ch)
  have taken := offerTaken event false (registeredLives held.toKept seen known).1
    (by rw [empty,tended.room.1]; exact Nat.one_pos)
  refine ⟨w.reg.setWatcher ch fun x =>
    { x with chan := { y.chan with queue := y.chan.queue ++ [event] },opened := true },[],?_,
    fun _ => ⟨by simp,Nat.one_pos⟩⟩
  simp only [Instr.exec,seen,Option.bind_eq_bind,Option.bind_some,taken]

theorem deliverRuns (held : Held w) (got : w.tasks[i]? = some (.deliver d :: rest)) : Runs w.reg (.deliver d) := by
  intro luck
  obtain ⟨y,seen⟩ : ∃ y, w.reg.watchers[d.channel]? = some y := by
    by_cases closes : d.isClose d.channel = true
    · have once := held.once d.channel
      have isAhead := aheadPositive (p := isClose d.channel) got List.mem_cons_self closes
      obtain ⟨y,seen,_⟩ := (any_eq_true _ _).mp
        (Bool.toNat_eq_one.mp (show mark isLive w.reg.watchers d.channel = 1 by
          have live : mark isLive w.reg.watchers d.channel ≤ 1 := Bool.toNat_le _
          omega))
      exact ⟨y,seen⟩
    refine targetSeen held got (x := .deliver d) ?_
    cases d <;> simp_all [isTarget,Delivery.isClose,Delivery.isFlight,Delivery.channel]
  obtain ⟨⟨next,pushed⟩,ran⟩ : ∃ out, Instr.exec w.reg luck (.deliver d) = some out :=
    ⟨_,by simp only [Instr.exec,seen]; rfl⟩
  exact ⟨next,pushed,ran,fun turns => absurd turns (Nat.lt_irrefl 0)⟩

theorem heldRuns (held : Held w) (opens : Opens w) (got : w.tasks[i]? = some (x :: rest)) : Runs w.reg x := by
  cases x with
  | watchResolve | announce => exact fun luck => ⟨_,_,rfl,fun _ => by simp [watchTurns]⟩
  | watchEnter _ _ _ expired =>
    have nothing : expired = [] := held.clean _ (aheadHere got)
    subst nothing
    exact fun luck => ⟨_,_,rfl,fun _ => by simp [watchTurns]⟩
  | first => exact firstRuns held opens got
  | deliver => exact deliverRuns held got
  | gather news ch t =>
    intro luck
    obtain ⟨y,seen⟩ := targetSeen held got (beq_self_eq_true ch)
    obtain ⟨⟨next,pushed⟩,ran⟩ : ∃ out, Instr.exec w.reg luck (.gather news ch t) = some out :=
      ⟨_,by simp only [Instr.exec,seen]; rfl⟩
    exact ⟨next,pushed,ran,fun turns => absurd turns (Nat.lt_irrefl 0)⟩
  | store | remove | extend | resolve | snapshot | notify | stamp | leave | grant =>
    exact fun luck => ⟨_,_,rfl,fun turns => absurd turns (Nat.lt_irrefl 0)⟩
end

def Goes (w : World) : Prop := ∀ (i : Nat) x rest, w.tasks[i]? = some (x :: rest) → Runs w.reg x
def Quiescent (w : World) : Prop := w.reg.fault = none ∧ ∀ task ∈ w.tasks, task = []
instance (w : World) : Decidable (Quiescent w) :=
  inferInstanceAs (Decidable (_ ∧ ∀ task ∈ w.tasks, task = []))

def Carries (event : Event) : Except String (List Instance) → Prop
  | .ok instances => event.instances.Perm instances
  | .error _ => event.instances = []

/-- No expired instance of a watched service waits to be taken away. -/
def Unexpired (w : World) : Prop :=
  ∀ y ∈ w.reg.watchers, y.registered = true → Fresh w.reg.now (w.reg.services y.service)

instance (w : World) : Decidable (Unexpired w) :=
  inferInstanceAs (Decidable (∀ y ∈ w.reg.watchers, _))

def Converged (w : World) : Prop :=
  ∀ (ch : Nat) y, w.reg.watchers[ch]? = some y → y.registered = true → y.chan.queue = [] →
    ∃ event, y.last = some event ∧
      ∀ order, Carries event (resolveLocked order (w.reg.services y.service) y.options w.reg.now).answer

theorem carriesAnswer {got : Resolved} (eq : event.instances.Perm got.instances) : Carries event got.answer := by
  unfold Resolved.answer
  split
  · exact List.Perm.eq_nil (‹_› ▸ eq)
  exact eq

theorem heldConverged (held : Held w) (quiescent : Quiescent w) (unexpired : Unexpired w) : Converged w := by
  intro ch y seen known drained
  have none (p : Instr → Bool) := aheadDone p quiescent.2
  rcases (held.tended ch y seen known).told with due | told
  · exact absurd (none _) due.ne'
  obtain ⟨event,last,eq⟩ := told.received (none _) drained
  refine ⟨event,last,fun order => carriesAnswer (eq.trans ?_)⟩
  have fresh := unexpired y (List.mem_of_getElem? seen) known
  exact (resolveListed fresh order y.options).symm

theorem steadyWatchConverges (now : Int) (as : List Act) (w : World) (trace : Trace step Steady (start now) as w) :
    Goes w ∧ (Quiescent w → Unexpired w → Converged w) := by
  have both : Held w ∧ Opens w := traceInvariant (P := fun w => Held w ∧ Opens w)
    (fun _ _ _ kept fits moved => ⟨stepHeld kept.1 fits moved,stepOpens kept.2 moved⟩) trace
    ⟨heldStart now,opensStart now⟩
  exact ⟨fun _ _ _ found => heldRuns both.1 both.2 found,heldConverged both.1⟩

def instanceAt (id : String) : Instance := ⟨id,"s",id,1,"","","",∅,∅⟩
def turns (n i : Nat) : List Act := List.replicate n (.run i ⟨[],[],0⟩)

def secondExpires : List Act :=
  ([.register (instanceAt "a") []] : List Act) ++ turns 3 0 ++ ([.tick 5,.watch "s" []] : List Act) ++ turns 4 1 ++
    ([.receive 0] : List Act) ++ ([.register (instanceAt "b") [10]] : List Act) ++ turns 6 2 ++
    ([.receive 0,.tick 20,.resolve "s" []] : List Act) ++ turns 5 3 ++ ([.receive 0] : List Act)

theorem secondConverges : ∃ w, run step (start 0) secondExpires = some w ∧ Quiescent w ∧ Unexpired w ∧
    w.reg.watchers.map (fun y => (y.chan.queue.length,y.last.map fun e => e.instances.map Instance.id)) =
      [(0,some ["a"])] ∧ Goes w ∧ Converged w := by
  have accepted : accepts step Steady (start 0) secondExpires = true := by decide +kernel
  have ends : (run step (start 0) secondExpires).map (fun w => (decide (Quiescent w ∧ Unexpired w),
      w.reg.watchers.map fun y => (y.chan.queue.length,y.last.map fun e => e.instances.map Instance.id))) =
      some (true,[(0,some ["a"])]) := by decide +kernel
  obtain ⟨w,ran,trace⟩ := acceptedTrace accepted
  rw [ran] at ends
  simp only [Option.map_some,Option.some.injEq,Prod.mk.injEq,decide_eq_true_eq] at ends
  have both := steadyWatchConverges 0 secondExpires w trace
  exact ⟨w,ran,ends.1.1,ends.1.2,ends.2,both.1,both.2 ends.1.1 ends.1.2⟩

def expiredBefore : List Act :=
  ([.register (instanceAt "a") [1]] : List Act) ++ turns 3 0 ++ ([.tick 2,.watch "s" []] : List Act) ++ turns 7 1

def registeredBetween : List Act :=
  ([.watch "s" []] : List Act) ++ turns 1 0 ++ ([.register (instanceAt "a") []] : List Act) ++ turns 3 1 ++
    turns 3 0 ++ ([.receive 0] : List Act)

theorem watchStuckOrStale : (¬ ∀ now as w, Trace step Free (start now) as w → Goes w) ∧
    ¬ ∀ now as w, Trace step Free (start now) as w → Quiescent w → Converged w := by
  constructor
  · intro law
    have waits : (run step (start 0) expiredBefore).any (fun w =>
        (w.tasks[1]?.bind List.head?).any fun x => (x.exec w.reg ⟨[],[],0⟩).isNone) = true := by decide +kernel
    obtain ⟨w,ran,stuck⟩ := (any_eq_true _ _).mp waits
    obtain ⟨x,first,stays⟩ := (any_eq_true _ _).mp stuck
    obtain ⟨task,found,begins⟩ := Option.bind_eq_some_iff.mp first
    obtain ⟨rest,rfl⟩ := List.head?_eq_some_iff.mp begins
    obtain ⟨next,pushed,runs,_⟩ := law 0 expiredBefore w (runFree ran) 1 x rest found ⟨[],[],0⟩
    simp [runs] at stays
  intro law
  have stale : (run step (start 0) registeredBetween).any (fun w =>
      decide (Quiescent w) && w.reg.watchers[0]?.any fun y =>
        y.registered && y.chan.queue.isEmpty && y.last.all (·.instances.isEmpty) &&
          !(resolveLocked [] (w.reg.services y.service) y.options w.reg.now).instances.isEmpty) =
      true := by decide +kernel
  obtain ⟨w,ran,found⟩ := (any_eq_true _ _).mp stale
  simp only [Bool.and_eq_true,decide_eq_true_eq] at found
  obtain ⟨quiescent,seen⟩ := found
  obtain ⟨y,here,facts⟩ := (any_eq_true _ _).mp seen
  simp only [Bool.and_eq_true] at facts
  obtain ⟨⟨⟨registered,drained⟩,told⟩,differs⟩ := facts
  obtain ⟨event,last,carries⟩ := law 0 registeredBetween w (runFree ran) quiescent 0 y here registered
    (List.isEmpty_iff.mp drained)
  have empty : event.instances = [] := by simpa [last] using told
  have answer : (resolveLocked [] (w.reg.services y.service) y.options w.reg.now).answer =
      .ok (resolveLocked [] (w.reg.services y.service) y.options w.reg.now).instances :=
    if_neg (by simpa using differs)
  have carried := carries []
  rw [answer,Carries,empty] at carried
  simp [carried.nil_eq.symm] at differs

end Gofly.MemoryRegistry
