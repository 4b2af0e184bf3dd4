import Gofly.MemoryRegistry
/-! The channels of the registry's watchers. -/
namespace Gofly.MemoryRegistry
open Discovery Mailbox Tasks Transition Roster
open Option (bind_eq_some_iff)
open Nat (add_zero zero_le)

namespace Instr

def isLeave (ch : Nat) : Instr → Bool
  | .leave other => other == ch
  | _ => false

def isClose (ch : Nat) : Instr → Bool
  | .deliver d => d.isClose ch
  | _ => false

def isTarget (ch : Nat) : Instr → Bool
  | .stamp _ watchers => watchers.contains ch
  | .gather _ other _ | .announce other _ _ | .first other _ => other == ch
  | .deliver d => d.isFlight ch
  | _ => false

def isQuiet : Instr → Bool
  | .watchEnter .. | .first .. | .leave _ | .deliver _ => false
  | _ => true

def isEnter (r : Registry) (ch : Nat) : Instr → Bool
  | .watchEnter .. => ch == r.watchers.length
  | _ => false

end Instr
open Instr

def isLive (x : Watcher) : Bool := !x.chan.closed
def isOpen (x : Watcher) : Bool := !x.cancelled

section
variable {x : Instr}

theorem execQuiet (quiet : isQuiet x = true) (ran : x.exec r luck = some (next,pushed)) :
    next.watchers = r.watchers ∧ next.fault = r.fault := by
  cases x with
  | watchEnter | first | leave | deliver => cases quiet
  | gather =>
    obtain ⟨watcher,seen,done⟩ := bind_eq_some_iff.mp ran
    cases done
    exact ⟨rfl,rfl⟩
  | store _ | remove _ | extend _ _ | resolve _ _ _ | snapshot _ | watchResolve _ _ _ | notify _
  | stamp | announce | grant =>
    cases ran
    exact ⟨rfl,rfl⟩

theorem execFirst (ran : Instr.exec r luck (.first ch event) = some (next,pushed)) :
    ∃ watcher, r.watchers[ch]? = some watcher ∧ pushed = [] ∧ ((watcher.chan.closed = false ∧
          next = r.setWatcher ch fun x =>
            { x with chan := (watcher.chan.offer event false).1,opened := true }) ∨
        (watcher.chan.closed = true ∧ next = { r with fault := some .sent })) := by
  obtain ⟨watcher,seen,done⟩ := bind_eq_some_iff.mp ran
  refine ⟨watcher,seen,?_⟩
  split at done <;> try contradiction
  · rename_i offered
    cases done
    refine ⟨rfl,.inl ⟨Bool.eq_false_iff.mpr fun closed => ?_,by rw [offered]⟩⟩
    have fault : (watcher.chan.offer event false).2 = .fault := offerFault.mpr closed
    rw [offered] at fault
    cases fault
  rename_i offered
  cases done
  exact ⟨rfl,.inr ⟨offerFault.mp (by rw [offered]),rfl⟩⟩

theorem execMark (chan : ∀ y box, p { y with chan := box } = p y)
    (opened : ∀ y box, p { y with chan := box,opened := true } = p y)
    (left : ∀ y, p { y with registered := false } = (stays && p y))
    (entered : ∀ service options, p ⟨service,options,⟨1,[],false⟩,true,false,false,none⟩ = new)
    (ran : x.exec r luck = some (next,pushed)) (ch) : mark p next.watchers ch =
      (if isLeave ch x && !stays then 0 else mark p r.watchers ch) + (if isEnter r ch x then new.toNat else 0) := by
  cases x with
  | watchEnter =>
    cases ran
    simp only [markAdded,entered,isEnter,beq_iff_eq]
    rfl
  | first other =>
    obtain ⟨watcher,_,_,⟨_,rfl⟩ | ⟨_,rfl⟩⟩ := execFirst ran
    · exact markSame (fun y => opened y _) r.watchers other ch
    rfl
  | leave other =>
    cases ran
    cases stays with
    | true => simpa [isEnter,Registry.setWatcher] using markSame left r.watchers other ch
    | false => simpa [isEnter,isLeave,Registry.setWatcher] using markDropped left r.watchers other ch
  | deliver d =>
    obtain ⟨watcher,seen,done⟩ := bind_eq_some_iff.mp ran
    cases done
    exact markSame (fun y => chan y _) r.watchers d.channel ch
  | store _ | remove _ | extend _ _ | resolve _ _ _ | snapshot _ | watchResolve _ _ _ | notify _
  | stamp | gather | announce | grant =>
    rw [(execQuiet rfl ran).1]
    rfl

section
variable (ran : x.exec r luck = some (next,pushed))
include ran

theorem execRegistered (ch) : mark Watcher.registered next.watchers ch =
      (if isLeave ch x then 0 else mark Watcher.registered r.watchers ch) + (if isEnter r ch x then 1 else 0) := by
  have marked := execMark (p := Watcher.registered) (fun _ _ => rfl) (fun _ _ => rfl)
    (fun y => (Bool.false_and y.registered).symm) (fun _ _ => rfl) ran ch
  simpa only [Bool.not_false,Bool.and_true,Bool.toNat_true] using marked

theorem execCancelled (ch) : mark Watcher.cancelled next.watchers ch = mark Watcher.cancelled r.watchers ch := by
  have marked := execMark (p := Watcher.cancelled) (fun _ _ => rfl) (fun _ _ => rfl)
    (fun y => (Bool.true_and y.cancelled).symm) (fun _ _ => rfl) ran ch
  simpa using marked

theorem execOpen (ch) :
    mark isOpen next.watchers ch = mark isOpen r.watchers ch + if isEnter r ch x then 1 else 0 := by
  have marked := execMark (p := isOpen) (fun _ _ => rfl) (fun _ _ => rfl)
    (fun y => (Bool.true_and (isOpen y)).symm) (fun _ _ => rfl) ran ch
  simpa using marked

theorem execPresent (ch) : mark (fun _ => true) next.watchers ch =
      mark (fun _ => true) r.watchers ch + if isEnter r ch x then 1 else 0 := by
  have marked := execMark (p := fun _ => true) (fun _ _ => rfl) (fun _ _ => rfl)
    (fun _ => (Bool.true_and true).symm) (fun _ _ => rfl) ran ch
  simpa using marked

theorem execLive (ch) : mark isLive next.watchers ch =
      (if isClose ch x then 0 else mark isLive r.watchers ch) + if isEnter r ch x then 1 else 0 := by
  cases x with
  | watchEnter =>
    cases ran
    simp only [markAdded,isEnter,beq_iff_eq]
    rfl
  | first _ event =>
    obtain ⟨watcher,seen,_,⟨lives,rfl⟩ | ⟨_,rfl⟩⟩ := execFirst ran
    · exact putLive Watcher.chan (fun box y => { y with chan := box,opened := true }) (fun _ _ => rfl) seen
        (offerClosed watcher.chan event false) ch
    rfl
  | leave other =>
    cases ran
    exact markSame (p := isLive) (f := fun y => { y with registered := false }) (fun _ => rfl) r.watchers other ch
  | deliver =>
    obtain ⟨watcher,seen,done⟩ := bind_eq_some_iff.mp ran
    cases done
    exact deliverLive Watcher.chan (fun box y => { y with chan := box }) (fun _ _ => rfl) seen false ch
  | store _ | remove _ | extend _ _ | resolve _ _ _ | snapshot _ | watchResolve _ _ _ | notify _
  | stamp | gather | announce | grant =>
    rw [(execQuiet rfl ran).1]
    rfl
end

theorem expiryCount (none : ∀ news, p (.notify news) = false) (expired : List Instance) :
    (expired.map expiry).countP p = 0 := by
  simp [expiry,none]

theorem execLeaves (ran : x.exec r luck = some (next,pushed)) (ch) :
    pushed.countP (isLeave ch) = 0 ∧ pushed.countP (isClose ch) = if isLeave ch x then 1 else 0 := by
  cases x with
  | store | remove | extend | snapshot | watchResolve | announce | grant =>
    cases ran
    exact ⟨rfl,rfl⟩
  | resolve =>
    cases ran
    exact ⟨expiryCount (fun _ => rfl) _,expiryCount (fun _ => rfl) _⟩
  | watchEnter =>
    cases ran
    simp only [List.countP_append,expiryCount (p := isLeave ch) fun _ => rfl,
      expiryCount (p := isClose ch) fun _ => rfl]
    exact ⟨rfl,rfl⟩
  | notify =>
    cases ran
    split <;> exact ⟨rfl,rfl⟩
  | stamp =>
    cases ran
    simp [isLeave,isClose]
  | gather =>
    obtain ⟨watcher,seen,done⟩ := bind_eq_some_iff.mp ran
    cases done
    exact ⟨rfl,rfl⟩
  | first =>
    obtain ⟨watcher,_,rfl,_⟩ := execFirst ran
    exact ⟨rfl,rfl⟩
  | leave =>
    cases ran
    simp [isLeave,isClose,Delivery.isClose]
  | deliver =>
    obtain ⟨watcher,seen,done⟩ := bind_eq_some_iff.mp ran
    cases done
    rw [pushedCount Instr.deliver (isLeave ch) (fun _ => false) fun _ => rfl,List.countP_false,
      pushedCount Instr.deliver (isClose ch) (Delivery.isClose ch) fun _ => rfl,deliverCloses]
    exact ⟨rfl,rfl⟩

theorem execTargets (ran : x.exec r luck = some (next,pushed)) (ne : isTarget ch x = false) :
    pushed.countP (isTarget ch) ≤ mark Watcher.registered r.watchers ch + if isEnter r ch x then 1 else 0 := by
  cases x with
  | store | remove | extend | snapshot | watchResolve | grant | leave =>
    cases ran
    exact zero_le _
  | resolve =>
    cases ran
    rw [expiryCount (p := isTarget ch) fun _ => rfl]
    exact zero_le _
  | watchEnter =>
    cases ran
    simp only [List.countP_append,expiryCount (p := isTarget ch) fun _ => rfl]
    simp only [List.countP_singleton,isTarget,isEnter,beq_iff_eq,eq_comm (a := ch)]
    omega
  | notify =>
    cases ran
    refine Nat.le_add_right_of_le ?_
    split
    · exact zero_le _
    simp only [List.countP_singleton,isTarget,List.contains_iff_mem,(shufflePerm ..).mem_iff]
    split_ifs with mem
    · obtain ⟨y,seen,both⟩ := memPlaces.mp mem
      rw [markSeen seen,(Bool.and_eq_true_iff.mp both).1]
      exact Nat.le_refl 1
    exact zero_le _
  | stamp news watchers =>
    cases ran
    rw [pushedCount (Instr.gather news · r.now) (isTarget ch) (· == ch) fun _ => rfl]
    change watchers.count ch ≤ _
    rw [List.count_eq_zero_of_not_mem fun mem => ?_]
    · exact zero_le _
    simp [isTarget,mem] at ne
  | gather =>
    obtain ⟨watcher,seen,done⟩ := bind_eq_some_iff.mp ran
    cases done
    simp only [isTarget] at ne
    simp [isTarget,Delivery.isFlight,ne]
  | announce =>
    cases ran
    simp only [isTarget] at ne
    simp [isTarget,ne]
  | first =>
    obtain ⟨watcher,_,rfl,_⟩ := execFirst ran
    exact zero_le _
  | deliver d =>
    obtain ⟨watcher,seen,done⟩ := bind_eq_some_iff.mp ran
    cases done
    rw [pushedCount Instr.deliver (isTarget ch) (Delivery.isFlight ch) fun _ => rfl]
    have flights := deliverFlights watcher.chan false d ch
    simp only [isTarget] at ne
    simp only [ne,Bool.false_eq_true,if_false] at flights
    omega
end

structure Kept (w : World) : Prop where
  once : ∀ ch, mark Watcher.registered w.reg.watchers ch + ahead (isClose ch) w.tasks ≤
    mark isLive w.reg.watchers ch
  called : ∀ ch, ahead (isLeave ch) w.tasks ≤ mark Watcher.cancelled w.reg.watchers ch
  awaited : ∀ ch, ahead (isLeave ch) w.tasks + mark isOpen w.reg.watchers ch ≤
    mark Watcher.registered w.reg.watchers ch
  single : w.reg.fault ≠ some .closed

theorem keptStart (now) : Kept (start now) where
  once := by simp [start,mark,ahead]
  called := by simp [start,ahead]
  awaited := by simp [start,mark,ahead]
  single := by simp [start]

section
variable {w : World} {i : Nat} {x : Instr}

theorem execSingle (kept : Kept w) (got : w.tasks[i]? = some (x :: rest))
    (ran : x.exec w.reg luck = some (next,pushed)) : next.fault ≠ some .closed := by
  cases x with
  | watchEnter | leave =>
    cases ran
    exact kept.single
  | first =>
    obtain ⟨_,_,_,⟨_,rfl⟩ | ⟨_,rfl⟩⟩ := execFirst ran
    · exact kept.single
    exact nofun
  | deliver d =>
    obtain ⟨watcher,seen,done⟩ := bind_eq_some_iff.mp ran
    cases done
    intro fault
    obtain ⟨shut,sent | close⟩ := deliverFault fault
    · cases sent.1
    have isAhead : 0 < ahead (isClose d.channel) w.tasks := aheadPositive got List.mem_cons_self close.2
    have old := kept.once d.channel
    rw [markSeen (p := isLive) seen,isLive,shut] at old
    simp only [Bool.not_true,Bool.toNat_false] at old
    omega
  | store _ | remove _ | extend _ _ | resolve _ _ _ | snapshot _ | watchResolve _ _ _ | notify _
  | stamp | gather | announce | grant =>
    rw [(execQuiet rfl ran).2]
    exact kept.single

theorem execKept (kept : Kept w) (got : w.tasks[i]? = some (x :: rest))
    (ran : x.exec w.reg luck = some (next,pushed)) : Kept ⟨next,turn w.tasks i pushed rest⟩ := by
  have here (ch : Nat) : mark isLive w.reg.watchers ch ≤ 1 := Bool.toNat_le _
  refine ⟨fun ch => ?_,fun ch => ?_,fun ch => ?_,execSingle kept got ran⟩
  · have closes := aheadTurn (isClose ch) pushed got
    have leaves := aheadTurn (isLeave ch) pushed got
    have old := kept.once ch
    have awaited := kept.awaited ch
    have live := here ch
    simp only [execLeaves ran ch] at closes leaves
    simp only [execRegistered ran,execLive ran]
    split_ifs at closes leaves ⊢ <;> omega
  · have leaves := aheadTurn (isLeave ch) pushed got
    have old := kept.called ch
    simp only [execLeaves ran ch] at leaves
    simp only [execCancelled ran]
    omega
  have leaves := aheadTurn (isLeave ch) pushed got
  have old := kept.awaited ch
  have once := kept.once ch
  have live := here ch
  simp only [execLeaves ran ch] at leaves
  simp only [execRegistered ran,execOpen ran]
  split_ifs at leaves ⊢ <;> omega
end

theorem callKept (kept : Kept w)
    (leaves : ∀ ch, task.countP (isLeave ch) = 0) (closes : ∀ ch, task.countP (isClose ch) = 0) :
    Kept (w.call task) where
  once ch := by simpa only [World.call,aheadSpawn,closes,add_zero] using kept.once ch
  called ch := by simpa only [World.call,aheadSpawn,leaves,add_zero] using kept.called ch
  awaited ch := by simpa only [World.call,aheadSpawn,leaves,add_zero] using kept.awaited ch
  single := kept.single

theorem cancelKept (kept : Kept w) (seen : w.reg.watchers[ch]? = some y) (fresh : y.cancelled = false) :
    Kept ({ w with reg := w.reg.setWatcher ch fun x => { x with cancelled := true } }.call [.leave ch]) := by
  have isSame (p : Watcher → Bool) (eq : ∀ y, p { y with cancelled := true } = p y) := markSame eq w.reg.watchers ch
  have raised := markRaised (p := Watcher.cancelled) (f := fun y => { y with cancelled := true })
    (fun _ => rfl) w.reg.watchers ch
  have dropped := markDropped (p := isOpen) (f := fun y => { y with cancelled := true }) (fun _ => rfl)
  have calledBefore : mark Watcher.cancelled w.reg.watchers ch = 0 := by rw [markSeen seen,fresh]; rfl
  have openBefore : mark isOpen w.reg.watchers ch = 1 := by rw [markSeen seen,isOpen,fresh]; rfl
  have present : mark (fun _ => true) w.reg.watchers ch = 1 := by rw [markSeen seen]; rfl
  have leaves (other : Nat) : [Instr.leave ch].countP (isLeave other) = if ch = other then 1 else 0 := by
    simp [isLeave]
  have closes (other : Nat) : [Instr.leave ch].countP (isClose other) = 0 := rfl
  refine ⟨fun other => ?_,fun other => ?_,fun other => ?_,kept.single⟩
  · simpa only [World.call,Registry.setWatcher,isSame Watcher.registered fun _ => rfl,
      isSame isLive fun _ => rfl,aheadSpawn,closes,add_zero] using kept.once other
  · have old := kept.called other
    simp only [World.call,Registry.setWatcher,raised,aheadSpawn,leaves]
    split_ifs with here
    · subst here
      omega
    exact old
  have old := kept.awaited other
  simp only [World.call,Registry.setWatcher,dropped,isSame Watcher.registered fun _ => rfl,aheadSpawn,leaves]
  split_ifs with here
  · subst here
    omega
  exact old

theorem receiveKept (kept : Kept w) (ch event) :
    Kept { w with reg := w.reg.setWatcher ch fun x => { x with chan := x.chan.poll,last := some event } } := by
  have isSame (p : Watcher → Bool) (eq : ∀ y, p { y with chan := y.chan.poll,last := some event } = p y) :=
    markSame eq w.reg.watchers ch
  refine ⟨fun other => ?_,fun other => ?_,fun other => ?_,kept.single⟩
  · simpa only [Registry.setWatcher,isSame Watcher.registered fun _ => rfl,isSame isLive fun _ => rfl] using
      kept.once other
  · simpa only [Registry.setWatcher,isSame Watcher.cancelled fun _ => rfl] using kept.called other
  simpa only [Registry.setWatcher,isSame isOpen fun _ => rfl,isSame Watcher.registered fun _ => rfl] using
    kept.awaited other

theorem openingCount {task : List Instr}
    (opening : ∀ x ∈ task, isOpening now x = true) (none : ∀ x, isOpening now x = true → p x = false) :
    task.countP p = 0 :=
  List.countP_eq_zero.mpr fun x mem => by simp [none x (opening x mem)]

theorem openingQuiet (opening : isOpening now x = true) (ch) :
    isLeave ch x = false ∧ isClose ch x = false ∧ isTarget ch x = false := by
  cases x <;> first | exact ⟨rfl,rfl,rfl⟩ | cases opening

theorem stepKept (kept : Kept w) (moved : step w act = some next) : Kept next := by
  cases stepMoved moved with
  | call opening =>
    exact callKept kept (fun ch => openingCount opening fun _ opens => (openingQuiet opens ch).1)
      fun ch => openingCount opening fun _ opens => (openingQuiet opens ch).2.1
  | cancel seen _ fresh => exact cancelKept kept seen fresh
  | receive => exact receiveKept kept _ _
  | tick => exact { kept with }
  | run got ran => exact execKept kept got ran

/-- A channel is closed only when no call that collected it has still to send to it. -/
def Settled (w : World) : Act → Prop
  | .run i _ =>
    match w.tasks[i]? with
    | some (.deliver (.close ch) :: _) => ahead (isTarget ch) w.tasks = 0
    | _ => True
  | _ => True

instance (w : World) (act : Act) : Decidable (Settled w act) := by
  unfold Settled
  split
  · split <;> infer_instance
  · infer_instance

structure Sealed (w : World) : Prop extends Kept w where
  empty : ∀ ch, mark isLive w.reg.watchers ch = 0 → ahead (isTarget ch) w.tasks = 0
  alive : w.reg.fault = none

theorem sealedStart (now) : Sealed (start now) := ⟨keptStart now,by simp [start,ahead],rfl⟩

section
variable {w : World} {i : Nat} {x : Instr}

theorem closedEmpty (shut : Sealed w) (seen : w.reg.watchers[ch]? = some y)
    (closed : y.chan.closed = true) : ahead (isTarget ch) w.tasks = 0 := by
  refine shut.empty ch ?_
  rw [markSeen seen,isLive,closed]
  rfl

theorem execAlive (shut : Sealed w) (got : w.tasks[i]? = some (x :: rest))
    (ran : x.exec w.reg luck = some (next,pushed)) : next.fault = none := by
  cases x with
  | watchEnter | leave =>
    cases ran
    exact shut.alive
  | first ch =>
    obtain ⟨y,seen,_,⟨_,rfl⟩ | ⟨closed,rfl⟩⟩ := execFirst ran
    · exact shut.alive
    have isAhead := aheadPositive (p := isTarget ch) got List.mem_cons_self (beq_self_eq_true ch)
    exact absurd (closedEmpty shut seen closed) isAhead.ne'
  | deliver d =>
    have single := execSingle shut.toKept got ran
    obtain ⟨y,seen,done⟩ := bind_eq_some_iff.mp ran
    cases done
    refine Option.eq_none_iff_forall_ne_some.mpr fun f fault => ?_
    obtain ⟨closed,⟨rfl,flies⟩ | ⟨rfl,_⟩⟩ := deliverFault fault
    · have isAhead := aheadPositive (p := isTarget d.channel) got List.mem_cons_self flies
      exact absurd (closedEmpty shut seen closed) isAhead.ne'
    exact single fault
  | store _ | remove _ | extend _ _ | resolve _ _ _ | snapshot _ | watchResolve _ _ _ | notify _
  | stamp | gather | announce | grant =>
    rw [(execQuiet rfl ran).2]
    exact shut.alive

theorem closeApart (closes : isClose ch x = true) : isTarget ch x = false ∧ isEnter w.reg ch x = false := by
  cases x with
  | deliver d => cases d <;> simp_all [isClose,isTarget,isEnter,Delivery.isClose,Delivery.isFlight]
  | _ => cases closes

theorem execSealed (sealed : Sealed w) (got : w.tasks[i]? = some (x :: rest))
    (ran : x.exec w.reg luck = some (next,pushed))
    (done : ∀ ch, isClose ch x = true → ahead (isTarget ch) w.tasks = 0) :
    Sealed ⟨next,turn w.tasks i pushed rest⟩ := by
  refine ⟨execKept sealed.toKept got ran,fun ch shut => ?_,execAlive sealed got ran⟩
  have count := aheadTurn (isTarget ch) pushed got
  have once := sealed.once ch
  change ahead (isTarget ch) (turn w.tasks i pushed rest) = 0
  rw [execLive ran] at shut
  by_cases closes : isClose ch x = true
  · have targets := execTargets ran (closeApart (w := w) closes).1
    have none := done ch closes
    have isAhead := aheadPositive got List.mem_cons_self closes
    have here : mark isLive w.reg.watchers ch ≤ 1 := Bool.toNat_le _
    omega
  simp only [closes,Bool.false_eq_true,if_false] at shut
  have none := sealed.empty ch (by omega)
  have ne : isTarget ch x = false := aheadNone none got List.mem_cons_self
  have targets := execTargets ran ne
  omega
end

theorem stepSealed (sealed : Sealed w) (done : Settled w act) (moved : step w act = some next) : Sealed next := by
  have kept := stepKept sealed.toKept moved
  cases stepMoved moved with
  | call opening =>
    refine ⟨kept,fun ch shut => (aheadSpawn ..).trans ?_,sealed.alive⟩
    rw [openingCount opening fun _ opens => (openingQuiet opens ch).2.2]
    exact sealed.empty ch shut
  | cancel =>
    refine ⟨kept,fun other shut => (aheadSpawn ..).trans (sealed.empty other ?_),sealed.alive⟩
    exact (markSame (p := isLive) (f := fun y => { y with cancelled := true }) (fun _ => rfl) ..).symm.trans shut
  | @receive _ _ event =>
    refine ⟨kept,fun other shut => sealed.empty other ?_,sealed.alive⟩
    exact (markSame (p := isLive) (f := fun y => { y with chan := y.chan.poll,last := some event })
      (fun _ => rfl) ..).symm.trans shut
  | tick => exact ⟨kept,sealed.empty,sealed.alive⟩
  | run got ran =>
    refine execSealed sealed got ran fun ch closes => ?_
    simp only [Settled,got] at done
    rename_i x _ _ _
    cases x with
    | deliver d =>
      cases d with
      | send | drain | resend => cases closes
      | close =>
        cases beq_iff_eq.mp closes
        exact done
    | _ => cases closes

end Gofly.MemoryRegistry
