import Gofly.Discovery
import Gofly.Mailbox
import Gofly.Tasks
import Gofly.Transition
/-! The event bus. -/
namespace Gofly.DiscoveryBus
open Discovery Mailbox Tasks Transition Roster

structure Sub where
  service : String
  chan : Box Event
  listed : Bool
  cancelled : Bool

inductive Instr where
  | publish (event : Event)
  | cancel (ch : Nat)
  | closeBus
  | deliver (d : Delivery Event)

structure Bus where
  closed : Bool
  subs : List Sub
  fault : Option Fault

structure World where
  bus : Bus
  tasks : List (List Instr)

structure Luck where
  order : List Nat
  ready : Bool

inductive Act where
  | subscribe (service : String) (buffer : Int)
  | publish (event : Event)
  | cancel (ch : Nat)
  | close
  | receive (ch : Nat)
  | run (i : Nat) (luck : Luck)

def start : World := ⟨⟨false,[],none⟩,[]⟩

def Bus.subscribe (b : Bus) (service : String) (buffer : Int) : Bus :=
  let chan : Box Event := ⟨buffer.toNat,[],b.closed⟩
  { b with subs := b.subs ++ [⟨service,chan,!b.closed,b.closed⟩] }

def Bus.sub (b : Bus) (ch : Nat) (f : Sub → Sub) : Bus := { b with subs := b.subs.modify ch f }

def Instr.exec (b : Bus) (luck : Luck) : Instr → Option (Bus × List Instr)
  | .publish event =>
    if b.closed then some (b,[])
    else
      let subs := shuffle luck.order (places (fun s => s.listed && s.service == event.service) b.subs)
      some (b,subs.map fun ch => .deliver (.send ch event))
  | .cancel ch =>
    some (b.sub ch fun s => { s with listed := false },
      if b.closed then [] else [.deliver (.close ch)])
  | .closeBus =>
    if b.closed then some (b,[])
    else
      let subscribers := shuffle luck.order (places Sub.listed b.subs)
      some ({ b with closed := true,subs := b.subs.map fun s => { s with listed := false } },
        subscribers.map fun ch => .deliver (.close ch))
  | .deliver d => do
    let s ← b.subs[d.channel]?
    let out := Delivery.deliver s.chan luck.ready d
    some ({ b.sub d.channel fun s => { s with chan := out.box } with fault := out.fault },
      out.pushed.map .deliver)

def step (w : World) (act : Act) : Option World :=
  if w.bus.fault.isSome then none
  else match act with
  | .subscribe service buffer => some { w with bus := w.bus.subscribe service buffer }
  | .publish event => some { w with tasks := w.tasks ++ [[.publish event]] }
  | .close => some { w with tasks := w.tasks ++ [[.closeBus]] }
  | .cancel ch => do
    let s ← w.bus.subs[ch]?
    if s.cancelled then some w
    else some { w with
      bus := w.bus.sub ch fun s => { s with cancelled := true }
      tasks := w.tasks ++ [[.cancel ch]] }
  | .receive ch => do
    let s ← w.bus.subs[ch]?
    if s.chan.queue.isEmpty then none
    else some { w with bus := w.bus.sub ch fun s => { s with chan := s.chan.poll } }
  | .run i luck =>
    match w.tasks[i]? with
    | some (x :: rest) => do
      let (b,pushed) ← x.exec w.bus luck
      some { bus := b,tasks := turn w.tasks i pushed rest }
    | _ => none

open Option (bind_eq_some_iff)
open Nat (add_zero zero_le)
namespace Instr

def isCancel (ch : Nat) : Instr → Bool
  | .cancel other => other == ch
  | _ => false

def isClose (ch : Nat) : Instr → Bool
  | .deliver d => d.isClose ch
  | _ => false

def isFlight (ch : Nat) : Instr → Bool
  | .deliver d => d.isFlight ch
  | _ => false

def takesOff (b : Bus) (ch : Nat) : Instr → Bool
  | .cancel other => other == ch
  | .closeBus => !b.closed
  | _ => false

end Instr
open Instr

def isOpen (s : Sub) : Bool := !s.cancelled
def isLive (s : Sub) : Bool := !s.chan.closed

structure Kept (w : World) : Prop where
  once : ∀ ch, mark Sub.listed w.bus.subs ch + ahead (isClose ch) w.tasks ≤ mark isLive w.bus.subs ch
  called : ∀ ch, ahead (isCancel ch) w.tasks ≤ mark Sub.cancelled w.bus.subs ch
  awaited : w.bus.closed = false →
    ∀ ch, ahead (isCancel ch) w.tasks + mark isOpen w.bus.subs ch ≤ mark Sub.listed w.bus.subs ch
  single : w.bus.fault ≠ some .closed

theorem keptStart : Kept start where
  once := by simp [start,mark,ahead]
  called := by simp [start,ahead]
  awaited := by simp [start,mark,ahead]
  single := by simp [start]

theorem subscribeKept (kept : Kept w) (service buffer) : Kept { w with bus := w.bus.subscribe service buffer } where
  once ch := by
    have old := kept.once ch
    simp only [Bus.subscribe,markAdd,isLive]
    split_ifs with new
    · simp only [new,markPast] at old ⊢
      omega
    exact old
  called ch := by
    have old := kept.called ch
    simp only [Bus.subscribe,markAdd]
    split_ifs with new
    · simp only [new,markPast] at old ⊢
      omega
    exact old
  awaited opened ch := by
    have old := kept.awaited opened ch
    have called := kept.called ch
    simp only [Bus.subscribe,markAdd,isOpen]
    split_ifs with new
    · simp only [new,markPast] at called ⊢
      omega
    exact old
  single := kept.single

section
variable {x : Instr}

theorem execMark (chan : ∀ s box, p { s with chan := box } = p s)
    (off : ∀ s, p { s with listed := false } = (stays && p s)) (ran : x.exec b luck = some (next,pushed)) (ch) :
    mark p next.subs ch = if takesOff b ch x && !stays then 0 else mark p b.subs ch := by
  cases x with
  | publish =>
    simp only [Instr.exec] at ran
    split at ran <;> cases ran <;> rfl
  | cancel other =>
    cases ran
    cases stays with
    | true => simpa [Bus.sub] using markSame off b.subs other ch
    | false => simpa [takesOff,Bus.sub] using markDropped off b.subs other ch
  | closeBus =>
    simp only [Instr.exec] at ran
    split at ran <;> cases ran
    · simp [takesOff, *]
    cases stays <;> simp [takesOff,markMap,Function.comp_def,markNever, *]
  | deliver d =>
    obtain ⟨s,seen,done⟩ := bind_eq_some_iff.mp ran
    cases done
    exact markSame (fun s => chan s _) b.subs d.channel ch

section
variable (ran : x.exec b luck = some (next,pushed))
include ran

theorem execLive (ch) : mark isLive next.subs ch = if isClose ch x then 0 else mark isLive b.subs ch := by
  cases x with
  | publish =>
    simp only [Instr.exec] at ran
    split at ran <;> cases ran <;> rfl
  | cancel other =>
    cases ran
    exact markSame (p := isLive) (f := fun s => { s with listed := false }) (fun _ => rfl) b.subs other ch
  | closeBus =>
    simp only [Instr.exec] at ran
    split at ran <;> cases ran
    · rfl
    exact markMap isLive _ b.subs ch
  | deliver =>
    obtain ⟨s,seen,done⟩ := bind_eq_some_iff.mp ran
    cases done
    exact deliverLive Sub.chan (fun box s => { s with chan := box }) (fun _ _ => rfl) seen luck.ready ch

theorem execCancels (ch) : pushed.countP (isCancel ch) = 0 := by
  cases x with
  | publish | closeBus =>
    simp only [Instr.exec] at ran
    split at ran <;> cases ran <;> simp [isCancel]
  | cancel =>
    cases ran
    split <;> rfl
  | deliver =>
    obtain ⟨s,seen,done⟩ := bind_eq_some_iff.mp ran
    cases done
    simp [isCancel]

theorem execClosed (opened : next.closed = false) : b.closed = false ∧ ∀ ch, takesOff b ch x = isCancel ch x := by
  cases x with
  | publish | closeBus =>
    simp only [Instr.exec] at ran
    split at ran <;> cases ran <;> simp_all [takesOff,isCancel]
  | cancel =>
    cases ran
    exact ⟨opened,fun _ => rfl⟩
  | deliver =>
    obtain ⟨s,seen,done⟩ := bind_eq_some_iff.mp ran
    cases done
    exact ⟨opened,fun _ => rfl⟩
end
end

section
variable {w : World} {i : Nat} {x : Instr}

section
variable (kept : Kept w) (got : w.tasks[i]? = some (x :: rest)) (ran : x.exec w.bus luck = some (next,pushed))
include kept got ran

theorem execCloses (ch) :
    pushed.countP (isClose ch) ≤ if takesOff w.bus ch x then mark Sub.listed w.bus.subs ch else 0 := by
  cases x with
  | publish =>
    simp only [Instr.exec] at ran
    split at ran <;> cases ran <;> simp [Function.comp_def,isClose,Delivery.isClose]
  | cancel other =>
    cases ran
    cases closed : w.bus.closed with
    | true => exact zero_le _
    | false =>
      have awaited := kept.awaited closed other
      have isAhead := aheadPositive (p := isCancel other) got List.mem_cons_self (beq_self_eq_true other)
      simp only [Bool.false_eq_true,if_false,List.countP_singleton,isClose,Delivery.isClose,takesOff,beq_iff_eq]
      split_ifs with here
      · subst here
        omega
      exact Nat.le_refl 0
  | closeBus =>
    simp only [Instr.exec] at ran
    split at ran <;> cases ran
    · exact zero_le _
    rename_i opened
    rw [takesOff,if_pos (by simpa using opened),List.countP_map,← placesCount,← (shufflePerm luck.order _).count_eq]
    exact le_rfl
  | deliver =>
    obtain ⟨s,seen,done⟩ := bind_eq_some_iff.mp ran
    cases done
    rw [pushedCount Instr.deliver (isClose ch) (Delivery.isClose ch) fun _ => rfl,deliverCloses]
    exact zero_le _

theorem execSingle : next.fault ≠ some .closed := by
  cases x with
  | publish | closeBus =>
    simp only [Instr.exec] at ran
    split at ran <;> cases ran <;> exact kept.single
  | cancel =>
    cases ran
    exact kept.single
  | deliver d =>
    obtain ⟨s,seen,done⟩ := bind_eq_some_iff.mp ran
    cases done
    intro fault
    obtain ⟨shut,sent | close⟩ := deliverFault fault
    · cases sent.1
    have isAhead := aheadPositive got List.mem_cons_self (p := isClose d.channel) close.2
    have old := kept.once d.channel
    rw [markSeen (p := isLive) seen,isLive,shut] at old
    simp only [Bool.not_true,Bool.toNat_false] at old
    omega

theorem execKept : Kept ⟨next,turn w.tasks i pushed rest⟩ := by
  have here (ch : Nat) : mark isLive w.bus.subs ch ≤ 1 := Bool.toNat_le _
  have ith (ch : Nat) := execMark (p := Sub.listed) (fun _ _ => rfl) (fun s => (Bool.false_and s.listed).symm) ran ch
  have cancels (ch : Nat) := aheadTurn (isCancel ch) pushed got
  simp only [execCancels ran] at cancels
  refine ⟨fun ch => ?_,fun ch => ?_,fun opened ch => ?_,execSingle kept got ran⟩
  · have closes := aheadTurn (isClose ch) pushed got
    have more := execCloses kept got ran ch
    have old := kept.once ch
    have live := here ch
    simp only [ith,execLive ran,Bool.not_false,Bool.and_true]
    by_cases closing : isClose ch x = true
    · have stays : takesOff w.bus ch x = false := by cases x <;> first | rfl | cases closing
      simp only [closing,stays,Bool.false_eq_true,if_true,if_false] at closes more ⊢
      omega
    split_ifs at more ⊢ <;> omega
  · have old := kept.called ch
    have marked := execMark (p := Sub.cancelled) (fun _ _ => rfl) (fun s => (Bool.true_and s.cancelled).symm) ran ch
    have cancels := cancels ch
    simp only [Bool.not_true,Bool.and_false,Bool.false_eq_true,if_false] at marked
    simp only [marked]
    omega
  obtain ⟨was,off⟩ := execClosed ran opened
  have old := kept.awaited was ch
  have once := kept.once ch
  have live := here ch
  have cancels := cancels ch
  have marked := execMark (p := isOpen) (fun _ _ => rfl) (fun s => (Bool.true_and (isOpen s)).symm) ran ch
  simp only [ith,marked,off,Bool.not_false,Bool.and_true]
  split_ifs at cancels ⊢ <;> omega
end
end

theorem spawnKept (kept : Kept w)
    (cancels : ∀ ch, task.countP (isCancel ch) = 0) (closes : ∀ ch, task.countP (isClose ch) = 0) :
    Kept { w with tasks := w.tasks ++ [task] } where
  once ch := by simpa only [aheadSpawn,closes,add_zero] using kept.once ch
  called ch := by simpa only [aheadSpawn,cancels,add_zero] using kept.called ch
  awaited opened ch := by simpa only [aheadSpawn,cancels,add_zero] using kept.awaited opened ch
  single := kept.single

theorem callKept (kept : Kept w) (seen : w.bus.subs[ch]? = some s) (fresh : s.cancelled = false) :
    Kept { w with bus := w.bus.sub ch fun s => { s with cancelled := true }, tasks := w.tasks ++ [[.cancel ch]] } := by
  have isSame (p : Sub → Bool) (eq : ∀ s, p { s with cancelled := true } = p s) := markSame eq w.bus.subs ch
  have raised := markRaised (p := Sub.cancelled) (f := fun s => { s with cancelled := true }) (fun _ => rfl)
  have dropped := markDropped (p := isOpen) (f := fun s => { s with cancelled := true }) (fun _ => rfl)
  have calledBefore : mark Sub.cancelled w.bus.subs ch = 0 := by rw [markSeen seen,fresh]; rfl
  have openBefore : mark isOpen w.bus.subs ch = 1 := by rw [markSeen seen,isOpen,fresh]; rfl
  have present : mark (fun _ => true) w.bus.subs ch = 1 := by rw [markSeen seen]; rfl
  have cancels (other : Nat) : [Instr.cancel ch].countP (isCancel other) = if ch = other then 1 else 0 := by
    simp [isCancel]
  refine ⟨fun other => ?_,fun other => ?_,fun opened other => ?_,kept.single⟩
  · have closes : [Instr.cancel ch].countP (isClose other) = 0 := rfl
    simpa only [Bus.sub,isSame Sub.listed fun _ => rfl,isSame isLive fun _ => rfl,
      aheadSpawn,closes,add_zero] using kept.once other
  · have old := kept.called other
    simp only [Bus.sub,raised,aheadSpawn,cancels]
    split_ifs with here
    · subst here
      omega
    exact old
  have old := kept.awaited opened other
  simp only [Bus.sub,dropped,isSame Sub.listed fun _ => rfl,aheadSpawn,cancels]
  split_ifs with here
  · subst here
    omega
  exact old

theorem receiveKept (kept : Kept w) (ch) :
    Kept { w with bus := w.bus.sub ch fun s => { s with chan := s.chan.poll } } := by
  have isSame (p : Sub → Bool) (eq : ∀ s, p { s with chan := s.chan.poll } = p s) := markSame eq w.bus.subs ch
  refine ⟨fun other => ?_,fun other => ?_,fun opened other => ?_,kept.single⟩
  · simpa only [Bus.sub,isSame Sub.listed fun _ => rfl,isSame isLive fun _ => rfl] using kept.once other
  · simpa only [Bus.sub,isSame Sub.cancelled fun _ => rfl] using kept.called other
  simpa only [Bus.sub,isSame isOpen fun _ => rfl,isSame Sub.listed fun _ => rfl] using kept.awaited opened other

theorem stepKept (kept : Kept w) (moved : step w act = some next) : Kept next := by
  simp only [step] at moved
  split at moved <;> try contradiction
  cases act with
  | subscribe service buffer =>
    cases moved
    exact subscribeKept kept service buffer
  | publish | close =>
    cases moved
    exact spawnKept kept (fun _ => rfl) (fun _ => rfl)
  | cancel =>
    obtain ⟨s,seen,done⟩ := bind_eq_some_iff.mp moved
    split at done
    · cases done
      exact kept
    cases done
    exact callKept kept seen (Bool.eq_false_iff.mpr ‹_›)
  | receive ch =>
    obtain ⟨s,seen,done⟩ := bind_eq_some_iff.mp moved
    split at done <;> cases done
    exact receiveKept kept ch
  | run =>
    simp only at moved
    split at moved <;> try contradiction
    rename_i x rest got
    obtain ⟨⟨b,pushed⟩,ran,done⟩ := bind_eq_some_iff.mp moved
    cases done
    exact execKept kept got ran

def Settled (w : World) : Act → Prop
  | .run i _ =>
    match w.tasks[i]? with
    | some (.deliver (.close ch) :: _) => ahead (isFlight ch) w.tasks = 0
    | _ => True
  | _ => True
instance (w : World) (act : Act) : Decidable (Settled w act) := by
  unfold Settled
  split
  · split <;> infer_instance
  · infer_instance

structure Sealed (w : World) : Prop extends Kept w where
  empty : ∀ ch, mark isLive w.bus.subs ch = 0 → ahead (isFlight ch) w.tasks = 0
  alive : w.bus.fault = none

theorem sealedStart : Sealed start := ⟨keptStart,by simp [start,ahead],rfl⟩

section
variable {w : World} {i : Nat}

theorem execFlights (ran : x.exec w.bus luck = some (b,pushed)) (ch) :
    pushed.countP (isFlight ch) ≤ (if isFlight ch x then 1 else 0) + mark Sub.listed w.bus.subs ch := by
  cases x with
  | publish =>
    simp only [Instr.exec] at ran
    split at ran <;> cases ran
    · exact zero_le _
    rw [List.countP_map]
    change List.count ch _ ≤ 0 + _
    rw [(shufflePerm ..).count_eq,placesCount,Nat.zero_add]
    exact markMono (fun s both => (Bool.and_eq_true_iff.mp both).1) w.bus.subs ch
  | cancel =>
    cases ran
    cases w.bus.closed <;> exact zero_le _
  | closeBus =>
    simp only [Instr.exec] at ran
    split at ran <;> cases ran
    · exact zero_le _
    have none : ((shuffle luck.order (places Sub.listed w.bus.subs)).map
        fun ch => Instr.deliver (.close ch)).countP (isFlight ch) = 0 := by
      simp [isFlight,Delivery.isFlight]
    exact Nat.le_trans none.le (zero_le _)
  | deliver d =>
    obtain ⟨s,seen,done⟩ := bind_eq_some_iff.mp ran
    cases done
    rw [pushedCount Instr.deliver (isFlight ch) (Delivery.isFlight ch) fun _ => rfl]
    exact Nat.le_trans (deliverFlights s.chan luck.ready d ch) (Nat.le_add_right ..)

theorem execAlive (sealed : Sealed w)
    (got : w.tasks[i]? = some (x :: rest)) (ran : x.exec w.bus luck = some (b,pushed)) : b.fault = none := by
  cases x with
  | publish | closeBus =>
    simp only [Instr.exec] at ran
    split at ran <;> cases ran <;> exact sealed.alive
  | cancel =>
    cases ran
    exact sealed.alive
  | deliver d =>
    have kept := execKept sealed.toKept got ran
    obtain ⟨s,seen,done⟩ := bind_eq_some_iff.mp ran
    cases done
    refine Option.eq_none_iff_forall_ne_some.mpr fun f fault => ?_
    obtain ⟨shut,⟨rfl,flies⟩ | ⟨rfl,_⟩⟩ := deliverFault fault
    · have closed : mark isLive w.bus.subs d.channel = 0 := by
        rw [markSeen seen,isLive,shut]
        rfl
      have isAhead : 0 < ahead (isFlight d.channel) w.tasks := aheadPositive got List.mem_cons_self flies
      exact absurd (sealed.empty d.channel closed) isAhead.ne'
    exact kept.single fault

theorem execSealed (sealed : Sealed w)
    (got : w.tasks[i]? = some (x :: rest)) (ran : x.exec w.bus luck = some (b,pushed))
    (done : ∀ ch, isClose ch x = true → ahead (isFlight ch) w.tasks = 0) :
    Sealed ⟨b,turn w.tasks i pushed rest⟩ := by
  refine ⟨execKept sealed.toKept got ran,fun ch shut => ?_,execAlive sealed got ran⟩
  have count := aheadTurn (isFlight ch) pushed got
  have flights := execFlights ran ch
  have once := sealed.once ch
  change ahead (isFlight ch) (turn w.tasks i pushed rest) = 0
  rw [execLive ran] at shut
  split_ifs at shut with closes
  · have none := done ch closes
    have isAhead := aheadPositive got List.mem_cons_self closes
    have here : mark isLive w.bus.subs ch ≤ 1 := Bool.toNat_le _
    omega
  have none := sealed.empty ch shut
  omega
end

theorem stepSealed (sealed : Sealed w) (settled : Settled w act) (moved : step w act = some next) : Sealed next := by
  have kept := stepKept sealed.toKept moved
  have alive := sealed.alive
  simp only [step] at moved
  split at moved <;> try contradiction
  cases act with
  | subscribe =>
    cases moved
    refine ⟨kept,fun ch shut => ?_,alive⟩
    simp only [Bus.subscribe,markAdd] at shut
    split_ifs at shut with new
    · exact sealed.empty ch (new ▸ markPast isLive)
    exact sealed.empty ch shut
  | publish | close =>
    cases moved
    exact ⟨kept,fun ch shut => (aheadSpawn ..).trans (sealed.empty ch shut),alive⟩
  | cancel =>
    obtain ⟨s,seen,done⟩ := bind_eq_some_iff.mp moved
    split at done <;> cases done
    · exact sealed
    refine ⟨kept,fun other shut => (aheadSpawn ..).trans (sealed.empty other ?_),alive⟩
    exact (markSame (p := isLive) (f := fun s => { s with cancelled := true }) (fun _ => rfl) ..).symm.trans shut
  | receive =>
    obtain ⟨s,seen,done⟩ := bind_eq_some_iff.mp moved
    split at done <;> cases done
    refine ⟨kept,fun other shut => sealed.empty other ?_,alive⟩
    exact (markSame (p := isLive) (f := fun s => { s with chan := s.chan.poll }) (fun _ => rfl) ..).symm.trans shut
  | run =>
    simp only at moved
    split at moved <;> try contradiction
    rename_i x rest got
    obtain ⟨⟨b,pushed⟩,ran,done⟩ := bind_eq_some_iff.mp moved
    cases done
    refine execSealed sealed got ran fun ch closes => ?_
    simp only [Settled,got] at settled
    cases x with
    | publish | cancel | closeBus => cases closes
    | deliver d =>
      cases d with
      | send | drain | resend => cases closes
      | close =>
        cases beq_iff_eq.mp closes
        exact settled

end Gofly.DiscoveryBus
