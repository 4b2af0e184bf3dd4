import Gofly.RegistryChannels
/-! What a watcher is told. While a notify of its service, or its part of one, is still ahead,
the watcher is due an event. -/
namespace Gofly.MemoryRegistry
open Discovery Mailbox Tasks Transition Roster
open List (mem_map mem_singleton)

namespace Instr

def isOn (ch : Nat) : Instr → Bool
  | .announce other _ _ | .first other _ => other == ch
  | .deliver d => d.isFlight ch
  | _ => false

def carried : Instr → List Instance
  | .announce _ _ instances => instances
  | .first _ event => event.instances
  | .deliver (.send _ event) | .deliver (.drain _ event) | .deliver (.resend _ event) => event.instances
  | _ => []

def isBare (ch : Nat) : Instr → Bool
  | .announce other _ _ | .first other _ | .deliver (.resend other _) => other == ch
  | _ => false

def isDue (ch : Nat) (service : String) : Instr → Bool
  | .notify news => news.service == service
  | .stamp _ watchers => watchers.contains ch
  | .gather _ other _ => other == ch
  | _ => false

def isGather (ch : Nat) : Instr → Bool
  | .gather _ other _ => other == ch
  | _ => false

def Aligned (ch : Nat) (service : String) : Instr → Prop
  | .stamp news watchers => ch ∈ watchers → news.service = service
  | .gather news other _ => other = ch → news.service = service
  | _ => True

end Instr
open Instr

theorem bareOn (bare : isBare ch x = true) : isOn ch x = true := by
  cases x with
  | announce | first => exact bare
  | deliver d => cases d <;> first | exact bare | cases bare
  | _ => cases bare

theorem onTarget (on : isOn ch x = true) : isTarget ch x = true := by
  cases x with
  | announce | first | deliver => exact on
  | _ => cases on

theorem notifyDue (notifies : isNotify service x = true) : isDue ch service x = true := by
  cases x with
  | notify => exact notifies
  | _ => cases notifies

section
variable {x : Instr} {ch : Nat}

section
variable (ran : x.exec r luck = some (next,pushed))
include ran

theorem execOn (off : isOn ch x = false)
    (other : isGather ch x = false) (old : isEnter r ch x = false) : pushed.countP (isOn ch) = 0 := by
  cases x with
  | resolve =>
    cases ran
    exact expiryCount (fun _ => rfl) _
  | watchEnter =>
    cases ran
    simp only [List.countP_append,expiryCount (p := isOn ch) fun _ => rfl]
    simp only [isEnter,beq_eq_false_iff_ne] at old
    simp [isOn,old.symm]
  | notify =>
    cases ran
    split <;> rfl
  | stamp =>
    cases ran
    simp [isOn]
  | gather =>
    obtain ⟨watcher,seen,done⟩ := Option.bind_eq_some_iff.mp ran
    cases done
    simp only [isGather] at other
    simp [isOn,Delivery.isFlight,other]
  | announce =>
    cases ran
    simp only [isOn] at off
    simp [isOn,off]
  | first =>
    obtain ⟨watcher,_,rfl,_⟩ := execFirst ran
    rfl
  | deliver d =>
    obtain ⟨watcher,seen,done⟩ := Option.bind_eq_some_iff.mp ran
    cases done
    rw [pushedCount Instr.deliver (isOn ch) (Delivery.isFlight ch) fun _ => rfl]
    have flights := deliverFlights watcher.chan false d ch
    simp only [isOn] at off
    simp only [off,Bool.false_eq_true,if_false] at flights
    omega
  | store | remove | extend | snapshot | watchResolve | leave | grant =>
    cases ran
    rfl

theorem execDue (seen : r.watchers[ch]? = some y) (known : y.registered = true) (other : isGather ch x = false)
    (due : isDue ch y.service x = true) : 0 < pushed.countP (isDue ch y.service) := by
  cases x with
  | notify news =>
    cases ran
    have mem : ch ∈ places (fun x => x.registered && x.service == news.service) r.watchers := by
      refine memPlaces.mpr ⟨y,seen,?_⟩
      simp only [isDue,beq_iff_eq] at due
      simp [known,due]
    rw [if_neg (by simpa using List.ne_nil_of_mem mem)]
    have inside := (shufflePerm luck.order _).mem_iff.mpr mem
    simp [isDue,inside]
  | stamp =>
    cases ran
    simp only [isDue,List.contains_iff_mem] at due
    exact List.countP_pos_iff.mpr ⟨_,List.mem_map_of_mem due,beq_self_eq_true ch⟩
  | gather => exact absurd due (by simpa [isDue,isGather] using other)
  | _ => cases due

theorem execAligned (seen : r.watchers[ch]? = some y)
    (aligned : Aligned ch y.service x) : ∀ z ∈ pushed, Aligned ch y.service z := by
  cases x with
  | notify =>
    cases ran
    split
    · simp
    simp only [mem_singleton,forall_eq]
    intro mem
    obtain ⟨z,got,both⟩ := memPlaces.mp ((shufflePerm luck.order _).mem_iff.mp mem)
    cases Option.mem_unique seen got
    exact (beq_iff_eq.mp (Bool.and_eq_true_iff.mp both).2).symm
  | stamp =>
    cases ran
    intro z mem
    obtain ⟨channel,inside,rfl⟩ := mem_map.mp mem
    rintro rfl
    exact aligned inside
  | resolve =>
    cases ran
    intro z mem
    obtain ⟨_,_,rfl⟩ := mem_map.mp mem
    trivial
  | watchEnter =>
    cases ran
    intro z mem
    rcases addMem mem with old | new
    · obtain ⟨_,_,rfl⟩ := mem_map.mp old
      trivial
    cases new
    trivial
  | gather =>
    obtain ⟨watcher,_,done⟩ := Option.bind_eq_some_iff.mp ran
    cases done
    simp [Aligned]
  | first =>
    obtain ⟨watcher,_,rfl,_⟩ := execFirst ran
    simp
  | deliver =>
    obtain ⟨watcher,_,done⟩ := Option.bind_eq_some_iff.mp ran
    cases done
    intro z mem
    obtain ⟨_,_,rfl⟩ := mem_map.mp mem
    trivial
  | store | remove | extend | snapshot | watchResolve | announce | leave | grant =>
    cases ran
    simp [Aligned]
end
end

/-- Nothing expired goes unnoticed, what Watch read is listed or due, and a notify resolves for a
channel with no other event on its way. -/
def SteadyTurn (w : World) (x : Instr) : Prop :=
  Finds w.reg x ∧ match x with
    | .watchEnter service options instances _ =>
      instances.Perm (listed (w.reg.services service) options) ∨ 0 < ahead (isNotify service) w.tasks
    | .gather _ ch _ => ahead (isOn ch) w.tasks = 0
    | _ => True

def Steady (w : World) : Act → Prop
  | .run i _ =>
    match w.tasks[i]? with
    | some (x :: _) => SteadyTurn w x
    | _ => True
  | _ => True
instance (r : Registry) (x : Instr) : Decidable (Finds r x) := by
  unfold Finds
  split <;> infer_instance
instance (w : World) (x : Instr) : Decidable (SteadyTurn w x) := by
  unfold SteadyTurn
  refine @instDecidableAnd _ _ inferInstance ?_
  split <;> infer_instance

def turnOf (w : World) : Act → Option Instr
  | .run i _ => w.tasks[i]?.bind List.head?
  | _ => none

theorem steadyTurnOf (w act) : (turnOf w act).all (fun x => decide (SteadyTurn w x)) = true ↔ Steady w act := by
  cases act with
  | run i =>
    cases got : w.tasks[i]? with
    | none => simp [turnOf,Steady,got]
    | some task => cases task <;> simp [turnOf,Steady,got]
  | _ => simp [turnOf,Steady]

instance (w : World) (act : Act) : Decidable (Steady w act) := decidable_of_iff _ (steadyTurnOf w act)

def Clean : Instr → Prop
  | .watchEnter _ _ _ expired => expired = []
  | _ => True

structure Told (tasks : List (List Instr)) (ch : Nat) (y : Watcher) (instances : List Instance) : Prop where
  flying : ∀ x, Ahead x tasks → isOn ch x = true → x.carried.Perm instances
  queued : ahead (isOn ch) tasks = 0 → ∀ event ∈ y.chan.queue, event.instances.Perm instances
  received : ahead (isOn ch) tasks = 0 → y.chan.queue = [] →
    ∃ event, y.last = some event ∧ event.instances.Perm instances

structure Tended (w : World) (ch : Nat) (y : Watcher) : Prop where
  room : y.chan.capacity = 1 ∧ y.chan.queue.length ≤ 1
  single : ahead (isOn ch) w.tasks ≤ 1
  bare : ∀ x, Ahead x w.tasks → isBare ch x = true → y.chan.queue = []
  aligned : ∀ x, Ahead x w.tasks → Aligned ch y.service x
  told : 0 < ahead (isDue ch y.service) w.tasks ∨
    Told w.tasks ch y (listed (w.reg.services y.service) y.options)

structure Held (w : World) : Prop extends Kept w where
  placed : Placed w.reg.services
  clean : ∀ x, Ahead x w.tasks → Clean x
  aimed : ∀ ch, w.reg.watchers.length ≤ ch → ahead (isTarget ch) w.tasks = 0
  tended : ∀ ch y, w.reg.watchers[ch]? = some y → y.registered = true → Tended w ch y

section
variable {w : World} {i : Nat} {x : Instr}

theorem dueKept (got : w.tasks[i]? = some (x :: rest))
    (still : isDue ch service x = true → 0 < pushed.countP (isDue ch service))
    (due : 0 < ahead (isDue ch service) w.tasks ∨ 0 < pushed.countP (isDue ch service)) :
    0 < ahead (isDue ch service) (turn w.tasks i pushed rest) := by
  have count := aheadTurn (isDue ch service) pushed got
  by_cases owes : isDue ch service x = true
  · have isAhead := aheadPositive got List.mem_cons_self owes
    have more := still owes
    simp only [owes,if_true] at count
    omega
  simp only [owes,Bool.false_eq_true,if_false] at count
  omega

section
variable (tended : Tended w ch y)
include tended

section
variable (got : w.tasks[i]? = some (x :: rest))
include got

theorem alignedTurn
    (aligned : ∀ z ∈ pushed, Aligned ch y.service z) :
    ∀ z, Ahead z (turn w.tasks i pushed rest) → Aligned ch y.service z := by
  intro z seen
  rcases aheadTurned got seen with new | old
  · exact aligned z new
  exact tended.aligned z old

theorem tendedBeside
    (eq : (z.service,z.options,z.chan,z.last) = (y.service,y.options,y.chan,y.last))
    (off : isOn ch x = false) (pushedOff : pushed.countP (isOn ch) = 0)
    (still : isDue ch y.service x = true → 0 < pushed.countP (isDue ch y.service))
    (services : next.services y.service = w.reg.services y.service ∨ 0 < pushed.countP (isDue ch y.service))
    (aligned : ∀ z ∈ pushed, Aligned ch y.service z) : Tended ⟨next,turn w.tasks i pushed rest⟩ ch z := by
  simp only [Prod.mk.injEq] at eq
  obtain ⟨service,options,chan,last⟩ := eq
  have count := aheadTurn (isOn ch) pushed got
  simp only [off,pushedOff,Bool.false_eq_true,if_false] at count
  refine ⟨chan ▸ tended.room,Nat.le_trans count.le tended.single,fun z seen bare => ?_,?_,?_⟩
  · rw [chan]
    rcases aheadTurned got seen with new | old
    · exact absurd (bareOn bare) (List.countP_eq_zero.mp pushedOff z new)
    exact tended.bare z old bare
  · rw [service]
    exact alignedTurn tended got aligned
  rw [service,options]
  rcases services with kept | due
  · rcases tended.told with due | told
    · exact .inl (dueKept got still (.inl due))
    · refine .inr ⟨fun z seen on => ?_,fun none => ?_,fun none => ?_⟩
      · rw [kept]
        rcases aheadTurned got seen with new | old
        · exact absurd on (List.countP_eq_zero.mp pushedOff z new)
        exact told.flying z old on
      · rw [kept,chan]
        exact told.queued (by simp only at none; omega)
      · rw [kept,chan,last]
        exact told.received (by simp only at none; omega)
  exact .inl (dueKept got still (.inr due))

theorem tendedOn
    (on : isOn ch x = true) (eq : z.service = y.service ∧ z.options = y.options)
    (room : z.chan.capacity = 1 ∧ z.chan.queue.length ≤ 1) (kept : next.services y.service = w.reg.services y.service)
    (moves : (∃ later, pushed = [later] ∧ isOn ch later = true ∧ later.carried = x.carried ∧
        (isBare ch later = true → z.chan.queue = [])) ∨
      (pushed = [] ∧ ∃ event, z.chan.queue = [event] ∧ event.instances = x.carried)) :
    Tended ⟨next,turn w.tasks i pushed rest⟩ ch z := by
  have last : ahead (isOn ch) w.tasks ≤ if isOn ch x then 1 else 0 := by
    simpa only [on,if_true] using tended.single
  have isAhead := aheadPositive got List.mem_cons_self on
  have count := aheadTurn (isOn ch) pushed got
  simp only [on] at count
  have single := tended.single
  have notDue : isDue ch y.service x = false := by cases x <;> first | rfl | cases on
  have onlyPushed (later : Instr) (seen : Ahead later (turn w.tasks i pushed rest))
      (onLater : isOn ch later = true) : later ∈ pushed := aheadOnly got last seen onLater
  refine ⟨room,?_,fun later seen bare => ?_,?_,?_⟩
  · rcases moves with ⟨later,rfl,onLater,_⟩ | ⟨rfl,_⟩
    · simp only [List.countP_singleton,onLater] at count
      simp only
      omega
    · simp only [List.countP_nil] at count
      simp only
      omega
  · have mem := onlyPushed later seen (bareOn bare)
    rcases moves with ⟨_,rfl,_,_,empty⟩ | ⟨rfl,_⟩
    · cases mem_singleton.mp mem
      exact empty bare
    cases mem
  · rw [eq.1]
    refine alignedTurn tended got fun later mem => ?_
    rcases moves with ⟨_,rfl,onLater,_⟩ | ⟨rfl,_⟩
    · cases mem_singleton.mp mem
      cases later <;> trivial
    cases mem
  rw [eq.1,eq.2,kept]
  rcases tended.told with due | told
  · exact .inl (dueKept got (fun owes => by simp [notDue] at owes) (.inl due))
  have carriedHere := told.flying x (Tasks.aheadHere got) on
  refine .inr ⟨fun later seen onLater => ?_,fun none => ?_,fun none => ?_⟩
  · rcases moves with ⟨_,rfl,_,carries,_⟩ | ⟨rfl,_⟩
    · cases mem_singleton.mp (onlyPushed later seen onLater)
      rwa [carries]
    · cases onlyPushed later seen onLater
  · rcases moves with ⟨later,rfl,onLater,_⟩ | ⟨rfl,event,queue,carries⟩
    · simp only [List.countP_singleton,onLater] at count
      simp only at none
      omega
    · intro e mem
      rw [queue] at mem
      cases mem_singleton.mp mem
      rwa [carries]
  rcases moves with ⟨later,rfl,onLater,_⟩ | ⟨rfl,event,queue,carries⟩
  · simp only [List.countP_singleton,onLater] at count
    simp only at none
    omega
  intro empty
  rw [queue] at empty
  cases empty
end

theorem tendedGather
    (got : w.tasks[i]? = some (.gather news ch t :: rest)) (quiet : ahead (isOn ch) w.tasks = 0)
    (carries : event.instances.Perm (listed (next.services y.service) y.options)) :
    Tended ⟨next,turn w.tasks i [.deliver (.send ch event)] rest⟩ ch y := by
  have count := aheadTurn (isOn ch) [.deliver (.send ch event)] got
  have one : ahead (isOn ch) (turn w.tasks i [.deliver (.send ch event)] rest) = 1 := by
    simpa [isOn,quiet,Delivery.isFlight] using count
  have onlySend (later : Instr) (seen : Ahead later (turn w.tasks i [.deliver (.send ch event)] rest))
      (on : isOn ch later = true) : later = .deliver (.send ch event) :=
    mem_singleton.mp (aheadOnly got quiet.le seen on)
  refine ⟨tended.room,one.le,fun later seen bare => ?_,?_,.inr ?_⟩
  · cases onlySend later seen (bareOn bare)
    cases bare
  · exact alignedTurn tended got (by simp [Aligned])
  refine ⟨fun later seen on => ?_,fun none => ?_,fun none => ?_⟩
  · cases onlySend later seen on
    exact carries
  · simp [one] at none
  simp [one] at none
end

theorem tendedEnter (held : Held w) (got : w.tasks[i]? = some (.watchEnter service options instances [] :: rest))
    (steady : instances.Perm (listed (w.reg.services service) options) ∨ 0 < ahead (isNotify service) w.tasks)
    (kept : next.services service = w.reg.services service) :
    Tended ⟨next,turn w.tasks i [.announce w.reg.watchers.length service instances] rest⟩
      w.reg.watchers.length ⟨service,options,⟨1,[],false⟩,true,false,false,none⟩ := by
  have untouched := held.aimed _ (Nat.le_refl w.reg.watchers.length)
  have quiet : ahead (isOn w.reg.watchers.length) w.tasks = 0 := by
    refine Nat.le_zero.mp (Nat.le_trans (aheadMono fun _ on => ?_) untouched.le)
    exact onTarget on
  have count := aheadTurn (isOn w.reg.watchers.length) [.announce w.reg.watchers.length service instances] got
  have one : ahead (isOn w.reg.watchers.length)
      (turn w.tasks i [.announce w.reg.watchers.length service instances] rest) = 1 := by
    simpa [isOn,quiet] using count
  refine ⟨⟨rfl,Nat.zero_le 1⟩,one.le,fun _ _ _ => rfl,fun later seen => ?_,?_⟩
  · rcases aheadTurned got seen with new | old
    · cases mem_singleton.mp new
      trivial
    · have ne := aheadApart untouched old
      cases later with
      | stamp =>
        intro mem
        simp [isTarget,mem] at ne
      | gather =>
        rintro rfl
        simp [isTarget] at ne
      | _ => trivial
  rcases steady with eq | due
  · refine .inr ⟨fun later seen on => ?_,fun none => ?_,fun none => ?_⟩
    · cases mem_singleton.mp (aheadOnly got quiet.le seen on)
      rw [kept]
      exact eq
    · simp [one] at none
    · simp [one] at none
  refine .inl (dueKept got (fun owes => by cases owes) (.inl ?_))
  exact due.trans_le (aheadMono fun _ notifies => notifyDue notifies)
end
end Gofly.MemoryRegistry
