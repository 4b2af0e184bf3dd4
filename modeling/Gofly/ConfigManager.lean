import Gofly.Mailbox
import Gofly.Transition
/-! The configuration manager and its subscribers. -/
namespace Gofly.ConfigManager
open Mailbox Roster Transition

structure Subscriber (α : Type) where
  chan : Box α
  registered : Bool
  initial : Option α
  received : List α
  deriving DecidableEq

structure Manager (α : Type) where
  value : α
  version : Int64
  lastError : String
  notifying : Option (List Nat)
  subscribers : List (Subscriber α)
  deriving DecidableEq

inductive Act (α : Type) where
  | reload (ctx : Option String) (loaded : Except String α)
  | notify (ch : Nat) (ready : Bool)
  | unlock
  | subscribe (buffer : Int)
  | first (ch : Nat) (ready : Bool)
  | receive (ch : Nat)
  | cancel (ch : Nat)

variable {α : Type}

-- a channel without a buffer hands the value to a receiver that waits
def Subscriber.send (s : Subscriber α) (value : α) (ready : Bool) : Subscriber α :=
  match s.chan.offer value ready with
  | (chan,.taken) =>
    if s.chan.capacity = 0 then { s with received := s.received ++ [value] } else { s with chan }
  | (_,_) => s

def newManager (value : α) : Manager α := ⟨value,1,"",none,[]⟩

namespace Manager

def setLastError (m : Manager α) (err : String) : Option (Manager α) :=
  if m.notifying.isSome then none else some { m with lastError := err }

def apply (validator : α → Option String) (m : Manager α) (next : α) : Option (Manager α × Option String) :=
  match validator next with
  | some err =>
    let wrapped := "validate config: " ++ err
    (m.setLastError wrapped).map (·,some wrapped)
  | none =>
    if m.notifying.isSome then none
    else some ({ m with
      value := next,version := m.version + 1,lastError := "",
      notifying := some (places Subscriber.registered m.subscribers) },none)

def reload (validator : α → Option String) (m : Manager α) (ctx : Option String) (loaded : Except String α) :
    Option (Manager α × Option String) :=
  if ctx.isSome then some (m,ctx)
  else
    match loaded with
    | .error err => (m.setLastError err).map (·,some err)
    | .ok next => m.apply validator next

def notify (m : Manager α) (ch : Nat) (ready : Bool) : Option (Manager α) :=
  m.notifying.bind fun rest =>
    if ch ∈ rest then
      m.subscribers[ch]?.map fun s =>
        { m with notifying := some (rest.erase ch),subscribers := m.subscribers.set ch (s.send m.value ready) }
    else none

def unlock (m : Manager α) : Option (Manager α) :=
  if m.notifying = some [] then some { m with notifying := none } else none

def subscribe (m : Manager α) (buffer : Int) : Option (Manager α) :=
  if m.notifying.isSome then none
  else some { m with subscribers := m.subscribers ++ [⟨⟨buffer.toNat,[],false⟩,true,some m.value,[]⟩] }

def first (m : Manager α) (ch : Nat) (ready : Bool) : Option (Manager α) :=
  m.subscribers[ch]?.bind fun s => s.initial.map fun value =>
    { m with subscribers := m.subscribers.set ch { s.send value ready with initial := none } }

def receive (m : Manager α) (ch : Nat) : Option (Manager α) :=
  m.subscribers[ch]?.bind fun s => s.chan.queue.head?.map fun value =>
    { m with subscribers := m.subscribers.set ch { s with chan := s.chan.poll,received := s.received ++ [value] } }

-- the function that cancels is there only after the first value was sent
def cancel (m : Manager α) (ch : Nat) : Option (Manager α) :=
  if m.notifying.isSome then none
  else
    m.subscribers[ch]?.bind fun s =>
      if s.initial.isSome then none
      else if s.registered then
        some { m with subscribers := m.subscribers.set ch { s with chan := { s.chan with closed := true },registered := false } }
      else some m

end Manager

def step (validator : α → Option String) (m : Manager α) : Act α → Option (Manager α)
  | .reload ctx loaded => (m.reload validator ctx loaded).map (·.1)
  | .notify ch ready => m.notify ch ready
  | .unlock => m.unlock
  | .subscribe buffer => m.subscribe buffer
  | .first ch ready => m.first ch ready
  | .receive ch => m.receive ch
  | .cancel ch => m.cancel ch

structure Quiet (m : Manager α) (s : Subscriber α) : Prop where
  unlocked : m.notifying = none
  sent : s.initial = none
  drained : s.chan.queue = []

/-- Each notice finds room, and the first value is sent while it is current, before a notice to
come, or finds the channel full. -/
def Timely (ch : Nat) (m : Manager α) : Act α → Prop
  | .notify other _ => other = ch → ∀ s, m.subscribers[ch]? = some s → s.chan.queue.length < s.chan.capacity
  | .first other _ => other = ch → ∀ s, m.subscribers[ch]? = some s →
    s.initial = some m.value ∨ ch ∈ m.notifying.getD [] ∨ s.chan.capacity ≤ s.chan.queue.length
  | _ => True

instance [DecidableEq α] (ch : Nat) (m : Manager α) (a : Act α) : Decidable (Timely ch m a) :=
  match a with
  | .notify other _ =>
    decidable_of_iff (other = ch → m.subscribers[ch]?.all (fun s => s.chan.queue.length < s.chan.capacity) = true)
      (by simp [Timely,Option.all_eq_true])
  | .first other _ =>
    decidable_of_iff (other = ch → m.subscribers[ch]?.all (fun s =>
        s.initial = some m.value ∨ ch ∈ m.notifying.getD [] ∨ s.chan.capacity ≤ s.chan.queue.length) = true)
      (by simp [Timely,Option.all_eq_true])
  | .reload .. | .unlock | .subscribe _ | .receive _ | .cancel _ => isTrue trivial

def Subscriber.log (s : Subscriber α) : List α := s.received ++ s.chan.queue

structure Informed (m : Manager α) (ch : Nat) (s : Subscriber α) : Prop where
  lives : s.chan.closed = false
  told : ch ∈ m.notifying.getD [] ∨ s.initial.isSome = true ∧ s.log = [] ∨ s.log.getLast? = some m.value

def Held (ch : Nat) (m : Manager α) : Prop :=
  ∀ s, m.subscribers[ch]? = some s → s.registered = true → 1 ≤ s.chan.capacity → Informed m ch s

section
variable {s : Subscriber α} {value : α}

theorem sendRoom (lives : s.chan.closed = false) (room : s.chan.queue.length < s.chan.capacity) :
    s.send value ready = { s with chan := { s.chan with queue := s.chan.queue ++ [value] } } := by
  have buffered : s.chan.capacity ≠ 0 := by omega
  simp [Subscriber.send,offerTaken value ready lives room,buffered]

theorem sendFull (lives : s.chan.closed = false) (full : s.chan.capacity ≤ s.chan.queue.length)
    (buffered : 1 ≤ s.chan.capacity) : s.send value ready = s := by
  have offered : s.chan.offer value ready = (s.chan,.full) := by
    simp [Box.offer,lives,Nat.not_lt.mpr full,Nat.pos_iff_ne_zero.mp buffered]
  simp [Subscriber.send,offered]

theorem sendSame : (s.send value ready).registered = s.registered ∧
    (s.send value ready).chan.capacity = s.chan.capacity := by
  unfold Subscriber.send
  split
  · rename_i chan offered
    have eq : chan.capacity = s.chan.capacity := by rw [← offerCapacity s.chan value ready,offered]
    split
    · exact ⟨rfl,rfl⟩
    exact ⟨rfl,eq⟩
  exact ⟨rfl,rfl⟩
end

section
variable {m next : Manager α}

theorem setHeld (held : Held ch m) (rest : next.subscribers = m.subscribers.set other s)
    (value : next.value = m.value) (due : other ≠ ch → ch ∈ m.notifying.getD [] → ch ∈ next.notifying.getD [])
    (mine : other = ch → s.registered = true → 1 ≤ s.chan.capacity → Informed next ch s) : Held ch next := by
  intro got seen known buffered
  rw [rest] at seen
  rcases setSeen seen with ⟨here,rfl⟩ | ⟨ne,old⟩
  · exact mine here known buffered
  obtain ⟨lives,told⟩ := held got old known buffered
  exact ⟨lives,told.imp (due ne) fun told => value ▸ told⟩

theorem setLastErrorExact (ran : (m.setLastError err).map (·,some err) = some out) :
    out = ({ m with lastError := err },some err) := by
  unfold Manager.setLastError at ran
  split at ran <;> try contradiction
  exact (Option.some.inj ran).symm

theorem reloadExact (ran : m.reload validator ctx loaded = some out) :
    (∃ lastError, out.1 = { m with lastError }) ∨ ∃ value, out = ({ m with
      value,version := m.version + 1,lastError := "",notifying := some (places Subscriber.registered m.subscribers) },none) := by
  unfold Manager.reload at ran
  split at ran
  · exact .inl ⟨m.lastError,congrArg _ (Option.some.inj ran).symm⟩
  split at ran
  · exact .inl ⟨_,congrArg _ (setLastErrorExact ran)⟩
  rename_i value
  unfold Manager.apply at ran
  split at ran
  · exact .inl ⟨_,congrArg _ (setLastErrorExact ran)⟩
  split at ran <;> try contradiction
  exact .inr ⟨value,(Option.some.inj ran).symm⟩

section
variable (held : Held ch m)
include held

theorem reloadHeld (ran : m.reload validator ctx loaded = some out) : Held ch out.1 := by
  intro s seen known buffered
  rcases reloadExact ran with ⟨_,kept⟩ | ⟨_,rfl⟩
  · rw [kept] at seen ⊢
    exact ⟨(held s seen known buffered).lives,(held s seen known buffered).told⟩
  exact ⟨(held s seen known buffered).lives,.inl (memPlaces.mpr ⟨s,seen,known⟩)⟩

theorem notifyHeld (timely : Timely ch m (.notify other ready))
    (ran : m.notify other ready = some next) : Held ch next := by
  obtain ⟨rest,locked,ran⟩ := Option.bind_eq_some_iff.mp ran
  split at ran <;> try contradiction
  obtain ⟨s,got,rfl⟩ := Option.map_eq_some_iff.mp ran
  refine setHeld held rfl rfl ?_ ?_
  · intro ne due
    rw [locked] at due
    exact (List.mem_erase_of_ne ne.symm).mpr due
  intro here known buffered
  subst here
  rw [sendSame.1] at known
  rw [sendSame.2] at buffered
  have lives := (held s got known buffered).lives
  rw [sendRoom lives (timely rfl s got)]
  exact ⟨lives,.inr (.inr (by simp [Subscriber.log]))⟩

theorem unlockHeld (ran : m.unlock = some next) : Held ch next := by
  unfold Manager.unlock at ran
  split at ran <;> cases ran
  rename_i done
  intro s seen known buffered
  obtain ⟨lives,told⟩ := held s seen known buffered
  rw [done] at told
  exact ⟨lives,told⟩

theorem subscribeHeld (ran : m.subscribe buffer = some next) : Held ch next := by
  unfold Manager.subscribe at ran
  split at ran <;> cases ran
  intro s seen known buffered
  rcases addSeen seen with ⟨_,rfl⟩ | before
  · exact ⟨rfl,.inr (.inl ⟨rfl,rfl⟩)⟩
  exact ⟨(held s before known buffered).lives,(held s before known buffered).told⟩

theorem firstHeld (timely : Timely ch m (.first other ready))
    (ran : m.first other ready = some next) : Held ch next := by
  obtain ⟨s,got,ran⟩ := Option.bind_eq_some_iff.mp ran
  obtain ⟨value,pending,rfl⟩ := Option.map_eq_some_iff.mp ran
  refine setHeld held rfl rfl (fun _ due => due) ?_
  intro here known buffered
  subst here
  replace known : s.registered = true := sendSame.1 ▸ known
  replace buffered : 1 ≤ s.chan.capacity := sendSame.2 ▸ buffered
  obtain ⟨lives,told⟩ := held s got known buffered
  rcases Nat.lt_or_ge s.chan.queue.length s.chan.capacity with room | full
  · rw [sendRoom lives room]
    rcases timely rfl s got with current | due | full
    · cases Option.mem_unique pending current
      exact ⟨lives,.inr (.inr (by simp [Subscriber.log]))⟩
    · exact ⟨lives,.inl due⟩
    exact absurd room (Nat.not_lt.mpr full)
  rw [sendFull lives full buffered]
  refine ⟨lives,told.imp_right fun told => .inr (told.resolve_left fun ⟨_,empty⟩ => ?_)⟩
  -- a full channel is not empty
  have empty := congrArg List.length (List.append_eq_nil_iff.mp empty).2
  simp only [List.length_nil] at empty
  omega

theorem receiveHeld (ran : m.receive other = some next) : Held ch next := by
  obtain ⟨s,got,ran⟩ := Option.bind_eq_some_iff.mp ran
  obtain ⟨value,front,rfl⟩ := Option.map_eq_some_iff.mp ran
  refine setHeld held rfl rfl (fun _ due => due) ?_
  intro here known buffered
  subst here
  obtain ⟨lives,told⟩ := held s got known buffered
  have eq : ({ s with chan := s.chan.poll,received := s.received ++ [value] } : Subscriber α).log = s.log := by
    obtain ⟨rest,queue⟩ := List.head?_eq_some_iff.mp front
    simp [Subscriber.log,Box.poll,queue]
  exact ⟨lives,by rw [eq]; exact told⟩

theorem cancelHeld (ran : m.cancel other = some next) : Held ch next := by
  unfold Manager.cancel at ran
  split at ran <;> try contradiction
  obtain ⟨s,got,ran⟩ := Option.bind_eq_some_iff.mp ran
  split at ran <;> try contradiction
  split at ran
  · cases ran
    exact setHeld held rfl rfl (fun _ due => due) fun _ known => Bool.noConfusion known
  cases ran
  exact held
end

theorem stepHeld (m a next) (held : Held ch m) (timely : Timely ch m a)
    (ran : step validator m a = some next) : Held ch next := by
  cases a with
  | reload =>
    obtain ⟨_,reloaded,rfl⟩ := Option.map_eq_some_iff.mp ran
    exact reloadHeld held reloaded
  | notify => exact notifyHeld held timely ran
  | unlock => exact unlockHeld held ran
  | subscribe => exact subscribeHeld held ran
  | first => exact firstHeld held timely ran
  | receive => exact receiveHeld held ran
  | cancel => exact cancelHeld held ran

theorem reloadFails (ran : m.reload validator ctx loaded = some (next,some err)) :
    next.value = m.value ∧ next.version = m.version := by
  rcases reloadExact ran with ⟨_,rfl⟩ | ⟨_,fine⟩
  · exact ⟨rfl,rfl⟩
  cases fine

/-- A subscriber received the current value last once all is quiet, and a Reload that fails changes nothing. -/
theorem timelySubscribersConverge (validator : α → Option String) (value : α) :
    (∀ ch as m, Trace (step validator) (Timely ch) (newManager value) as m → ∀ s, m.subscribers[ch]? = some s →
      s.registered = true → 1 ≤ s.chan.capacity → Quiet m s → s.received.getLast? = some m.value) ∧
    ∀ (m next : Manager α) ctx loaded err, m.reload validator ctx loaded = some (next,some err) →
      next.value = m.value ∧ next.version = m.version := by
  refine ⟨fun ch as m ran s seen registered buffered quiet => ?_,fun _ _ _ _ _ => reloadFails⟩
  have held : Held ch m := traceInvariant stepHeld ran nofun
  have told := (held s seen registered buffered).told
  simpa [quiet.unlocked,quiet.sent,quiet.drained,Subscriber.log] using told
end

theorem roomyConverges : ∃ m s, run (step fun _ => none) (newManager 5)
      [.subscribe 2,.first 0 false,.reload none (.ok 7),.notify 0 false,.unlock,.receive 0,.receive 0] = some m ∧
    m.subscribers[0]? = some s ∧ s.received.getLast? = some m.value ∧
    ∃ next, m.reload (fun _ => none) none (.error "gone") = some (next,some "gone") ∧
      next.value = m.value ∧ next.version = m.version := by
  have accepted : accepts (step fun _ => none) (Timely 0) (newManager 5)
      [.subscribe 2,.first 0 false,.reload none (.ok 7),.notify 0 false,.unlock,.receive 0,.receive 0] = true := by
    decide +kernel
  obtain ⟨m,ran,trace⟩ := acceptedTrace accepted
  obtain ⟨converges,kept⟩ := timelySubscribersConverge (fun _ : Nat => none) 5
  cases ran
  exact ⟨_,_,rfl,rfl,converges _ _ _ trace _ rfl rfl (by decide) ⟨rfl,rfl,rfl⟩,_,rfl,
    kept _ _ none (.error "gone") "gone" rfl⟩

theorem staleLast : (∃ m s, run (step fun _ => none) (newManager 5)
        [.subscribe 1,.first 0 false,.reload none (.ok 7),.notify 0 false,.unlock,.receive 0] = some m ∧
      m.subscribers[0]? = some s ∧ s.registered = true ∧ Quiet m s ∧ s.received.getLast? = some 5 ∧ m.value = 7) ∧
    ∃ m s, run (step fun _ => none) (newManager 5)
        [.subscribe 2,.reload none (.ok 7),.notify 0 false,.unlock,.first 0 false,.receive 0,.receive 0] = some m ∧
      m.subscribers[0]? = some s ∧ s.registered = true ∧ Quiet m s ∧ s.received.getLast? = some 5 ∧ m.value = 7 :=
  ⟨⟨_,_,rfl,rfl,rfl,⟨rfl,rfl,rfl⟩,rfl,rfl⟩,_,_,rfl,rfl,rfl,⟨rfl,rfl,rfl⟩,rfl,rfl⟩

end Gofly.ConfigManager
