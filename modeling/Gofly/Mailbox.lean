import Gofly.Roster
/-! A buffered channel. A send that does not wait is taken, or finds the channel full; on a
closed channel it is a fault, as is a second close. -/
namespace Gofly.Mailbox

structure Box (ε : Type) where
  capacity : Nat
  queue : List ε
  closed : Bool
  deriving DecidableEq

variable {ε : Type}

inductive Offer where
  | taken | full | fault
  deriving DecidableEq

def Box.offer (m : Box ε) (e : ε) (ready : Bool) : Box ε × Offer :=
  if m.closed then (m,.fault)
  else if m.queue.length < m.capacity then ({ m with queue := m.queue ++ [e] },.taken)
  else if m.capacity = 0 ∧ ready then (m,.taken)
  else (m,.full)

def Box.poll (m : Box ε) : Box ε := { m with queue := m.queue.tail }
def Box.shut (m : Box ε) : Option (Box ε) :=
  if m.closed then none else some { m with closed := true }

@[simp] theorem offerClosed (m : Box ε) (e ready) : (m.offer e ready).1.closed = m.closed := by
  unfold Box.offer
  split_ifs <;> rfl

@[simp] theorem offerCapacity (m : Box ε) (e ready) : (m.offer e ready).1.capacity = m.capacity := by
  unfold Box.offer
  split_ifs <;> rfl

theorem offerFault {m : Box ε} : (m.offer e ready).2 = .fault ↔ m.closed = true := by
  unfold Box.offer
  split_ifs <;> simp_all

theorem offerTaken {m : Box ε} (e ready) (lives : m.closed = false) (room : m.queue.length < m.capacity) :
    m.offer e ready = ({ m with queue := m.queue ++ [e] },.taken) := by
  simp [Box.offer,lives,room]

theorem offerFull {m : Box ε} (e) (lives : m.closed = false) (full : m.capacity ≤ m.queue.length) :
    m.offer e false = (m,.full) := by
  simp [Box.offer,lives,Nat.not_lt.mpr full]

inductive Fault where
  | sent | closed
  deriving DecidableEq

inductive Delivery (ε : Type) where
  | send (ch : Nat) (e : ε)
  | drain (ch : Nat) (e : ε)
  | resend (ch : Nat) (e : ε)
  | close (ch : Nat)
  deriving DecidableEq

structure Outcome (ε : Type) where
  box : Box ε
  pushed : List (Delivery ε)
  fault : Option Fault
  deriving DecidableEq

namespace Delivery

def channel : Delivery ε → Nat
  | .send ch _ | .drain ch _ | .resend ch _ | .close ch => ch

def isClose (ch : Nat) : Delivery ε → Bool
  | .close other => other == ch
  | _ => false

def isFlight (ch : Nat) : Delivery ε → Bool
  | .send other _ | .drain other _ | .resend other _ => other == ch
  | .close _ => false

def deliver (box : Box ε) (ready : Bool) : Delivery ε → Outcome ε
  | .send ch e =>
    match box.offer e ready with
    | (box,.taken) => ⟨box,[],none⟩
    | (box,.full) => ⟨box,[.drain ch e],none⟩
    | (box,.fault) => ⟨box,[],some .sent⟩
  | .drain ch e => ⟨box.poll,[.resend ch e],none⟩
  | .resend _ e =>
    match box.offer e ready with
    | (box,.fault) => ⟨box,[],some .sent⟩
    | (box,_) => ⟨box,[],none⟩
  | .close _ =>
    match box.shut with
    | none => ⟨box,[],some .closed⟩
    | some box => ⟨box,[],none⟩

end Delivery

open Delivery Roster

theorem closeChannel (closes : isClose ch d = true) : d.channel = ch := by
  cases d <;> simp_all [isClose,channel]

theorem flightChannel (flies : isFlight ch d = true) : d.channel = ch := by
  cases d <;> simp_all [isFlight,channel]

theorem deliverFault (fault : (deliver box ready d).fault = some f) :
    box.closed = true ∧ ((f = .sent ∧ isFlight d.channel d) ∨ (f = .closed ∧ isClose d.channel d)) := by
  cases d with
  | drain => simp [deliver] at fault
  | send | resend =>
    unfold deliver Box.offer at fault
    split_ifs at fault
    simp_all [isFlight,channel]
  | close =>
    unfold deliver Box.shut at fault
    split_ifs at fault
    simp_all [isClose,channel]

theorem deliverClosed (box : Box ε) (ready d) :
    (deliver box ready d).box.closed = (box.closed || isClose d.channel d) := by
  cases d with
  | drain => simp [deliver,Box.poll,isClose]
  | send | resend =>
    unfold deliver Box.offer
    split_ifs <;> simp_all [isClose]
  | close =>
    unfold deliver Box.shut
    split_ifs <;> simp_all [isClose,channel]

theorem putLive {α : Type} (chan : α → Box ε) (put : Box ε → α → α)
    (stored : ∀ box x, chan (put box x) = box) {list x}
    (seen : list[i]? = some x) (eq : box.closed = (chan x).closed) (ch) :
    mark (fun y => !(chan y).closed) (list.modify i (put box)) ch =
      mark (fun y => !(chan y).closed) list ch := by
  by_cases here : i = ch
  · subst here
    rw [markSeen (modifyHere _ seen),markSeen seen,stored,eq]
  rw [markModify,if_neg here]

theorem deliverLive {α : Type} (chan : α → Box ε) (put : Box ε → α → α)
    (stored : ∀ box x, chan (put box x) = box) {list : List α} {x : α} (seen : list[d.channel]? = some x) (ready ch) :
    mark (fun y => !(chan y).closed) (list.modify d.channel (put (deliver (chan x) ready d).box)) ch =
      if isClose ch d then 0 else mark (fun y => !(chan y).closed) list ch := by
  by_cases here : d.channel = ch
  · subst here
    rw [markSeen (modifyHere _ seen),markSeen seen,stored,deliverClosed]
    cases isClose d.channel d <;> simp
  have elsewhere : isClose ch d = false := Bool.eq_false_iff.mpr fun closes => here (closeChannel closes)
  rw [markModify,if_neg here,elsewhere]
  rfl

theorem deliverPushed (box : Box ε) (ready d) : (deliver box ready d).pushed = [] ∨
      ∃ next, (deliver box ready d).pushed = [next] ∧ next.channel = d.channel ∧
        isFlight d.channel d = true ∧ isFlight d.channel next = true := by
  cases d with
  | drain ch e => exact .inr ⟨.resend ch e,rfl,rfl,beq_self_eq_true ch,beq_self_eq_true ch⟩
  | send ch e =>
    simp only [deliver]
    split
    · exact .inl rfl
    · exact .inr ⟨.drain ch e,rfl,rfl,beq_self_eq_true ch,beq_self_eq_true ch⟩
    exact .inl rfl
  | resend | close =>
    simp only [deliver]
    split <;> exact .inl rfl

theorem deliverCloses (box : Box ε) (ready d ch) : (deliver box ready d).pushed.countP (isClose ch) = 0 := by
  rcases deliverPushed box ready d with none | ⟨next,one,_,_,flies⟩
  · rw [none]
    rfl
  cases next <;> simp_all [isClose,isFlight]

theorem deliverFlights (box : Box ε) (ready d ch) :
    (deliver box ready d).pushed.countP (isFlight ch) ≤ if isFlight ch d then 1 else 0 := by
  rcases deliverPushed box ready d with none | ⟨next,one,eq,flying,flies⟩
  · rw [none]
    exact Nat.zero_le _
  rw [one]
  by_cases here : d.channel = ch
  · subst here
    simp [flying,flies]
  have elsewhere : isFlight ch next = false :=
    Bool.eq_false_iff.mpr fun flies => here (eq.symm.trans (flightChannel flies))
  simp [elsewhere]

end Gofly.Mailbox
