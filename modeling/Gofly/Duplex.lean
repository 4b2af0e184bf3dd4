import Gofly.Transition
import Gofly.Weights

/-! Two parties joined by a first-in first-out channel in each direction. A move is an act of a
party, with the messages it sends, or the taking of the oldest message towards it. -/
namespace Gofly.Duplex
open Transition Weights
open Function (update)

inductive Side where
  | client | server
  deriving DecidableEq

def Side.other : Side → Side
  | .client => .server
  | .server => .client

theorem otherOther (s : Side) : s.other.other = s := by cases s <;> rfl
theorem otherNe (s : Side) : s.other ≠ s := by cases s <;> decide
theorem sideCases (s x : Side) : x = s ∨ x = s.other := by cases s <;> cases x <;> decide

structure Party (σ α μ : Type) where
  act : σ → α → Option (σ × List μ)
  take : σ → μ → Option σ

structure Link (σ μ : Type) where
  party : Side → σ
  wire : Side → List μ
  taken : Side → List μ

inductive Move (α : Type) where
  | act (side : Side) (a : α)
  | take (side : Side)
  deriving DecidableEq

variable {σ α μ : Type}

@[simp] def Move.side : Move α → Side
  | .act side _ => side
  | .take side => side

def joined (client server : σ) : Link σ μ :=
  ⟨fun s => match s with | .client => client | .server => server,fun _ => [],fun _ => []⟩

def step (p : Side → Party σ α μ) (l : Link σ μ) : Move α → Option (Link σ μ)
  | .act s a =>
    match (p s).act (l.party s) a with
    | none => none
    | some (t,out) =>
      some { l with
        party := update l.party s t
        wire := update l.wire s (l.wire s ++ out) }
  | .take s =>
    match l.wire s.other with
    | [] => none
    | m :: rest =>
      match (p s).take (l.party s) m with
      | none => none
      | some t =>
        some {
          party := update l.party s t
          wire := update l.wire s.other rest
          taken := update l.taken s.other (l.taken s.other ++ [m]) }

def Link.sent (l : Link σ μ) (s : Side) : List μ := l.taken s ++ l.wire s

structure Advance (l : Link σ μ) (s : Side) (ins : List μ) (t : σ) (outs : List μ)
    (next : Link σ μ) : Prop where
  mover : next.party s = t
  bystander : next.party s.other = l.party s.other
  sends : next.wire s = l.wire s ++ outs
  takes : l.wire s.other = ins ++ next.wire s.other
  read : next.taken s.other = l.taken s.other ++ ins
  unread : next.taken s = l.taken s

def Local (p : Party σ α μ) (t : σ) (ins : List μ) (next : σ) (outs : List μ) : Move α → Prop
  | .act _ a => ins = [] ∧ p.act t a = some (next,outs)
  | .take _ => ∃ m, ins = [m] ∧ outs = [] ∧ p.take t m = some next

theorem stepAdvance (h : step p l m = some next) :
    ∃ ins t outs, Advance l m.side ins t outs next ∧ Local (p m.side) (l.party m.side) ins t outs m := by
  cases m with
  | act s a =>
    simp only [step] at h
    split at h <;> cases h
    rename_i t out acted
    have other := otherNe s
    exact ⟨[],t,out,⟨by simp,by simp [other],by simp,by simp [other],by simp,rfl⟩,rfl,acted⟩
  | take s =>
    simp only [step] at h
    split at h <;> try contradiction
    rename_i head rest waiting
    split at h <;> cases h
    rename_i t took
    have other := otherNe s
    have eq := other.symm
    exact ⟨[head],t,[],⟨by simp,by simp [other],by simp [eq],by simp [waiting],by simp,
      by simp [eq]⟩,head,rfl,rfl,took⟩

theorem sentAdvance (ran : Advance l s ins t outs next) :
    next.sent s = l.sent s ++ outs ∧ next.sent s.other = l.sent s.other := by
  simp only [Link.sent,ran.sends,ran.unread,ran.read,ran.takes,List.append_assoc,and_self]

structure Ledger (σ μ : Type) where
  holds : σ → Nat
  owes : σ → Nat
  spends : μ → Nat
  repays : μ → Nat

def Ledger.total (g : Ledger σ μ) (l : Link σ μ) (s : Side) : Nat :=
  g.holds (l.party s) + weigh g.spends (l.wire s) + g.owes (l.party s.other) +
    weigh g.repays (l.wire s.other)

variable {g : Ledger σ μ}

theorem totalMover (ran : Advance l s ins t outs next) :
    g.total next s + (g.holds (l.party s) + weigh g.repays ins) = g.total l s + (g.holds t + weigh g.spends outs) := by
  simp only [Ledger.total,ran.mover,ran.bystander,ran.sends,ran.takes,weighAppend]
  omega

theorem totalBystander (ran : Advance l s ins t outs next) :
    g.total next s.other + (g.owes (l.party s) + weigh g.spends ins) =
      g.total l s.other + (g.owes t + weigh g.repays outs) := by
  simp only [Ledger.total,otherOther,ran.mover,ran.bystander,ran.sends,ran.takes, weighAppend]
  omega

theorem totalKept (ran : Advance l s ins t outs next)
    (held : g.holds t + weigh g.spends outs = g.holds (l.party s) + weigh g.repays ins)
    (owed : g.owes t + weigh g.repays outs = g.owes (l.party s) + weigh g.spends ins) (x) :
    g.total next x = g.total l x := by
  have mover := totalMover (g := g) ran
  have bystander := totalBystander (g := g) ran
  rcases sideCases s x with rfl | rfl <;> omega

end Gofly.Duplex
