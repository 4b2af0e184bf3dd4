import Gofly.Roster
import Gofly.Transition
/-! The single-flight group: Do, the deferred leave of its leader, and Forget, one
lock-protected section at a time. -/
namespace Gofly.SingleFlight
open Roster

variable {τ ε π : Type}

inductive Outcome (τ ε π : Type) where
  | returned (value : τ) (err : Option ε)
  | panicked (v : π)
  deriving DecidableEq

inductive Reply (τ ε π : Type) where
  | returned (value : τ) (shared : Bool) (err : Option ε)
  | panicked (v : π)
  deriving DecidableEq

structure Call (τ ε π : Type) where
  done : Bool
  value : τ
  err : Option ε
  panic : Option π
  shared : Bool
  deriving DecidableEq

def Call.keep (c : Call τ ε π) : Outcome τ ε π → Call τ ε π
  | .returned value err => { c with value := value,err := err }
  | .panicked v => { c with panic := some v }

def Call.reply (c : Call τ ε π) (shared : Bool) : Reply τ ε π :=
  match c.panic with
  | some v => .panicked v
  | none => .returned c.value shared c.err

def Outcome.reply (shared : Bool) : Outcome τ ε π → Reply τ ε π
  | .returned value err => .returned value shared err
  | .panicked v => .panicked v

inductive Role where
  | refused
  | direct
  | leader (call : Nat)
  | joiner (call : Nat)
  deriving DecidableEq

inductive Phase (τ ε π : Type) where
  | executing
  | leaving
  | closing (shared : Bool)
  | waiting
  | gaveUp (reply : Reply τ ε π)
  | returned (reply : Reply τ ε π)
  deriving DecidableEq

structure Caller (τ ε π : Type) where
  key : String
  role : Role
  phase : Phase τ ε π
  outcome : Option (Outcome τ ε π)
  deriving DecidableEq

structure World (τ ε π : Type) where
  calls : String → Option Nat
  heap : List (Call τ ε π)
  callers : List (Caller τ ε π)
  forgotten : String → Nat

def start : World τ ε π := ⟨fun _ => none,[],[],fun _ => 0⟩
def mark {β : Type} (table : String → β) (key : String) (b : β) (other : String) : β :=
  if other = key then b else table other

@[simp] theorem markSelf {β : Type} (table : String → β) (key b) : mark table key b key = b := if_pos rfl

theorem markOther {β : Type} {table : String → β} {b}
    (ne : other ≠ key) : mark table key b other = table other := if_neg ne

inductive Act (τ ε π : Type) where
  | enter (key : String) (ctx : Option ε)
  | complete (i : Nat) (outcome : Outcome τ ε π)
  | leave (i : Nat)
  | close (i : Nat)
  | wake (i : Nat)
  | giveUp (i : Nat) (err : ε)
  | forget (key : String)

def World.join (w : World τ ε π) (caller : Caller τ ε π) : World τ ε π :=
  { w with callers := w.callers ++ [caller] }

def World.put (w : World τ ε π) (i : Nat) (caller : Caller τ ε π) : World τ ε π :=
  { w with callers := w.callers.set i caller }

def World.amend (w : World τ ε π) (c : Nat) (change : Call τ ε π → Call τ ε π) : World τ ε π :=
  { w with heap := w.heap.modify c change }

def World.enter [Inhabited τ] (w : World τ ε π) (key : String) (ctx : Option ε) : World τ ε π :=
  match ctx with
  | some err => w.join ⟨key,.refused,.returned (.returned default false (some err)),none⟩
  | none =>
    if key = "" then w.join ⟨key,.direct,.executing,none⟩
    else match w.calls key with
      | some c => (w.amend c fun call => { call with shared := true }).join
          ⟨key,.joiner c,.waiting,none⟩
      | none =>
        { w with
          calls := mark w.calls key (some w.heap.length)
          heap := w.heap ++ [⟨false,default,none,none,false⟩]
          callers := w.callers ++ [⟨key,.leader w.heap.length,.executing,none⟩] }

def World.forget (w : World τ ε π) (key : String) : World τ ε π :=
  { w with
    calls := mark w.calls key none
    forgotten := mark w.forgotten key w.callers.length }

def step [Inhabited τ] (w : World τ ε π) : Act τ ε π → Option (World τ ε π)
  | .enter key ctx => some (w.enter key ctx)
  | .complete i outcome =>
    match w.callers[i]? with
    | some ⟨key,.direct,.executing,_⟩ =>
      some (w.put i ⟨key,.direct,.returned (outcome.reply false),some outcome⟩)
    | some ⟨key,.leader c,.executing,_⟩ =>
      some ((w.amend c fun call => call.keep outcome).put i
        ⟨key,.leader c,.leaving,some outcome⟩)
    | _ => none
  | .leave i =>
    match w.callers[i]? with
    | some ⟨key,.leader c,.leaving,outcome⟩ =>
      match w.heap[c]? with
      | some call =>
        some { w.put i ⟨key,.leader c,.closing call.shared,outcome⟩ with
          calls := mark w.calls key none }
      | none => none
    | _ => none
  | .close i =>
    match w.callers[i]? with
    | some ⟨key,.leader c,.closing shared,outcome⟩ =>
      match w.heap[c]? with
      | some call =>
        some ((w.amend c fun call => { call with done := true }).put i
          ⟨key,.leader c,.returned (call.reply shared),outcome⟩)
      | none => none
    | _ => none
  | .wake i =>
    match w.callers[i]? with
    | some ⟨key,.joiner c,.waiting,outcome⟩ =>
      match w.heap[c]? with
      | some call =>
        if call.done then some (w.put i ⟨key,.joiner c,.returned (call.reply true),outcome⟩)
        else none
      | none => none
    | _ => none
  | .giveUp i err =>
    match w.callers[i]? with
    | some ⟨key,.joiner c,.waiting,outcome⟩ =>
      some (w.put i ⟨key,.joiner c,.gaveUp (.returned default true (some err)),outcome⟩)
    | _ => none
  | .forget key => some (w.forget key)

inductive Stepped [Inhabited τ] (w : World τ ε π) : Act τ ε π → World τ ε π → Prop where
  | refused (key : String) (err : ε) : Stepped w (.enter key (some err))
      (w.join ⟨key,.refused,.returned (.returned default false (some err)),none⟩)
  | bare : Stepped w (.enter "" none) (w.join ⟨"",.direct,.executing,none⟩)
  | joined (held : w.calls key = some c) :
      Stepped w (.enter key none) ((w.amend c fun call => { call with shared := true }).join
        ⟨key,.joiner c,.waiting,none⟩)
  | led (named : key ≠ "") (free : w.calls key = none) :
      Stepped w (.enter key none)
        { w with
          calls := mark w.calls key (some w.heap.length)
          heap := w.heap ++ [⟨false,default,none,none,false⟩]
          callers := w.callers ++ [⟨key,.leader w.heap.length,.executing,none⟩] }
  | answered (outcome : Outcome τ ε π)
      (found : w.callers[i]? = some ⟨key,.direct,.executing,old⟩) :
      Stepped w (.complete i outcome)
        (w.put i ⟨key,.direct,.returned (outcome.reply false),some outcome⟩)
  | completed {i c : Nat} {key : String} {old : Option (Outcome τ ε π)} (outcome : Outcome τ ε π)
      (found : w.callers[i]? = some ⟨key,.leader c,.executing,old⟩) :
      Stepped w (.complete i outcome) ((w.amend c fun call => call.keep outcome).put i
        ⟨key,.leader c,.leaving,some outcome⟩)
  | left {i c : Nat} {key : String} {outcome : Option (Outcome τ ε π)} {call : Call τ ε π}
      (found : w.callers[i]? = some ⟨key,.leader c,.leaving,outcome⟩)
      (called : w.heap[c]? = some call) :
      Stepped w (.leave i) { w.put i ⟨key,.leader c,.closing call.shared,outcome⟩ with
        calls := mark w.calls key none }
  | closed {i c : Nat} {key : String} {shared : Bool} {outcome : Option (Outcome τ ε π)}
      {call : Call τ ε π}
      (found : w.callers[i]? = some ⟨key,.leader c,.closing shared,outcome⟩)
      (called : w.heap[c]? = some call) :
      Stepped w (.close i) ((w.amend c fun call => { call with done := true }).put i
        ⟨key,.leader c,.returned (call.reply shared),outcome⟩)
  | woken {i c : Nat} {key : String} {outcome : Option (Outcome τ ε π)} {call : Call τ ε π}
      (found : w.callers[i]? = some ⟨key,.joiner c,.waiting,outcome⟩)
      (called : w.heap[c]? = some call) (done : call.done = true) :
      Stepped w (.wake i) (w.put i ⟨key,.joiner c,.returned (call.reply true),outcome⟩)
  | gaveUp {i c : Nat} {key : String} {outcome : Option (Outcome τ ε π)} (err : ε)
      (found : w.callers[i]? = some ⟨key,.joiner c,.waiting,outcome⟩) :
      Stepped w (.giveUp i err)
        (w.put i ⟨key,.joiner c,.gaveUp (.returned default true (some err)),outcome⟩)
  | forgot (key : String) : Stepped w (.forget key) (w.forget key)

theorem steppedOf [Inhabited τ] {w : World τ ε π} (ran : step w a = some next) : Stepped w a next := by
  cases a with
  | enter key =>
    cases ran
    unfold World.enter
    split
    · exact .refused key _
    split
    · subst key; exact .bare
    rename_i named
    split
    · exact .joined ‹_›
    exact .led named ‹_›
  | complete _ outcome =>
    simp only [step] at ran
    split at ran <;> try contradiction
    · cases ran; exact .answered outcome ‹_›
    cases ran; exact .completed outcome ‹_›
  | leave =>
    simp only [step] at ran
    split at ran <;> try contradiction
    split at ran <;> cases ran
    exact .left ‹_› ‹_›
  | close =>
    simp only [step] at ran
    split at ran <;> try contradiction
    split at ran <;> cases ran
    exact .closed ‹_› ‹_›
  | wake =>
    simp only [step] at ran
    split at ran <;> try contradiction
    split at ran <;> try contradiction
    split at ran <;> cases ran
    exact .woken ‹_› ‹_› ‹_›
  | giveUp _ err =>
    simp only [step] at ran
    split at ran <;> cases ran
    exact .gaveUp err ‹_›
  | forget key => cases ran; exact .forgot key

structure Older (a b : Caller τ ε π) : Prop where
  key : b.key = a.key
  role : b.role = a.role
  ran : b.phase = .executing → b = a
  told : ∀ outcome, a.outcome = some outcome → a.phase ≠ .executing → b.outcome = some outcome

theorem olderRefl (a : Caller τ ε π) : Older a a := ⟨rfl,rfl,fun _ => rfl,fun _ told _ => told⟩

theorem olderOn (idle : later ≠ .executing) : Older ⟨key,role,phase,outcome⟩ ⟨key,role,later,outcome⟩ :=
  ⟨rfl,rfl,fun again => absurd again idle,fun _ told _ => told⟩

theorem olderRan (idle : later ≠ .executing) : Older ⟨key,role,.executing,old⟩ ⟨key,role,later,outcome⟩ :=
  ⟨rfl,rfl,fun again => absurd again idle,fun _ _ stopped => absurd rfl stopped⟩

structure Newcomer (w next : World τ ε π) (c : Caller τ ε π) : Prop where
  led : ∀ k, c.role = .leader k →
    k = w.heap.length ∧ w.calls c.key = none ∧ next.calls c.key = some k ∧ k < next.heap.length
  named : c.phase = .executing → c.key ≠ "" → ∃ k, c.role = .leader k
  untold : c.outcome = none

inductive Moved (w next : World τ ε π) : Prop where
  | same (kept : next.callers = w.callers)
  | moved (found : w.callers[i]? = some a)
      (put : next.callers = w.callers.set i b) (older : Older a b)
  | came (added : next.callers = w.callers ++ [c]) (newcomer : Newcomer w next c)

variable {a : Act τ ε π} {i j : Nat}

theorem movedOf [Inhabited τ] (ran : Stepped w a next) : Moved w next := by
  cases ran with
  | refused | bare | joined => exact .came rfl ⟨by simp,by simp,rfl⟩
  | led _ free => exact .came rfl ⟨by simp [free],by simp,rfl⟩
  | answered _ got | completed _ got => exact .moved got rfl (olderRan (by simp))
  | left got | closed got | woken got | gaveUp _ got => exact .moved got rfl (olderOn (by simp))
  | forgot => exact .same rfl

theorem callerOf (moved : Moved w next) (seen : next.callers[j]? = some c) :
    (∃ d, w.callers[j]? = some d ∧ Older d c) ∨ (j = w.callers.length ∧ Newcomer w next c) := by
  cases moved with
  | same kept => exact .inl ⟨c,kept ▸ seen,olderRefl c⟩
  | moved got put older =>
    rw [put] at seen
    rcases setSeen seen with ⟨rfl,rfl⟩ | ⟨-,before⟩
    · exact .inl ⟨_,got,older⟩
    exact .inl ⟨c,before,olderRefl c⟩
  | came added newcomer =>
    rw [added] at seen
    rcases addSeen seen with ⟨last,rfl⟩ | before
    · exact .inr ⟨last,newcomer⟩
    exact .inl ⟨c,before,olderRefl c⟩

theorem callerLater (moved : Moved w next) (seen : w.callers[j]? = some c) :
    ∃ d, next.callers[j]? = some d ∧ Older c d := by
  cases moved with
  | same kept => exact ⟨c,kept ▸ seen,olderRefl c⟩
  | @moved i _ b got put older =>
    rw [put]
    by_cases here : i = j
    · subst here
      cases Option.mem_unique got seen
      exact ⟨b,setHere got,older⟩
    exact ⟨c,setElsewhere here seen,olderRefl c⟩
  | came added => exact ⟨c,added ▸ addBehind seen,olderRefl c⟩

theorem heapGrows [Inhabited τ] (ran : Stepped w a next) : w.heap.length ≤ next.heap.length := by
  cases ran <;> simp [World.join,World.put,World.amend,World.forget]

end Gofly.SingleFlight
