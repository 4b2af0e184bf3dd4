import Gofly.Transition

/-! Admission gates with an open window and a half-open phase, and the calls that straddle
their state changes. -/
namespace Gofly.CircuitGate
open Transition

inductive State where
  | closed | opened | halfOpen
  deriving DecidableEq

inductive Act where
  | observe | allow | enter | success | failure | panic
  deriving DecidableEq

structure Gate (β : Type) where
  state : β → State
  openedAt : β → Int
  openTimeout : β → Int
  halfOpenProbe : β → Bool
  perform : Act → β → Int → β
  enters : β → Int → Bool

structure Call where
  probe : Bool
  mayPanic : Bool
  deriving DecidableEq

structure System (β : Type) where
  gate : β
  now : Int
  calls : List Call

inductive Outcome where
  | success | failure | panic
  deriving DecidableEq

def Outcome.act : Outcome → Act
  | .success => .success
  | .failure => .failure
  | .panic => .panic

inductive Op where
  | observe (time : Int)
  | allow (time : Int)
  | enter (mayPanic : Bool) (time : Int)
  | finish (index : Nat) (outcome : Outcome) (time : Int)
  deriving DecidableEq

def Op.time : Op → Int
  | .observe time | .allow time | .enter _ time | .finish _ _ time => time

def Op.act : Op → Act
  | .observe _ => .observe
  | .allow _ => .allow
  | .enter .. => .enter
  | .finish _ outcome _ => outcome.act

variable {β : Type}

def callsAfter (g : Gate β) (s : System β) : Op → Option (List Call)
  | .observe _ | .allow _ => some s.calls
  | .enter mayPanic time =>
    if g.enters s.gate time then
      some (s.calls ++ [⟨decide (g.state (g.perform .enter s.gate time) = .halfOpen),mayPanic⟩])
    else some s.calls
  | .finish index outcome _ => do
    let call ← s.calls[index]?
    if outcome = .panic ∧ call.mayPanic = false then none else some (s.calls.eraseIdx index)

def step (g : Gate β) (s : System β) (op : Op) : Option (System β) :=
  if s.now ≤ op.time then
    (callsAfter g s op).map fun calls => ⟨g.perform op.act s.gate op.time,op.time,calls⟩
  else none

theorem stepExact (h : step g s op = some next) :
    s.now ≤ op.time ∧ next.gate = g.perform op.act s.gate op.time ∧ next.now = op.time ∧
      callsAfter g s op = some next.calls := by
  unfold step at h
  split at h <;> try contradiction
  rename_i later
  obtain ⟨calls,hc,rfl⟩ := Option.map_eq_some_iff.mp h
  exact ⟨later,rfl,rfl,hc⟩

def Entered (g : Gate β) (s : System β) (op : Op) : Prop :=
  op.act = .enter ∧ g.enters s.gate op.time = true

/-! The open window. -/

def Shut (g : Gate β) (b : β) (time : Int) : Prop :=
  g.state b = .opened ∧ g.openedAt b ≤ time ∧ time < g.openedAt b + g.openTimeout b

structure Clocked (g : Gate β) (b : β) (time : Int) (next : β) : Prop where
  timeout : g.openTimeout next = g.openTimeout b
  opened : g.openedAt next = g.openedAt b ∨ g.openedAt next = time

structure WindowLaws (g : Gate β) (tolerated : Act → β → Int → Prop) : Prop where
  clocked : ∀ act b time, Clocked g b time (g.perform act b time)
  staysShut : ∀ act b time, tolerated act b time → Shut g b time → g.state (g.perform act b time) = .opened
  refuses : ∀ b time, Shut g b time → g.enters b time = false

-- a gate looks at its clock in one way: it moves to `x` once the window has passed
theorem unelapsed (shut : Shut g b time) :
    (if g.state b = .opened ∧ time - g.openedAt b ≥ g.openTimeout b then x else b) = b := by
  obtain ⟨_,_,early⟩ := shut
  exact if_neg (by omega)

theorem elapsedClocked [Decidable c] (timeout : g.openTimeout x = g.openTimeout b) (opened : g.openedAt x = g.openedAt b) :
    Clocked g b time (if c then x else b) := by
  split
  · exact ⟨timeout,.inl opened⟩
  · exact ⟨rfl,.inl rfl⟩

theorem Clocked.past (clocked : Clocked g b time next) (past : g.openedAt b ≤ time) :
    g.openedAt b ≤ g.openedAt next ∧ g.openedAt next ≤ time := by
  have := clocked.opened
  omega

def tolerates (tolerated : Act → β → Int → Prop) (s : System β) (op : Op) : Prop :=
  tolerated op.act s.gate op.time

def OpenWindow (g : Gate β) (allowed : System β → Op → Prop) (start : System β) : Prop :=
  ∀ before s, Trace (step g) allowed start before s → g.state s.gate = .opened →
    ∀ after u, Trace (step g) allowed s after u →
      ∀ op next, step g u op = some next → Entered g u op →
        g.openedAt s.gate + g.openTimeout s.gate ≤ op.time

def Waiting (g : Gate β) (deadline timeout : Int) (s : System β) : Prop :=
  g.openedAt s.gate ≤ s.now ∧ g.openTimeout s.gate = timeout ∧
    (deadline ≤ s.now ∨ (g.state s.gate = .opened ∧ deadline ≤ g.openedAt s.gate + timeout))

section
variable {g : Gate β} {tolerated : Act → β → Int → Prop} (laws : WindowLaws g tolerated)
include laws

theorem openedPastNow (past : g.openedAt start.gate ≤ start.now)
    (trace : Trace (step g) (tolerates tolerated) start ops s) : g.openedAt s.gate ≤ s.now := by
  refine traceInvariant (P := fun s => g.openedAt s.gate ≤ s.now) ?_ trace past
  intro s op next past _ ran
  obtain ⟨later,eq,now,_⟩ := stepExact ran
  rw [eq,now]
  exact ((laws.clocked _ _ _).past (Int.le_trans past later)).2

theorem waitingStep (waiting : Waiting g deadline timeout s) (fits : tolerates tolerated s op)
    (ran : step g s op = some next) : Waiting g deadline timeout next := by
  obtain ⟨later,eq,now,_⟩ := stepExact ran
  obtain ⟨past,timeoutSame,cases⟩ := waiting
  have clocked := laws.clocked op.act s.gate op.time
  obtain ⟨grew,since⟩ := clocked.past (Int.le_trans past later)
  refine ⟨by rw [eq,now]; exact since,by rw [eq,clocked.timeout,timeoutSame],?_⟩
  rw [now]
  rcases cases with passed | ⟨isOpen,bound⟩
  · exact Or.inl (Int.le_trans passed later)
  by_cases mem : op.time < g.openedAt s.gate + timeout
  · have shut : Shut g s.gate op.time := ⟨isOpen,Int.le_trans past later,by omega⟩
    rw [eq]
    exact Or.inr ⟨laws.staysShut _ _ _ fits shut,by omega⟩
  exact Or.inl (by omega)

theorem openWindow (past : g.openedAt start.gate ≤ start.now) : OpenWindow g (tolerates tolerated) start := by
  intro old s met isOpen after u later op next ran entered
  have opened := openedPastNow laws past met
  have waiting : Waiting g (g.openedAt s.gate + g.openTimeout s.gate) (g.openTimeout s.gate) u :=
    traceInvariant (fun _ _ _ w fits ran => waitingStep laws w fits ran) later
      ⟨opened,rfl,Or.inr ⟨isOpen,Int.le_refl _⟩⟩
  obtain ⟨clock,_,_,_⟩ := stepExact ran
  obtain ⟨past,timeoutSame,passed | ⟨stillOpen,bound⟩⟩ := waiting
  · exact Int.le_trans passed clock
  by_contra early
  have shut : Shut g u.gate op.time := ⟨stillOpen,Int.le_trans past clock,by omega⟩
  have refused := laws.refuses _ _ shut
  rw [entered.2] at refused
  contradiction
end

/-! The half-open probe. -/

def Held (g : Gate β) (b : β) : Prop := g.state b = .halfOpen ∧ g.halfOpenProbe b = true
instance (g : Gate β) (b : β) : Decidable (Held g b) := by unfold Held; infer_instance

structure ProbeLaws (g : Gate β) : Prop where
  observeHeld : ∀ b time, Held g b → Held g (g.perform .observe b time)
  allowHeld : ∀ b time, Held g b → Held g (g.perform .allow b time)
  enterHeld : ∀ b time, Held g b → Held g (g.perform .enter b time) ∧ g.enters b time = false
  reserves : ∀ b time, g.enters b time = true → g.state (g.perform .enter b time) = .halfOpen →
    g.halfOpenProbe (g.perform .enter b time) = true

def probes (calls : List Call) : Nat := calls.countP (·.probe)

def NoStraggler (g : Gate β) (s : System β) : Op → Prop
  | .finish index _ _ => ∀ call, s.calls[index]? = some call → call.probe = false → ¬ Held g s.gate
  | _ => True

def SingleProbe (g : Gate β) (allowed : System β → Op → Prop) (start : System β) : Prop :=
  ∀ ops s, Trace (step g) allowed start ops s → probes s.calls ≤ 1

def Reserved (g : Gate β) (s : System β) : Prop :=
  probes s.calls ≤ 1 ∧ (probes s.calls = 1 → Held g s.gate)

theorem probesErase (got : calls[index]? = some call) :
    probes (calls.eraseIdx index) + (if call.probe then 1 else 0) = probes calls := by
  induction calls generalizing index with
  | nil => simp at got
  | cons head tail ih =>
    cases index with
    | zero =>
      have eq : head = call := by simpa using got
      subst eq
      simp [probes,List.countP_cons]
    | succ index =>
      have rest := ih (by simpa using got : tail[index]? = some call)
      simp only [probes,List.eraseIdx_cons_succ,List.countP_cons] at rest ⊢
      omega

theorem reservedStep (laws : ProbeLaws g)
    (reserved : Reserved g s) (fits : NoStraggler g s op) (ran : step g s op = some next) : Reserved g next := by
  obtain ⟨_,eq,_,calls⟩ := stepExact ran
  obtain ⟨atMost,held⟩ := reserved
  cases op with
  | observe =>
    have kept : s.calls = next.calls := Option.some.inj calls
    rw [kept] at atMost held
    exact ⟨atMost,fun one => by rw [eq]; exact laws.observeHeld _ _ (held one)⟩
  | allow =>
    have kept : s.calls = next.calls := Option.some.inj calls
    rw [kept] at atMost held
    exact ⟨atMost,fun one => by rw [eq]; exact laws.allowHeld _ _ (held one)⟩
  | enter mayPanic time =>
    simp only [callsAfter] at calls
    split at calls
    · rename_i entered
      have none : probes s.calls = 0 := by
        by_contra some
        have refused := (laws.enterHeld s.gate time (held (by omega))).2
        rw [entered] at refused
        contradiction
      have total : probes next.calls = if g.state (g.perform .enter s.gate time) = .halfOpen then 1 else 0 := by
        rw [← Option.some.inj calls]
        unfold probes at none ⊢
        simp [none]
      unfold Reserved
      rw [total]
      split
      · rename_i half
        refine ⟨Nat.le_refl _,fun _ => ?_⟩
        rw [eq]
        exact ⟨half,laws.reserves _ _ entered half⟩
      exact ⟨by omega,fun one => by omega⟩
    have kept : s.calls = next.calls := Option.some.inj calls
    rw [kept] at atMost held
    exact ⟨atMost,fun one => by rw [eq]; exact (laws.enterHeld _ _ (held one)).1⟩
  | finish =>
    simp only [callsAfter,bind,Option.bind_eq_some_iff] at calls
    obtain ⟨call,got,last⟩ := calls
    split at last <;> try contradiction
    have total := probesErase got
    rw [Option.some.inj last] at total
    cases probe : call.probe with
    | true =>
      simp only [probe,if_true] at total
      exact ⟨by omega,fun one => by omega⟩
    | false =>
      have free := fits call got probe
      have none : probes s.calls ≠ 1 := fun one => free (held one)
      exact ⟨by omega,fun one => by omega⟩

theorem singleProbe (laws : ProbeLaws g) (idle : start.calls = []) : SingleProbe g (NoStraggler g) start := by
  intro ops s trace
  have first : Reserved g start := by simp [Reserved,probes,idle]
  exact (traceInvariant (fun _ _ _ inv fits ran => reservedStep laws inv fits ran) trace first).1

end Gofly.CircuitGate
