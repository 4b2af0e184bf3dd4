import Mathlib.Data.List.Basic

/-! The saga orchestrator: Execute, and ExecutePersist, which saves its progress after every
step. -/
namespace Gofly.Saga
open List (range range_succ)
open Option (map_some)

structure Step where
  name : String
  act : Option (Option String)
  compensate : Option (Option String)
  deriving DecidableEq

inductive StepStatus where
  | pending | completed | failed | compensated
  deriving DecidableEq

inductive SagaStatus where
  | running | completed | compensating | compensated
  deriving DecidableEq

structure StepRecord where
  name : String
  index : Nat
  status : StepStatus
  error : String
  deriving DecidableEq

structure State where
  id : String
  status : SagaStatus
  steps : List StepRecord
  deriving DecidableEq

structure CompensationError where
  step : String
  index : Nat
  err : String
  deriving DecidableEq

structure ExecutionError where
  step : String
  index : Nat
  err : String
  compensations : List CompensationError
  deriving DecidableEq

inductive Failure where
  | save (err : String)
  | execution (err : ExecutionError)
  deriving DecidableEq

inductive Event where
  | did (i : Nat)
  | compensated (i : Nat)
  deriving DecidableEq

def stepName (step : Step) (index : Nat) : String :=
  if step.name ≠ "" then step.name else "step[" ++ toString index ++ "]"

def unwind (steps : List Step) : List Nat → List CompensationError × List Event
  | [] => ([],[])
  | idx :: rest =>
    match steps[idx]? with
    | none => unwind steps rest
    | some step =>
      match step.compensate with
      | none => unwind steps rest
      | some none => ((unwind steps rest).1,.compensated idx :: (unwind steps rest).2)
      | some (some err) =>
        (⟨stepName step idx,idx,err⟩ :: (unwind steps rest).1,.compensated idx :: (unwind steps rest).2)

def compensate (steps : List Step) (completed : List Nat) : List CompensationError × List Event :=
  unwind steps completed.reverse

def abort (steps : List Step) (completed : List Nat) (i : Nat) (step : Step) (err : String) (trace : List Event) :
    Option ExecutionError × List Event :=
  (some ⟨stepName step i,i,err,(compensate steps completed).1⟩,trace ++ (compensate steps completed).2)

def executeFrom (steps : List Step) (ctxErr : Nat → Option String) :
    List Step → Nat → List Nat → List Event → Option ExecutionError × List Event
  | [],_,_,trace => (none,trace)
  | step :: rest,i,completed,trace =>
    match step.act with
    | none => abort steps completed i step ("saga: step " ++ (stepName step i).quote ++ " has nil action") trace
    | some result =>
      match ctxErr i with
      | some cerr => abort steps completed i step cerr trace
      | none =>
        match result with
        | some err => abort steps completed i step err (trace ++ [.did i])
        | none => executeFrom steps ctxErr rest (i + 1) (completed ++ [i]) (trace ++ [.did i])

def execute (steps : List Step) (ctxErr : Nat → Option String) : Option ExecutionError × List Event :=
  executeFrom steps ctxErr steps 0 [] []
abbrev Save (σ : Type) := Nat → State → σ → Option String × σ

structure Outcome (σ : Type) where
  err : Option Failure
  trace : List Event
  store : σ

def settle (steps : List Step) (failed : List CompensationError) (records : List StepRecord) (cidx : Nat) :
    List StepRecord :=
  match steps[cidx]?.bind Step.compensate with
  | none => records
  | some _ =>
    match failed.find? fun c => c.index = cidx with
    | some c => records.modify cidx fun r => { r with error := c.err }
    | none => records.modify cidx fun r => { r with status := .compensated }

section
variable {σ : Type}

def persistFailure (save : Save σ) (steps : List Step) (completed : List Nat) (i : Nat) (step : Step)
    (cause : String) (state : State) (trace : List Event) (s : σ) : Outcome σ :=
  let failing : State :=
    { state with
      steps := state.steps.modify i fun r => { r with status := .failed,error := cause }
      status := .compensating }
  let s := (save (i + 1) failing s).2
  let comps := compensate steps completed
  let unwound : State :=
    { failing with
      steps := completed.reverse.foldl (settle steps comps.1) failing.steps
      status := .compensated }
  let s := (save (i + 2) unwound s).2
  ⟨some (.execution ⟨stepName step i,i,cause,comps.1⟩),trace ++ comps.2,s⟩

def forward (save : Save σ) (steps : List Step) (ctxErr : Nat → Option String) :
    List Step → Nat → List Nat → State → List Event → σ → Outcome σ
  | [],i,_,state,trace,s =>
    match save (i + 1) { state with status := .completed } s with
    | (err,s) => ⟨err.map Failure.save,trace,s⟩
  | step :: rest,i,completed,state,trace,s =>
    match step.act with
    | none =>
      persistFailure save steps completed i step ("saga: step " ++ stepName step i ++ " has nil action") state trace s
    | some result =>
      match ctxErr i with
      | some cerr => persistFailure save steps completed i step cerr state trace s
      | none =>
        match result with
        | some err => persistFailure save steps completed i step err state (trace ++ [.did i]) s
        | none =>
          let state := { state with steps := state.steps.modify i fun r => { r with status := .completed } }
          match save (i + 1) state s with
          | (some err,s) => ⟨some (.save err),trace ++ [.did i],s⟩
          | (none,s) => forward save steps ctxErr rest (i + 1) (completed ++ [i]) state (trace ++ [.did i]) s

def initial (steps : List Step) (id : String) : State :=
  ⟨id,.running,steps.mapIdx fun i step => ⟨stepName step i,i,.pending,""⟩⟩

def executePersist (store : Option (Save σ)) (steps : List Step) (ctxErr : Nat → Option String) (id : String) (s : σ) :
    Outcome σ :=
  match store with
  | none => ⟨(execute steps ctxErr).1.map Failure.execution,(execute steps ctxErr).2,s⟩
  | some save =>
    match save 0 (initial steps id) s with
    | (some err,s) => ⟨some (.save err),[],s⟩
    | (none,s) => forward save steps ctxErr steps 0 [] (initial steps id) [] s
end

def undone (trace : List Event) : List Nat :=
  trace.filterMap fun e => match e with
    | .compensated i => some i
    | .did _ => none

def finished (steps : List Step) (trace : List Event) : List Nat :=
  trace.filterMap fun e => match e with
    | .did i => if steps[i]?.bind Step.act = some none then some i else none
    | .compensated _ => none

def undoable (steps : List Step) (i : Nat) : Bool := (steps[i]?.bind Step.compensate).isSome

structure Exact (steps : List Step) (failed : Bool) (trace : List Event) : Prop where
  unwound : failed = true → undone trace = ((finished steps trace).filter (undoable steps)).reverse
  kept : failed = false → undone trace = []

def scripted (saves : Nat → Option String) : Save (List (Option String)) :=
  fun n _ log => (saves n,log ++ [saves n])

def Fine (steps : List Step) (ctxErr : Nat → Option String) (i : Nat) : Prop :=
  steps[i]?.bind Step.act = some none ∧ ctxErr i = none

structure FailsSaving (steps : List Step) (ctxErr saves : Nat → Option String) (m : Nat) : Prop where
  after : 0 < m ∧ m ≤ steps.length + 1
  fails : saves m ≠ none
  first : ∀ j < m, saves j = none
  done : ∀ j < m, j < steps.length → Fine steps ctxErr j

def Abandons (steps : List Step) (ctxErr saves : Nat → Option String) : Prop :=
  ∃ m, FailsSaving steps ctxErr saves m ∧ ∃ j < m, undoable steps j = true

section
variable {steps : List Step} {i : Nat}

def dids (i : Nat) : List Event := (range i).map Event.did

theorem didsSucc (i) : dids i ++ [.did i] = dids (i + 1) := by simp [dids,range_succ]

theorem undoneAppend (left right) : undone (left ++ right) = undone left ++ undone right := List.filterMap_append ..

theorem finishedAppend (steps left right) :
    finished steps (left ++ right) = finished steps left ++ finished steps right :=
  List.filterMap_append ..

theorem undoneDids (i) : undone (dids i) = [] := by simp [undone,dids]

theorem finishedDids (done : ∀ j < i, steps[j]?.bind Step.act = some none) : finished steps (dids i) = range i := by
  induction i with
  | zero => rfl
  | succ i ih =>
    rw [← didsSucc,finishedAppend,ih fun j old => done j (Nat.lt_succ_of_lt old),range_succ]
    simp [finished,done i (Nat.lt_succ_self i)]

theorem unwindTrace (steps idxs) : (unwind steps idxs).2 = (idxs.filter (undoable steps)).map Event.compensated := by
  induction idxs with
  | nil => rfl
  | cons idx _ ih =>
    simp only [unwind]
    cases here : steps[idx]? with
    | none => simp [ih,undoable,here]
    | some step =>
      cases answer : step.compensate with
      | none => simp [answer,ih,undoable,here]
      | some result => cases result <;> simp [answer,ih,undoable,here]

theorem compensatedTrace (steps idxs) :
    undone (idxs.map Event.compensated) = idxs ∧ finished steps (idxs.map Event.compensated) = [] := by
  constructor
  · simp [undone]
  simp [finished]

theorem exactAborted (done : ∀ j < i, steps[j]?.bind Step.act = some none) (tail)
    (quiet : undone tail = [] ∧ finished steps tail = []) :
    Exact steps true (dids i ++ tail ++ (compensate steps (range i)).2) := by
  refine ⟨fun _ => ?_,fun no => by cases no⟩
  rw [compensate,unwindTrace]
  obtain ⟨undoes,finishes⟩ := compensatedTrace steps ((range i).reverse.filter (undoable steps))
  rw [undoneAppend,undoneAppend,finishedAppend,finishedAppend,undoneDids,finishedDids done,quiet.1,quiet.2,
    undoes,finishes]
  simp only [List.append_nil,List.nil_append,List.filter_reverse]

theorem exactDids (done : ∀ j < i, steps[j]?.bind Step.act = some none) :
    Exact steps true (dids i) ↔ ∀ j < i, undoable steps j = false := by
  have empty : Exact steps true (dids i) ↔ (range i).filter (undoable steps) = [] := by
    constructor
    · intro exact
      have unwound := exact.unwound rfl
      rw [undoneDids,finishedDids done] at unwound
      exact List.reverse_eq_nil_iff.mp unwound.symm
    intro none
    refine ⟨fun _ => ?_,fun no => by cases no⟩
    rw [undoneDids,finishedDids done,none]
    rfl
  rw [empty]
  simp

theorem dropCons (left : steps.drop i = step :: rest) : steps[i]? = some step ∧ steps.drop (i + 1) = rest := by
  have first := congrArg List.head? left
  have tail := congrArg List.tail left
  exact ⟨by simpa using first,by simpa using tail⟩

theorem doneAll (left : steps.drop i = []) (done : ∀ j < i, steps[j]?.bind Step.act = some none) : i = steps.length := by
  rcases Nat.lt_or_eq_of_le (List.drop_eq_nil_iff.mp left) with less | same
  · have last := done steps.length less
    simp at last
  exact same.symm

theorem stoppedKeeps (saved : ∀ j ≤ i, saves j = none) (mem : i < steps.length)
    (bad : ¬ Fine steps ctxErr i) : ¬ Abandons steps ctxErr saves := by
  rintro ⟨m,fails,_⟩
  by_cases old : m ≤ i
  · exact fails.fails (saved m old)
  exact bad (fails.done i (Nat.lt_of_not_le old) mem)

theorem failedSave (fails : FailsSaving steps ctxErr saves m)
    (done : ∀ j < i, steps[j]?.bind Step.act = some none) (within : i ≤ m)
    (covers : ∀ j < m, undoable steps j = true → j < i) :
    Exact steps true (dids i) ↔ ¬ Abandons steps ctxErr saves := by
  rw [exactDids done]
  constructor
  · rintro unable ⟨n,other,j,old,can⟩
    have same : n = m := by
      rcases Nat.lt_trichotomy n m with less | same | more
      · exact absurd (fails.first n less) other.fails
      · exact same
      exact absurd (other.first m more) fails.fails
    subst same
    rw [unable j (covers j old can)] at can
    cases can
  intro kept j old
  by_contra can
  exact kept ⟨m,fails,j,Nat.lt_of_lt_of_le old within,by simpa using can⟩

theorem persistFailureExact (saves : Nat → Option String) (done : ∀ j < i, steps[j]?.bind Step.act = some none) (tail)
    (quiet : undone tail = [] ∧ finished steps tail = []) (step : Step) (cause : String) (state : State)
    (log : List (Option String)) :
    let out := persistFailure (scripted saves) steps (range i) i step cause state (dids i ++ tail) log
    Exact steps out.err.isSome out.trace :=
  exactAborted done tail quiet

theorem forwardExact (ctxErr rest) (state : State) (log : List (Option String)) (left : steps.drop i = rest)
    (saved : ∀ j ≤ i, saves j = none) (fine : ∀ j < i, Fine steps ctxErr j) :
    let out := forward (scripted saves) steps ctxErr rest i (range i) state (dids i) log
    Exact steps out.err.isSome out.trace ↔ ¬ Abandons steps ctxErr saves := by
  induction rest generalizing i state log with
  | nil =>
    have done : ∀ j < i, steps[j]?.bind Step.act = some none := fun j old => (fine j old).1
    have all := doneAll left done
    simp only [forward,scripted]
    cases answer : saves (i + 1) with
    | none =>
      simp only [Option.map_none,Option.isSome_none]
      refine iff_of_true ⟨nofun,fun _ => undoneDids i⟩ ?_
      rintro ⟨m,fails,_⟩
      have last := fails.after.2
      rcases Nat.lt_or_eq_of_le last with less | same
      · exact fails.fails (saved m (by omega))
      exact fails.fails (by rw [same,← all]; exact answer)
    | some =>
      simp only [map_some,Option.isSome_some]
      refine failedSave (m := i + 1) ⟨⟨Nat.succ_pos i,by omega⟩,by simp [answer],fun j old => ?_,?_⟩ done
        (Nat.le_succ i) ?_
      · exact saved j (Nat.le_of_lt_succ old)
      · exact fun j _ mem => fine j (all ▸ mem)
      intro j old can
      by_contra beyond
      have outside : steps[j]? = none := List.getElem?_eq_none (by omega)
      simp [undoable,outside] at can
  | cons step _ ih =>
    have done : ∀ j < i, steps[j]?.bind Step.act = some none := fun j old => (fine j old).1
    obtain ⟨here,next⟩ := dropCons left
    have mem : i < steps.length := (List.getElem_of_getElem? here).1
    simp only [forward]
    cases acts : step.act with
    | none =>
      have bad : ¬ Fine steps ctxErr i := by
        rintro ⟨ok,_⟩
        simp [here,acts] at ok
      refine iff_of_true ?_ (stoppedKeeps saved mem bad)
      simpa using persistFailureExact saves done [] ⟨rfl,rfl⟩ step _ state log
    | some result =>
      cases cancelled : ctxErr i with
      | some cerr =>
        have bad : ¬ Fine steps ctxErr i := by
          rintro ⟨_,live⟩
          simp [cancelled] at live
        refine iff_of_true ?_ (stoppedKeeps saved mem bad)
        simpa using persistFailureExact saves done [] ⟨rfl,rfl⟩ step cerr state log
      | none =>
        cases result with
        | some err =>
          have bad : ¬ Fine steps ctxErr i := by
            rintro ⟨ok,_⟩
            simp [here,acts] at ok
          refine iff_of_true ?_ (stoppedKeeps saved mem bad)
          exact persistFailureExact saves done [.did i] ⟨rfl,by simp [finished,here,acts]⟩ step err state log
        | none =>
          have isFine : Fine steps ctxErr i := ⟨by simp [here,acts],cancelled⟩
          have fineNow : ∀ j < i + 1, Fine steps ctxErr j := Nat.forall_lt_succ_right.mpr ⟨fine,isFine⟩
          rw [didsSucc,← range_succ]
          simp only [scripted]
          cases answer : saves (i + 1) with
          | none =>
            refine ih _ _ next ?_ fineNow
            intro j upTo
            rcases Nat.lt_or_eq_of_le upTo with less | rfl
            · exact saved j (Nat.le_of_lt_succ less)
            exact answer
          | some =>
            refine failedSave (m := i + 1) ⟨⟨Nat.succ_pos i,by omega⟩,by simp [answer],fun j old => ?_,?_⟩
              (fun j old => (fineNow j old).1) (Nat.le_refl _) (fun j old _ => old)
            · exact saved j (Nat.le_of_lt_succ old)
            exact fun j old _ => fineNow j old

variable (saves : Nat → Option String) (steps : List Step) (ctxErr : Nat → Option String)

theorem forwardLogged (rest i done state trace log) :
    ∃ ns : List Nat, (forward (scripted saves) steps ctxErr rest i done state trace log).store = log ++ ns.map saves := by
  induction rest generalizing i done state trace log with
  | nil => exact ⟨[i + 1],rfl⟩
  | cons step _ ih =>
    have failure : ∀ cause seen, ∃ ns : List Nat,
        (persistFailure (scripted saves) steps done i step cause state seen log).store = log ++ ns.map saves :=
      fun _ _ => ⟨[i + 1,i + 2],by simp [persistFailure,scripted]⟩
    simp only [forward]
    cases step.act with
    | none => exact failure _ _
    | some result =>
      cases ctxErr i with
      | some => exact failure _ _
      | none =>
        cases result with
        | some => exact failure _ _
        | none =>
          simp only [scripted]
          cases answer : saves (i + 1) with
          | some => exact ⟨[i + 1],by simp [answer]⟩
          | none =>
            obtain ⟨ns,logged⟩ := ih (i + 1) (done ++ [i]) _ (trace ++ [.did i]) (log ++ [none])
            exact ⟨(i + 1) :: ns,by simpa [answer] using logged⟩

theorem forwardSame (rest : List Step) (i : Nat) (done : List Nat) (state : State) (trace : List Event)
    (log : List (Option String)) :
    let out := forward (scripted saves) steps ctxErr rest i done state trace log
    (∀ r ∈ out.store, r = none) → out.trace = (executeFrom steps ctxErr rest i done trace).2 ∧
        out.err.isSome = (executeFrom steps ctxErr rest i done trace).1.isSome := by
  induction rest generalizing i done state trace log with
  | nil =>
    intro out clean
    have last : saves (i + 1) = none := clean _ (by simp [out,forward,scripted])
    exact ⟨rfl,by simp [out,forward,scripted,executeFrom,last]⟩
  | cons step _ ih =>
    simp only [forward,executeFrom]
    cases step.act with
    | none => exact fun _ => ⟨rfl,rfl⟩
    | some result =>
      cases ctxErr i with
      | some => exact fun _ => ⟨rfl,rfl⟩
      | none =>
        cases result with
        | some => exact fun _ => ⟨rfl,rfl⟩
        | none =>
          simp only [scripted]
          cases answer : saves (i + 1) with
          | some err =>
            intro clean
            have wrong := clean (some err) (by simp)
            cases wrong
          | none => exact ih (i + 1) (done ++ [i]) _ (trace ++ [.did i]) (log ++ [none])

theorem executeExact : Exact steps (execute steps ctxErr).1.isSome (execute steps ctxErr).2 := by
  have kept : ¬ Abandons steps ctxErr fun _ => none := fun ⟨_,fails,_⟩ => fails.fails rfl
  have exact := (forwardExact (i := 0) ctxErr steps (initial steps "") [] List.drop_zero
    (fun _ _ => rfl) (fun _ old => absurd old (Nat.not_lt_zero _))).mpr kept
  obtain ⟨ns,logged⟩ := forwardLogged (fun _ => none) steps ctxErr steps 0 [] (initial steps "") [] []
  obtain ⟨trace,err⟩ := forwardSame (fun _ => none) steps ctxErr steps 0 [] (initial steps "") [] [] (by simp [logged])
  rw [execute,← trace,← err]
  exact exact
end

structure Compensates (store : Option (Nat → Option String)) (steps : List Step) (ctxErr : Nat → Option String)
    (id : String) : Prop where
  exact : let out := executePersist (store.map scripted) steps ctxErr id []
    Exact steps out.err.isSome out.trace
  same : let out := executePersist (store.map scripted) steps ctxErr id []
    (∀ r ∈ out.store, r = none) → out.trace = (execute steps ctxErr).2

theorem compensatesPersisted (store : Option (Nat → Option String)) (steps : List Step)
    (ctxErr : Nat → Option String) (id : String) :
    Compensates store steps ctxErr id ↔ ∀ saves, store = some saves → ¬ Abandons steps ctxErr saves := by
  cases store with
  | none =>
    refine iff_of_true ⟨?_,fun _ => rfl⟩ nofun
    simpa [executePersist] using executeExact steps ctxErr
  | some saves =>
    have only : (∀ s, some saves = some s → ¬ Abandons steps ctxErr s) ↔ ¬ Abandons steps ctxErr saves := by simp
    rw [only]
    cases answer : saves 0 with
    | some err =>
      have out : executePersist (some (scripted saves)) steps ctxErr id [] = ⟨some (.save err),[],[some err]⟩ := by
        simp [executePersist,scripted,answer]
      refine iff_of_true ⟨?_,?_⟩ ?_
      · rw [map_some,out]
        exact ⟨fun _ => rfl,fun _ => rfl⟩
      · rw [map_some,out]
        intro _ clean
        have wrong := clean (some err) (List.mem_singleton_self _)
        cases wrong
      rintro ⟨m,fails,_⟩
      have first := fails.first 0 fails.after.1
      rw [answer] at first
      cases first
    | none =>
      have out : executePersist (some (scripted saves)) steps ctxErr id [] =
          forward (scripted saves) steps ctxErr steps 0 [] (initial steps id) [] [none] := by
        simp [executePersist,scripted,answer]
      have saved : ∀ j ≤ 0, saves j = none := fun j zero => by rw [Nat.le_zero.mp zero]; exact answer
      have exact := forwardExact ctxErr steps (initial steps id) [none] List.drop_zero saved
        (fun _ before => absurd before (Nat.not_lt_zero _))
      refine ⟨fun h => exact.mp (out ▸ h.exact),fun kept => ⟨?_,?_⟩⟩
      · rw [map_some,out]
        exact exact.mpr kept
      rw [map_some,out]
      exact fun clean => (forwardSame saves steps ctxErr steps 0 [] (initial steps id) [] [none] clean).1

theorem failedSaveKeepsReservation :
    ¬ Compensates (some fun n => if n = 1 then some "disk full" else none) [⟨"reserve",some none,some none⟩]
      (fun _ => none) "order" :=
  fun compensates => absurd (compensates.exact.unwound rfl) (by decide)

end Gofly.Saga
