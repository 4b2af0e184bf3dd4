import Gofly.Saga

/-! What the memory store holds when ExecutePersist returns. Save refuses a context that is
done. -/
namespace Gofly.SagaRecord
open Saga
open Function (comp_def update update_self)

abbrev States := String → Option State

def save (ctxErr : Option String) (state : State) (states : States) : Option String × States :=
  match ctxErr with
  | some err => (some err,states)
  | none =>
    if state.id = "" then (some "saga: state ID required",states)
    else (none,update states state.id (some state))

abbrev Cancel := Option (Nat × String)
def ctxErr (cancel : Cancel) (time : Nat) : Option String :=
  (cancel.filter fun c => c.1 ≤ time).map Prod.snd

def memory (cancel : Cancel) : Save States := fun n state states => save (ctxErr cancel (2 * n)) state states
def check (cancel : Cancel) (i : Nat) : Option String := ctxErr cancel (2 * i + 1)

def stoppedAt : Option Failure → Option Nat
  | some (.execution e) => some e.index
  | _ => none

def happened (steps : List Step) (err : Option Failure) (trace : List Event) (j : Nat) : StepStatus :=
  if j ∈ finished steps trace then
    if j ∈ undone trace ∧ steps[j]?.bind Step.compensate = some none then .compensated else .completed
  else if .did j ∈ trace ∨ steps[j]?.map Step.act = some none ∧ stoppedAt err = some j then .failed
  else .pending

def statusAt (state : State) (j : Nat) : Option StepStatus := state.steps[j]?.map StepRecord.status

def Agrees (steps : List Step) (id : String) (out : Outcome States) : Prop :=
  ∃ state, out.store id = some state ∧ (state.status = .completed ↔ out.err = none) ∧
    (out.err ≠ none → state.status = .compensated ∧
      ∀ j, statusAt state j = steps[j]?.map fun _ => happened steps out.err out.trace j)

def lastSave (steps : List Step) : Nat :=
  match steps.findIdx? fun step => step.act ≠ some none with
  | some k => k + 2
  | none => steps.length + 1

def Settles (cancel : Cancel) (steps : List Step) (id : String) (prior : States) : Prop :=
  id ≠ "" ∧ ctxErr cancel (2 * lastSave steps) = none ∨
  (id = "" ∨ ctxErr cancel 0 ≠ none) ∧ ∃ state, prior id = some state ∧ state.status = .compensated ∧
    ∀ j, statusAt state j = steps[j]?.map fun _ => .pending

section
variable {steps : List Step} {id : String} {i : Nat}

theorem ctxErrLater (old : t ≤ u) (live : ctxErr cancel u = none) : ctxErr cancel t = none := by
  cases cancel with
  | none => rfl
  | some =>
    simp only [ctxErr,Option.map_eq_none_iff,Option.filter_eq_none_iff,decide_eq_true_eq] at *
    intro d eq
    have := live d eq
    omega

theorem savedLive (status recs states) (isNamed : id ≠ "") (live : ctxErr cancel (2 * n) = none) :
    memory cancel n ⟨id,status,recs⟩ states = (none,update states id (some ⟨id,status,recs⟩)) := by
  simp [memory,save,live,isNamed]

theorem savedLate (states) (done : ctxErr cancel (2 * n) = some err) :
    memory cancel n state states = (some err,states) := by
  simp [memory,save,done]

def failure (steps : List Step) (idx : Nat) : Option CompensationError :=
  steps[idx]?.bind fun step => step.compensate.join.map fun err => ⟨stepName step idx,idx,err⟩

theorem failureIndex (got : failure steps idx = some c) : c.index = idx := by
  simp only [failure,Option.bind_eq_some_iff,Option.map_eq_some_iff] at got
  obtain ⟨_,_,_,_,rfl⟩ := got
  rfl

theorem unwindFailures (steps idxs) : (unwind steps idxs).1 = idxs.filterMap (failure steps) := by
  induction idxs with
  | nil => rfl
  | cons idx _ ih =>
    simp only [unwind]
    cases here : steps[idx]? with
    | none => simp [ih,failure,here]
    | some step =>
      cases answer : step.compensate with
      | none => simp [answer,ih,failure,here]
      | some result => cases result <;> simp [answer,ih,failure,here]

theorem unwindSpares (spares : steps[j]?.bind Step.compensate = some none) :
    ((unwind steps idxs).1.find? fun c => c.index = j) = none := by
  rw [unwindFailures,List.find?_eq_none]
  intro c mem
  obtain ⟨idx,_,got⟩ := List.mem_filterMap.mp mem
  have index := failureIndex got
  intro eq
  have here : idx = j := by rw [← index]; exact of_decide_eq_true eq
  subst here
  cases step : steps[idx]? with
  | none => simp [step] at spares
  | some =>
    simp only [step,Option.bind_some] at spares
    simp [failure,step,spares] at got

theorem unwindCatches (mem : j ∈ idxs) (fails : steps[j]?.bind Step.compensate = some (some err)) :
    ((unwind steps idxs).1.find? fun c => c.index = j) ≠ none := by
  obtain ⟨step,here,answer⟩ := Option.bind_eq_some_iff.mp fails
  rw [unwindFailures]
  intro none
  have all := List.find?_eq_none.mp none ⟨stepName step j,j,err⟩
    (List.mem_filterMap.mpr ⟨j,mem,by simp [failure,here,answer]⟩)
  simp at all

theorem settleStatus (steps failed recs cidx j) : ((settle steps failed recs cidx)[j]?).map StepRecord.status =
      if cidx = j ∧ undoable steps j = true ∧ (failed.find? fun c => c.index = j) = none then
        recs[j]?.map fun _ => .compensated else recs[j]?.map StepRecord.status := by
  simp only [settle,undoable]
  by_cases here : cidx = j
  · subst here
    rcases Option.eq_none_or_eq_some (steps[cidx]?.bind Step.compensate) with answer | ⟨result,answer⟩
    · simp [answer]
    rcases Option.eq_none_or_eq_some (failed.find? fun c => c.index = cidx) with got | ⟨c,got⟩
    · simp [answer,got,comp_def]
    simp [answer,got,comp_def]
  simp only [here]
  split
  · rfl
  split <;> simp [here]

theorem settledStatus (steps failed) (idxs : List Nat) (recs j) :
    ((idxs.foldl (settle steps failed) recs)[j]?).map StepRecord.status =
      if j ∈ idxs ∧ undoable steps j = true ∧ (failed.find? fun c => c.index = j) = none then
        recs[j]?.map fun _ => .compensated else recs[j]?.map StepRecord.status := by
  induction idxs generalizing recs with
  | nil => simp
  | cons idx _ ih =>
    have exists_ : ((settle steps failed recs idx)[j]?).map (fun _ => StepStatus.compensated) =
        recs[j]?.map fun _ => .compensated := by
      have both := settleStatus steps failed recs idx j
      have kept := congrArg (Option.map fun _ : StepStatus => StepStatus.compensated) both
      rw [apply_ite (Option.map _)] at kept
      simpa [comp_def] using kept
    rw [List.foldl_cons,ih,exists_,settleStatus]
    by_cases marks : undoable steps j = true ∧ (failed.find? fun c => c.index = j) = none
    · by_cases here : idx = j
      · simp [here,marks]
      · simp [here,Ne.symm here]
    simp only [marks,and_false,if_false]

theorem lastSaveBeyond (done : ∀ j < i, steps[j]?.bind Step.act = some none) (within : i ≤ steps.length) :
    i + 1 ≤ lastSave steps := by
  rw [lastSave]
  cases first : steps.findIdx? fun step => step.act ≠ some none with
  | none => simpa using within
  | some k =>
    obtain ⟨mem,bad,_⟩ := List.findIdx?_eq_some_iff_getElem.mp first
    show i + 1 ≤ k + 2
    by_contra old
    have acts := done k (by omega)
    rw [List.getElem?_eq_getElem mem,Option.bind_some] at acts
    simp [acts] at bad

theorem lastSaveStopped (done : ∀ j < i, steps[j]?.bind Step.act = some none)
    (here : steps[i]? = some step) (bad : step.act ≠ some none) : lastSave steps = i + 2 := by
  obtain ⟨mem,rfl⟩ := List.getElem?_eq_some_iff.mp here
  have first : (steps.findIdx? fun step => step.act ≠ some none) = some i := by
    refine List.findIdx?_eq_some_iff_getElem.mpr ⟨mem,by simpa using bad,fun j old => ?_⟩
    have acts := done j old
    rw [List.getElem?_eq_getElem (Nat.lt_trans old mem),Option.bind_some] at acts
    simp [acts]
  rw [lastSave,first]

theorem lastSaveAll (done : ∀ j < steps.length, steps[j]?.bind Step.act = some none) :
    lastSave steps = steps.length + 1 := by
  have never : (steps.findIdx? fun step => step.act ≠ some none) = none := by
    refine List.findIdx?_eq_none_iff.mpr fun step mem => ?_
    obtain ⟨j,inside,rfl⟩ := List.getElem_of_mem mem
    have acts := done j inside
    rw [List.getElem?_eq_getElem inside,Option.bind_some] at acts
    simp [acts]
  rw [lastSave,never]

structure Underway (steps : List Step) (id : String) (i : Nat) (state : State) (states : States) : Prop where
  named : state.id = id
  running : state.status = .running
  stored : states id = some state
  statuses : ∀ j, statusAt state j = steps[j]?.map fun _ => if j < i then .completed else .pending

theorem unsettled (stored : out.store id = some state)
    (open_ : state.status = .running ∨ state.status = .compensating) (failed : out.err ≠ none) : ¬ Agrees steps id out := by
  rintro ⟨other,got,_,agrees⟩
  cases Option.mem_unique stored got
  have status := (agrees failed).1
  rcases open_ with now | now <;> rw [now] at status <;> cases status

theorem happenedAborted (done : ∀ j < i, steps[j]?.bind Step.act = some none)
    (quiet : undone tail = [] ∧ finished steps tail = []) (only : ∀ j, .did j ∈ tail → j = i)
    (stopped : .did i ∈ tail ∨ steps[i]?.map Step.act = some none) (name cause comps j) :
    happened steps (some (.execution ⟨name,i,cause,comps⟩)) (dids i ++ tail ++ (compensate steps (List.range i)).2) j =
      if j < i then if steps[j]?.bind Step.compensate = some none then .compensated else .completed
      else if j = i then .failed else .pending := by
  rw [compensate,unwindTrace]
  obtain ⟨undoes,finishes⟩ := compensatedTrace steps ((List.range i).reverse.filter (undoable steps))
  have finishedAre : finished steps (dids i ++ tail ++ ((List.range i).reverse.filter (undoable steps)).map Event.compensated) =
      List.range i := by
    rw [finishedAppend,finishedAppend,finishedDids done,quiet.2,finishes]
    simp
  have undoneAre : undone (dids i ++ tail ++ ((List.range i).reverse.filter (undoable steps)).map Event.compensated) =
      (List.range i).reverse.filter (undoable steps) := by
    rw [undoneAppend,undoneAppend,undoneDids,quiet.1,undoes]
    simp
  rw [happened,finishedAre,undoneAre]
  by_cases old : j < i
  · simp only [List.mem_range,old,List.mem_filter,List.mem_reverse]
    by_cases answer : steps[j]?.bind Step.compensate = some none
    · simp [undoable,answer]
    simp [answer]
  by_cases here : j = i
  · subst here
    rcases stopped with ran | empty
    · simp [ran]
    simp [empty,stoppedAt]
  have notRun : .did j ∉ tail := fun ran => here (only j ran)
  simp [notRun,here,old,dids,stoppedAt,Ne.symm here]

theorem settleable (mem : j ∈ idxs) :
    undoable steps j = true ∧ ((unwind steps idxs).1.find? fun c => c.index = j) = none ↔
      steps[j]?.bind Step.compensate = some none := by
  constructor
  · rintro ⟨can,spared⟩
    obtain ⟨result,answer⟩ := Option.isSome_iff_exists.mp can
    cases result with
    | none => exact answer
    | some => exact absurd spared (unwindCatches mem answer)
  exact fun answer => ⟨by simp [undoable,answer],unwindSpares answer⟩

theorem remarked {recs : List StepRecord} {j : Nat}
    (status : recs[j]?.map StepRecord.status = steps[j]?.map fun _ => old) (mark : StepStatus) :
    (recs[j]?.map fun _ => mark) = steps[j]?.map fun _ => mark := by
  have both := congrArg (Option.map fun _ : StepStatus => mark) status
  simpa [comp_def] using both

theorem completedStatus {recs : List StepRecord}
    (statuses : ∀ j, recs[j]?.map StepRecord.status = steps[j]?.map fun _ => if j < i then .completed else .pending) (j) :
    ((recs.modify i fun r => { r with status := .completed })[j]?).map StepRecord.status =
      steps[j]?.map fun _ => if j < i + 1 then .completed else .pending := by
  by_cases here : j = i
  · subst here
    simpa [comp_def] using remarked (statuses j) .completed
  have eq : j < i + 1 ↔ j < i := by omega
  simpa only [List.getElem?_modify_ne _ _ (Ne.symm here),eq] using statuses j

theorem unwoundStatus {recs : List StepRecord} (cause)
    (statuses : ∀ j, recs[j]?.map StepRecord.status = steps[j]?.map fun _ => if j < i then .completed else .pending) (j) :
    (((List.range i).reverse.foldl (settle steps (compensate steps (List.range i)).1)
      (recs.modify i fun r => { r with status := .failed,error := cause }))[j]?).map StepRecord.status =
      steps[j]?.map fun _ =>
        if j < i then if steps[j]?.bind Step.compensate = some none then .compensated else .completed
        else if j = i then .failed else .pending := by
  rw [settledStatus]
  by_cases old : j < i
  · have other : i ≠ j := by omega
    have mem : j ∈ (List.range i).reverse := by simpa using old
    have record := statuses j
    simp only [old,if_true] at record
    simp only [mem,true_and,old,if_true,List.getElem?_modify_ne _ _ other,compensate,settleable mem]
    by_cases answer : steps[j]?.bind Step.compensate = some none
    · simpa only [answer,if_true] using remarked (statuses j) _
    simpa only [answer,if_false] using record
  have outside : j ∉ (List.range i).reverse := by simpa using old
  simp only [outside,false_and,old]
  by_cases here : j = i
  · subst here
    simpa [comp_def] using remarked (statuses j) .failed
  have record := statuses j
  simp only [old] at record
  simpa only [here,if_false,List.getElem?_modify_ne _ _ (Ne.symm here)] using record

theorem persistFailureAgrees (isNamed : id ≠ "") (live : ctxErr cancel (2 * (i + 2)) = none)
    (done : ∀ j < i, steps[j]?.bind Step.act = some none)
    (quiet : undone tail = [] ∧ finished steps tail = []) (only : ∀ j, .did j ∈ tail → j = i)
    (stopped : .did i ∈ tail ∨ steps[i]?.map Step.act = some none)
    (underway : Underway steps id i state states) (step cause) :
    Agrees steps id (persistFailure (memory cancel) steps (List.range i) i step cause state (dids i ++ tail) states) := by
  obtain ⟨name,status,recs⟩ := state
  obtain ⟨rfl,rfl,stored,statuses⟩ := underway
  simp only [persistFailure]
  rw [savedLive _ _ _ isNamed live]
  refine ⟨_,update_self ..,by simp,fun _ => ⟨rfl,fun j => ?_⟩⟩
  rw [happenedAborted done quiet only stopped]
  exact unwoundStatus cause statuses j

theorem persistFailureStuck (late : ctxErr cancel (2 * (i + 2)) = some err) (isNamed : id ≠ "") (underway : Underway steps id i state states) (step cause trace) :
    ¬ Agrees steps id (persistFailure (memory cancel) steps (List.range i) i step cause state trace states) := by
  obtain ⟨name,status,recs⟩ := state
  obtain ⟨rfl,rfl,stored,statuses⟩ := underway
  simp only [persistFailure]
  rw [savedLate _ late]
  cases now : ctxErr cancel (2 * (i + 1)) with
  | none =>
    rw [savedLive _ _ states isNamed now]
    exact unsettled (update_self ..) (.inr rfl) (by simp)
  | some =>
    rw [savedLate _ now]
    exact unsettled stored (.inl rfl) (by simp)

theorem forwardAgrees (cancel) (isNamed : id ≠ "") (rest state states)
    (left : steps.drop i = rest) (done : ∀ j < i, steps[j]?.bind Step.act = some none)
    (underway : Underway steps id i state states) :
    Agrees steps id (forward (memory cancel) steps (check cancel) rest i (List.range i) state (dids i) states) ↔
      ctxErr cancel (2 * lastSave steps) = none := by
  induction rest generalizing i state states with
  | nil =>
    have all := doneAll left done
    have last : lastSave steps = i + 1 := by rw [lastSaveAll (all ▸ done),all]
    obtain ⟨name,status,recs⟩ := state
    obtain ⟨rfl,rfl,stored,statuses⟩ := underway
    simp only [forward,last]
    cases now : ctxErr cancel (2 * (i + 1)) with
    | none =>
      rw [savedLive _ _ states isNamed now]
      exact iff_of_true ⟨_,update_self ..,by simp,by simp⟩ rfl
    | some =>
      rw [savedLate _ now]
      exact iff_of_false (unsettled stored (.inl rfl) (by simp)) (by simp)
  | cons step _ ih =>
    obtain ⟨here,next⟩ := dropCons left
    have mem : i < steps.length := (List.getElem?_eq_some_iff.mp here).1
    have stops (bad : step.act ≠ some none) (tail : List Event) (quiet : undone tail = [] ∧ finished steps tail = [])
        (only : ∀ j, .did j ∈ tail → j = i) (stopped : .did i ∈ tail ∨ steps[i]?.map Step.act = some none) (cause : String) :
        Agrees steps id (persistFailure (memory cancel) steps (List.range i) i step cause state (dids i ++ tail) states) ↔
          ctxErr cancel (2 * lastSave steps) = none := by
      rw [lastSaveStopped done here bad]
      cases now : ctxErr cancel (2 * (i + 2)) with
      | none => exact iff_of_true (persistFailureAgrees isNamed now done quiet only stopped underway step cause) rfl
      | some => exact iff_of_false (persistFailureStuck now isNamed underway step cause _) (by simp)
    simp only [forward]
    cases acts : step.act with
    | none =>
      have stopped : steps[i]?.map Step.act = some none := by simp [here,acts]
      simpa using stops (by simp [acts]) [] ⟨rfl,rfl⟩ (by simp) (.inr stopped) _
    | some result =>
      cases cancelled : check cancel i with
      | some cerr =>
        -- the context is done for every later Save and the record stays Running
        have late (t : Nat) (later : 2 * i + 1 ≤ t) : ctxErr cancel t ≠ none := fun live => by
          simp [check,ctxErrLater later live] at cancelled
        have beyond := lastSaveBeyond done (Nat.le_of_lt mem)
        obtain ⟨err,now⟩ := Option.ne_none_iff_exists'.mp (late (2 * (i + 2)) (by omega))
        exact iff_of_false (persistFailureStuck now isNamed underway step cerr _) (late _ (by omega))
      | none =>
        cases result with
        | some err =>
          exact stops (by simp [acts]) [.did i] ⟨rfl,by simp [finished,here,acts]⟩ (by simp) (by simp) err
        | none =>
          have doneNow : ∀ j < i + 1, steps[j]?.bind Step.act = some none :=
            Nat.forall_lt_succ_right.mpr ⟨done,by simp [here,acts]⟩
          rw [didsSucc,← List.range_succ]
          cases now : ctxErr cancel (2 * (i + 1)) with
          | some =>
            rw [savedLate _ now]
            have beyond := lastSaveBeyond doneNow mem
            refine iff_of_false (unsettled underway.stored (.inl underway.running) (by simp)) fun live => ?_
            simp [ctxErrLater (show 2 * (i + 1) ≤ 2 * lastSave steps by omega) live] at now
          | none =>
            obtain ⟨name,status,recs⟩ := state
            obtain ⟨rfl,rfl,stored,statuses⟩ := underway
            rw [savedLive _ _ states isNamed now]
            exact ih _ _ next doneNow ⟨rfl,rfl,update_self ..,completedStatus statuses⟩

theorem refusedAgrees :
    Agrees steps id ⟨some (.save err),[],prior⟩ ↔ ∃ state, prior id = some state ∧ state.status = .compensated ∧
      ∀ j, statusAt state j = steps[j]?.map fun _ => .pending := by
  have untouched (j : Nat) : happened steps (some (.save err)) [] j = .pending := by
    simp [happened,finished,stoppedAt]
  simp only [Agrees,untouched]
  constructor
  · rintro ⟨state,got,_,agrees⟩
    exact ⟨state,got,agrees (by simp)⟩
  rintro ⟨state,got,status,records⟩
  exact ⟨state,got,by simp [status],fun _ => ⟨status,records⟩⟩
end

theorem recordAgrees (cancel : Cancel) (steps : List Step) (id : String) (prior : States) :
    Agrees steps id (executePersist (some (memory cancel)) steps (check cancel) id prior) ↔
      Settles cancel steps id prior := by
  cases now : ctxErr cancel 0 with
  | some err =>
    have late : ctxErr cancel (2 * lastSave steps) ≠ none := fun live => by
      simp [ctxErrLater (Nat.zero_le _) live] at now
    have out : executePersist (some (memory cancel)) steps (check cancel) id prior = ⟨some (.save err),[],prior⟩ := by
      simp [executePersist,memory,save,now]
    rw [out,refusedAgrees]
    simp [Settles,late,now]
  | none =>
    by_cases isNamed : id = ""
    · have out : executePersist (some (memory cancel)) steps (check cancel) id prior =
          ⟨some (.save "saga: state ID required"),[],prior⟩ := by
        simp [executePersist,memory,save,now,isNamed,initial]
      rw [out,refusedAgrees]
      simp [Settles,isNamed]
    have saved := savedLive (n := 0) .running (initial steps id).steps prior isNamed now
    have out : executePersist (some (memory cancel)) steps (check cancel) id prior =
        forward (memory cancel) steps (check cancel) steps 0 [] (initial steps id) []
          (update prior id (some (initial steps id))) := by
      simp only [executePersist]
      rw [show initial steps id = ⟨id,.running,(initial steps id).steps⟩ from rfl,saved]
    have underway : Underway steps id 0 (initial steps id) (update prior id (some (initial steps id))) := by
      refine ⟨rfl,rfl,update_self ..,fun j => ?_⟩
      simp [statusAt,initial,comp_def]
    rw [out]
    have agrees := forwardAgrees cancel isNamed steps _ _ List.drop_zero
      (fun _ before => absurd before (Nat.not_lt_zero _)) underway
    refine agrees.trans ?_
    simp [Settles,isNamed,now]

theorem cancelledRecordStaysRunning : ¬ Agrees [⟨"reserve",some none,some none⟩,⟨"charge",some none,none⟩] "order"
      (executePersist (some (memory (some (3,"context canceled"))))
        [⟨"reserve",some none,some none⟩,⟨"charge",some none,none⟩] (check (some (3,"context canceled"))) "order"
        fun _ => none) := by
  have stored : (executePersist (some (memory (some (3,"context canceled"))))
      [⟨"reserve",some none,some none⟩,⟨"charge",some none,none⟩] (check (some (3,"context canceled"))) "order"
      fun _ => none).store "order" =
      some ⟨"order",.running,[⟨"reserve",0,.completed,""⟩,⟨"charge",1,.pending,""⟩]⟩ := by decide
  exact unsettled stored (.inl rfl) (by decide)

end Gofly.SagaRecord
