import Gofly.MuxSteps

/-! Which tasks a step spawns. A step takes at most the task it runs and adds new ones at the end,
which depend on the task or the call they come from. -/
namespace Gofly.MuxTasks
open MuxFrame MuxMessage MuxState MuxTransport MuxSteps

def sending : Task → Option Sending
  | .credit send => some send
  | .connCredit send => some send
  | .writeData send => some send
  | _ => none

def failing : Task → Bool
  | .failMark _ _ _ => true
  | .failDeliver _ _ _ _ => true
  | .failDone _ _ _ _ => true
  | _ => false

def minor : Task → Bool
  | .write f _ => kind f.typ ≠ .opens ∧ isDataFrame f = false
  | .removeStream _ => true
  | .removeIfDone _ => true
  | .closeDone _ => true
  | _ => false

inductive Follows : Task → Task → Prop where
  | opens {id ref} : Follows (.register id) (.write (openFrame id) (.opened ref))
  | connects {send} : Follows (.credit send) (.connCredit send)
  | writes {send} : Follows (.connCredit send) (.writeData send)
  | resumes {send} (more : send.todo.tail ≠ []) : Follows (.writeData send) (.credit send.tail)
  | fails {task new} (was : failing task = true) (is : failing new = true) : Follows task new
  | minor {task new} (small : minor new = true) : Follows task new

inductive Starts (c : Config) (t next : Transport) : Act → Task → Prop where
  | registers : Starts c t next .openStream (.register t.nextID)
  | sends {ref s msg data frames} (object : t.objects[ref]? = some s)
      (may : s.localClosed = false ∧ s.localDone = false ∧ s.aborted = false)
      (cut : dataFrames c s.id data = .ok frames) (logged : next.sends = t.sends ++ [⟨s.id,msg,data⟩]) :
      Starts c t next (.send ref msg) (.credit ⟨t.sends.length,ref,s.id,frames,dataFramesPlain cut⟩)
  | fails {a new} (live : t.closed = false) (shut : next.closed = true) (is : failing new = true) :
      Starts c t next a new
  | minor {a new} (small : minor new = true) : Starts c t next a new

theorem minorExact (small : minor task = true) : sending task = none ∧ failing task = false := by
  cases task <;> simp [minor] at small <;> exact ⟨rfl,rfl⟩

theorem updatesMinor (c id) : ∀ task ∈ sendFragmentWindowUpdates c id, minor task = true := by
  intro task member
  simp only [sendFragmentWindowUpdates,sendWindowUpdateAsync,sendConnectionWindowUpdateAsync,
    List.mem_append] at member
  rcases member with member | member <;> split at member <;> simp at member <;> subst member <;> rfl

theorem failAllSpawns (t err) :
    ∃ more, (failAll t err).tasks = t.tasks ++ more ∧ ∀ task ∈ more, t.closed = false ∧ failing task = true := by
  unfold failAll
  split
  · exact ⟨[],by simp,by simp⟩
  rename_i live
  exact ⟨_,rfl,by simpa [failing] using live⟩

theorem soughtSpawns {id} (h : Sought c t id job next) :
    ∃ more, next.tasks = t.tasks ++ more ∧ ∀ task ∈ more, minor task = true := by
  cases h with
  | rejected => exact ⟨_,rfl,by simp [minor,cancelFrame,isDataFrame,kind]⟩
  | _ => exact ⟨[],by simp,by simp⟩

theorem loopedSpawns (h : Looped c t ok next) : ∃ more, next.tasks = t.tasks ++ more ∧ ∀ task ∈ more,
      minor task = true ∨ t.closed = false ∧ next.closed = true ∧ failing task = true := by
  have small (tasks : ∃ more, next.tasks = t.tasks ++ more ∧ ∀ task ∈ more, minor task = true) :
      ∃ more, next.tasks = t.tasks ++ more ∧ ∀ task ∈ more,
        minor task = true ∨ t.closed = false ∧ next.closed = true ∧ failing task = true := by
    obtain ⟨more,tasks,all⟩ := tasks
    exact ⟨more,tasks,fun task mem => .inl (all task mem)⟩
  cases h with
  | dispatched _ h =>
    cases h with
    | sought _ h => exact small (soughtSpawns h)
    | ponged => exact small ⟨_,rfl,by simp [minor,pongFrame,isDataFrame,kind]⟩
    | _ => exact ⟨[],by simp,by simp⟩
  | relooked _ h => exact small (soughtSpawns h)
  | @failed err =>
    obtain ⟨more,tasks,fails⟩ := failAllSpawns t err
    refine ⟨more,tasks,fun task mem => .inr ?_⟩
    obtain ⟨live,is⟩ := fails task mem
    exact ⟨live,failAllClosed t err,is⟩
  | found _ _ h =>
    cases h with
    | appended => exact small ⟨_,rfl,updatesMinor c _⟩
    | assembled =>
      refine small ⟨_,rfl,fun task mem => ?_⟩
      split at mem
      · simp at mem
      exact updatesMinor c _ task mem
    | _ => exact ⟨[],by simp,by simp⟩
  | _ => exact ⟨[],by simp,by simp⟩

theorem ranSpawns (h : Ran c t ok task next out) :
    ∃ more, next.tasks = t.tasks ++ more ∧ ∀ new ∈ more, Follows task new := by
  have single {new : Task} (h : Follows task new) : ∀ one ∈ [new], Follows task one := by simpa using h
  cases h with
  | registered h => cases h <;> exact ⟨_,rfl,single .opens⟩
  | @wrote _ after =>
    cases after with
    | halfClosed | closed => exact ⟨_,rfl,single (.minor rfl)⟩
    | _ => exact ⟨[],by simp [afterWrite],by simp⟩
  | @unwritten _ after => cases after <;> exact ⟨[],by simp [afterWriteError],by simp⟩
  | credited => exact ⟨_,rfl,single .connects⟩
  | connected => exact ⟨_,rfl,single .writes⟩
  | @sentMore _ _ _ todo more => exact ⟨_,rfl,single (.resumes (by simpa [todo] using more))⟩
  | removed =>
    refine ⟨_,rfl,fun new mem => .minor ?_⟩
    simp only [List.mem_append,List.mem_map,List.mem_singleton] at mem
    rcases mem with ⟨_,_,rfl⟩ | rfl <;> rfl
  | removedDone => exact ⟨_,rfl,single (.minor rfl)⟩
  | failedAll => exact ⟨[],by simp,by simp⟩
  | failSkipped | failMarked | failDelivered | failDone => exact ⟨_,rfl,single (.fails rfl rfl)⟩
  | _ => exact ⟨[],by simp,by simp⟩

theorem receiveMinor (ref id event) : ∀ task ∈ afterReceive ref id event, minor task = true := by
  intro task member
  unfold afterReceive at member
  split at member
  · split at member <;> simp at member <;> subst member <;> rfl
  simp only [sendWindowUpdateAsync,sendConnectionWindowUpdateAsync,List.mem_append] at member
  rcases member with member | member <;> split at member <;> simp at member <;> subst member <;>
    simp [minor,windowFrame,windowConnFrame,isDataFrame,kind]

theorem calledSpawns (h : Called c t a next) :
    ∃ more, next.tasks = t.tasks ++ more ∧ ∀ new ∈ more, Starts c t next a new := by
  have single {new : Task} (h : Starts c t next a new) : ∀ one ∈ [new], Starts c t next a one := by simpa using h
  cases h with
  | openStream => exact ⟨_,rfl,single .registers⟩
  | send obj _ may _ cut => exact ⟨_,rfl,single (.sends obj may cut rfl)⟩
  | received => exact ⟨_,rfl,fun new mem => .minor (receiveMinor _ _ _ new mem)⟩
  | closeSend => exact ⟨_,rfl,single (.minor (by simp [minor,finFrame,isDataFrame,kind]))⟩
  | @closeWithCode =>
    refine ⟨_,rfl,fun new mem => .minor ?_⟩
    rw [List.mem_singleton.mp mem]
    simp only [closeFrame]
    split <;> rfl
  | drain => exact ⟨_,rfl,single (.minor (by simp [minor,goAwayFrame,isDataFrame,kind]))⟩
  | sendPing => exact ⟨_,rfl,single (.minor rfl)⟩
  | close _ serving => exact ⟨_,rfl,single (.fails serving rfl rfl)⟩
  | @keepaliveFail err =>
    obtain ⟨more,tasks,fails⟩ := failAllSpawns t err
    exact ⟨more,tasks,fun new mem => .fails (fails new mem).1 (failAllClosed t err) (fails new mem).2⟩
  | _ => exact ⟨[],by simp,by simp⟩

def Plain (t next : Transport) : Prop :=
  ∃ more, next.tasks = t.tasks ++ more ∧ ∀ task ∈ more, failing task = false

theorem loopedPlain (h : Looped c t ok next) (eq : t.closed = false → next.closed = false) : Plain t next := by
  obtain ⟨more,tasks,spawned⟩ := loopedSpawns h
  refine ⟨more,tasks,fun task mem => ?_⟩
  rcases spawned task mem with small | ⟨live,shut,_⟩
  · exact (minorExact small).2
  simp [eq live] at shut

theorem ranPlain (h : Ran c t ok task next out) (plain : failing task = false) : Plain t next := by
  obtain ⟨more,tasks,spawned⟩ := ranSpawns h
  refine ⟨more,tasks,fun new mem => ?_⟩
  cases spawned new mem with
  | fails was => simp [plain] at was
  | minor small => exact (minorExact small).2
  | _ => rfl

theorem calledPlain (h : Called c t a next) (eq : t.closed = false → next.closed = false) : Plain t next := by
  obtain ⟨more,tasks,spawned⟩ := calledSpawns h
  refine ⟨more,tasks,fun new mem => ?_⟩
  cases spawned new mem with
  | fails live shut => simp [eq live] at shut
  | minor small => exact (minorExact small).2
  | _ => rfl

end Gofly.MuxTasks
