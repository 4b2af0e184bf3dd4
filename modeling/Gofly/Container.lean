import Gofly.CallStacks
import Gofly.Transition
/-! The container. Resolve holds the lock before and after the provider runs and not while it
runs, so that other goroutines, and the provider itself, resolve in between. -/
namespace Gofly.Di
open CallStacks Transition
open Function (comp_update update update_apply)

inductive Error (κ : Type) where
  | notRegistered (key : κ)
  | cyclic (key : κ)
  | closed
  | build (key : κ) (err : Error κ)
  | nilProvider
  | instantiated (key : κ)
  | other (text : String)
  deriving DecidableEq

-- errors.Is(err, ErrCyclic)
def Error.isCyclic {κ : Type} : Error κ → Bool
  | .cyclic _ => true
  | .build _ err => err.isCyclic
  | _ => false

structure Provider (κ : Type) where
  resolves : List κ

structure Container (κ υ : Type) where
  providers : κ → Option (Provider κ)
  instances : κ → Option υ
  building : κ → Bool
  closers : List υ
  closed : Bool

inductive Entry (κ υ : Type) where
  | answer (result : Except (Error κ) υ)
  | build (provider : Provider κ) (c : Container κ υ)

variable {κ υ : Type} [DecidableEq κ]
namespace Container

def new : Container κ υ := ⟨fun _ => none,fun _ => none,fun _ => false,[],false⟩

def provide (c : Container κ υ) (key : κ) : Option (Provider κ) → Except (Error κ) (Container κ υ)
  | none => .error .nilProvider
  | some provider =>
    if c.closed then .error .closed
    else if (c.instances key).isSome then .error (.instantiated key)
    else .ok { c with providers := update c.providers key (some provider) }

def enter (c : Container κ υ) (key : κ) : Entry κ υ :=
  if c.closed then .answer (.error .closed)
  else
    match c.instances key with
    -- inst.(T) would panic for a nil interface, which no instance is here
    | some inst => .answer (.ok inst)
    | none =>
      match c.providers key with
      | none => .answer (.error (.notRegistered key))
      | some provider =>
        if c.building key then .answer (.error (.cyclic key))
        else .build provider { c with building := update c.building key true }

def leave (closerFor : υ → Bool) (c : Container κ υ) (key : κ) (outcome : Except (Error κ) υ) :
    Container κ υ × Except (Error κ) υ × List υ :=
  let c := { c with building := update c.building key false }
  match outcome with
  | .error err => (c,.error (.build key err),[])
  | .ok value =>
    let closer := if closerFor value then [value] else []
    if c.closed then (c,.error .closed,closer)
    else
      match c.instances key with
      | some inst => (c,.ok inst,closer)
      | none =>
        let instances := update c.instances key (some value)
        ({ c with instances,closers := c.closers ++ closer },.ok value,[])

def close (c : Container κ υ) : Container κ υ × List υ :=
  if c.closed then (c,[]) else ({ c with closed := true,closers := [] },c.closers.reverse)

end Container

structure Frame (κ : Type) where
  key : κ
  provider : Provider κ
  resolved : List κ

structure Made (κ υ : Type) where
  key : κ
  value : υ
  resolved : List κ
  kept : Bool

structure World (κ υ : Type) where
  container : Container κ υ
  calls : Nat → List (Frame κ)
  closing : List υ
  panicked : List κ
  answers : List (Except (Error κ) υ)
  made : List (Made κ υ)
  orphans : List υ
  ran : List υ
  failures : List String

inductive Act (κ υ : Type) where
  | provide (key : κ) (provider : Option (Provider κ))
  | resolve (g : Nat) (key : κ)
  | finish (g : Nat) (outcome : Except (Error κ) υ)
  | panics (g : Nat)
  | close
  | closeNext (err : Option String)

def asks (key : κ) : List (Frame κ) → Bool
  | [] => true
  | f :: _ => key ∈ f.provider.resolves

def told (key : κ) (result : Except (Error κ) υ) : List (Frame κ) → List (Frame κ)
  | [] => []
  | f :: rest =>
    match result with
    | .ok _ => { f with resolved := f.resolved ++ [key] } :: rest
    | .error _ => f :: rest

namespace World

def start : World κ υ := ⟨.new,fun _ => [],[],[],[],[],[],[],[]⟩

def provide (w : World κ υ) (key : κ) (provider : Option (Provider κ)) : World κ υ :=
  match w.container.provide key provider with
  | .ok container => { w with container }
  | .error _ => w

def answer (w : World κ υ) (g : Nat) (key : κ) (stack : List (Frame κ)) (result : Except (Error κ) υ) : World κ υ :=
  { w with calls := update w.calls g (told key result stack),answers := w.answers ++ [result] }

def resolve (w : World κ υ) (g : Nat) (key : κ) : Option (World κ υ) :=
  if asks key (w.calls g) then
    match w.container.enter key with
    | .answer result => some (w.answer g key (w.calls g) result)
    | .build provider container =>
      some { w with container,calls := update w.calls g (⟨key,provider,[]⟩ :: w.calls g) }
  else none

def returned (w : World κ υ) (f : Frame κ) : Except (Error κ) υ → List (Made κ υ)
  | .ok value => [⟨f.key,value,f.resolved,!w.container.closed⟩]
  | .error _ => []

def finish (closerFor : υ → Bool) (w : World κ υ) (g : Nat) (outcome : Except (Error κ) υ) : Option (World κ υ) :=
  match w.calls g with
  | [] => none
  | f :: rest =>
    let (container,result,closer) := w.container.leave closerFor f.key outcome
    some { w.answer g f.key rest result with
      container,made := w.made ++ w.returned f outcome,orphans := w.orphans ++ closer }

def panics (w : World κ υ) (g : Nat) : Option (World κ υ) :=
  match w.calls g with
  | [] => none
  | f :: rest => some { w with calls := update w.calls g rest,panicked := f.key :: w.panicked }

def close (w : World κ υ) : World κ υ :=
  let (container,closers) := w.container.close
  { w with container,closing := w.closing ++ closers }

def closeNext (w : World κ υ) (err : Option String) : Option (World κ υ) :=
  match w.closing with
  | [] => none
  | value :: rest => some { w with closing := rest,ran := w.ran ++ [value],failures := w.failures ++ err.toList }

def keys (w : World κ υ) : Nat → List κ := List.map Frame.key ∘ w.calls
def due (closerFor : υ → Bool) (w : World κ υ) : List (Made κ υ) :=
  (w.made.filter fun m => m.kept && closerFor m.value).reverse

end World

def step (closerFor : υ → Bool) (w : World κ υ) : Act κ υ → Option (World κ υ)
  | .provide key provider => some (w.provide key provider)
  | .resolve g key => w.resolve g key
  | .finish g outcome => w.finish closerFor g outcome
  | .panics g => w.panics g
  | .close => some w.close
  | .closeNext err => w.closeNext err

inductive Moved (closerFor : υ → Bool) (w : World κ υ) : Act κ υ → World κ υ → Prop
  | refused (key : κ) (provider : Option (Provider κ)) : Moved closerFor w (.provide key provider) w
  | provided (key : κ) (provider : Provider κ) : Moved closerFor w (.provide key (some provider))
      { w with container := { w.container with providers := update w.container.providers key (some provider) } }
  | answered (g : Nat) (key : κ) (result : Except (Error κ) υ) (asked : asks key (w.calls g) = true)
      (told : w.container.enter key = .answer result) :
      Moved closerFor w (.resolve g key) (w.answer g key (w.calls g) result)
  | entered (g : Nat) (key : κ) (provider : Provider κ) (asked : asks key (w.calls g) = true)
      (opened : w.container.closed = false) (missing : w.container.instances key = none)
      (found : w.container.providers key = some provider) (idle : w.container.building key = false) :
      Moved closerFor w (.resolve g key) { w with
        container := { w.container with building := update w.container.building key true }
        calls := update w.calls g (⟨key,provider,[]⟩ :: w.calls g) }
  | failed (g : Nat) (f : Frame κ) (rest : List (Frame κ)) (err : Error κ) (called : w.calls g = f :: rest) :
      Moved closerFor w (.finish g (.error err)) { w.answer g f.key rest (.error (.build f.key err)) with
        container := { w.container with building := update w.container.building f.key false } }
  | orphaned (g : Nat) (f : Frame κ) (rest : List (Frame κ)) (value : υ) (called : w.calls g = f :: rest)
      (shut : w.container.closed = true) :
      Moved closerFor w (.finish g (.ok value)) { w.answer g f.key rest (.error .closed) with
        container := { w.container with building := update w.container.building f.key false }
        made := w.made ++ [⟨f.key,value,f.resolved,false⟩]
        orphans := w.orphans ++ if closerFor value then [value] else [] }
  | stored (g : Nat) (f : Frame κ) (rest : List (Frame κ)) (value : υ) (called : w.calls g = f :: rest)
      (opened : w.container.closed = false) :
      Moved closerFor w (.finish g (.ok value)) { w.answer g f.key rest (.ok value) with
        container := { w.container with
          building := update w.container.building f.key false
          instances := update w.container.instances f.key (some value)
          closers := w.container.closers ++ if closerFor value then [value] else [] }
        made := w.made ++ [⟨f.key,value,f.resolved,true⟩] }
  | panicked (g : Nat) (f : Frame κ) (rest : List (Frame κ)) (called : w.calls g = f :: rest) :
      Moved closerFor w (.panics g)
        { w with calls := update w.calls g rest,panicked := f.key :: w.panicked }
  | again : Moved closerFor w .close w
  | closed (opened : w.container.closed = false) : Moved closerFor w .close
      { w with
        container := { w.container with closed := true,closers := [] }
        closing := w.closing ++ w.container.closers.reverse }
  | ran (err : Option String) (value : υ) (rest : List υ) (next : w.closing = value :: rest) :
      Moved closerFor w (.closeNext err)
        { w with closing := rest,ran := w.ran ++ [value],failures := w.failures ++ err.toList }

section
variable {w next : World κ υ}

section
variable {c after : Container κ υ} {key : κ}

theorem enterValue (told : c.enter key = .answer (.ok value)) : c.instances key = some value := by
  unfold Container.enter at told
  split at told
  · cases told
  split at told
  · cases told
    assumption
  split at told
  · cases told
  split at told <;> cases told

theorem enterFails (told : c.enter key = .answer (.error err)) :
    err = .closed ∨ err = .notRegistered key ∨ err = .cyclic key := by
  unfold Container.enter at told
  split at told
  · cases told
    exact .inl rfl
  split at told
  · cases told
  split at told
  · cases told
    exact .inr (.inl rfl)
  split at told <;> cases told
  exact .inr (.inr rfl)

theorem enterCyclic : c.enter key = .answer (.error (.cyclic key)) ↔
    c.closed = false ∧ c.instances key = none ∧ (c.providers key).isSome = true ∧ c.building key = true := by
  unfold Container.enter
  cases c.closed with
  | true => simp
  | false =>
    cases c.instances key with
    | some => simp
    | none =>
      cases c.providers key with
      | none => simp
      | some => cases c.building key <;> simp

theorem enterBuilds (entered : c.enter key = .build provider after) :
    c.closed = false ∧ c.instances key = none ∧ c.providers key = some provider ∧ c.building key = false ∧
      after = { c with building := update c.building key true } := by
  unfold Container.enter at entered
  split at entered <;> try contradiction
  split at entered <;> try contradiction
  split at entered <;> try contradiction
  split at entered <;> try contradiction
  simp_all
end

theorem resolveMoved (ran : w.resolve g key = some next) : Moved closerFor w (.resolve g key) next := by
  unfold World.resolve at ran
  split at ran <;> try contradiction
  rename_i asked
  split at ran
  · rename_i result entered
    cases ran
    exact .answered g key result asked entered
  rename_i provider container entered
  obtain ⟨opened,missing,got,idle,rfl⟩ := enterBuilds entered
  cases ran
  exact .entered g key provider asked opened missing got idle

theorem finishMoved (free : ∀ k, Open w.keys k → w.container.instances k = none)
    (ran : w.finish closerFor g outcome = some next) : Moved closerFor w (.finish g outcome) next := by
  unfold World.finish at ran
  split at ran <;> try contradiction
  rename_i f rest called
  have missing : w.container.instances f.key = none := free _ ⟨g,by simp [World.keys,called]⟩
  cases ran
  cases outcome with
  | error err => simpa [World.returned,World.answer] using Moved.failed g f rest err called
  | ok value =>
    cases shut : w.container.closed with
    | true => simpa [World.returned,shut] using Moved.orphaned g f rest value called shut
    | false => simpa [World.returned,World.answer,shut,missing] using Moved.stored g f rest value called shut

theorem stepMoved (free : ∀ k, Open w.keys k → w.container.instances k = none)
    (moved : step closerFor w a = some next) : Moved closerFor w a next := by
  cases a with
  | provide key provider =>
    cases moved
    unfold World.provide Container.provide
    cases provider with
    | none => exact .refused key none
    | some provider =>
      by_cases shut : w.container.closed = true
      · simpa [shut] using Moved.refused key (some provider)
      by_cases got : (w.container.instances key).isSome = true
      · simpa [shut,got] using Moved.refused key (some provider)
      simpa [shut,got] using @Moved.provided _ _ _ closerFor w key provider
  | resolve => exact resolveMoved moved
  | finish => exact finishMoved free moved
  | panics g =>
    simp only [step,World.panics] at moved
    split at moved <;> cases moved
    rename_i f rest called
    exact .panicked g f rest called
  | close =>
    cases moved
    unfold World.close Container.close
    by_cases shut : w.container.closed = true
    · simpa [shut] using Moved.again
    simpa [shut] using Moved.closed (Bool.eq_false_iff.mpr shut)
  | closeNext err =>
    simp only [step,World.closeNext] at moved
    split at moved <;> cases moved
    rename_i value rest due
    exact .ran err value rest due

structure Marked (w : World κ υ) : Prop where
  apart : Apart w.keys
  marks : ∀ k, w.container.building k = true ↔ k ∈ w.panicked ∨ Open w.keys k
  lost : ∀ k ∈ w.panicked, ¬Open w.keys k
  free : ∀ k, Open w.keys k → w.container.instances k = none

section
omit [DecidableEq κ]

theorem toldKeys (key) (result : Except (Error κ) υ) (stack) :
    (told key result stack).map Frame.key = stack.map Frame.key := by
  cases stack with
  | nil => rfl
  | cons => cases result <;> rfl

theorem answerKeys (w : World κ υ) (g key stack result) :
    (w.answer g key stack result).keys = update w.keys g (stack.map Frame.key) := by
  rw [World.keys,World.answer,comp_update,toldKeys,World.keys]

theorem answerKeysSame (w : World κ υ) (g key result) : (w.answer g key (w.calls g) result).keys = w.keys := by
  rw [answerKeys]
  exact Function.update_eq_self g w.keys

theorem calledKeys (called : w.calls g = f :: rest) : w.keys g = f.key :: rest.map Frame.key := by
  simp [World.keys,called]
end

section
variable (marked : Marked w)
include marked

theorem leftMarked (called : w.calls g = f :: rest)
    (keys : next.keys = update w.keys g (rest.map Frame.key)) (panicked : next.panicked = w.panicked)
    (building : next.container.building = update w.container.building f.key false)
    (instances : ∀ k, k ≠ f.key → next.container.instances k = w.container.instances k) : Marked next := by
  have left : ∀ k, Open next.keys k ↔ k ≠ f.key ∧ Open w.keys k := fun k => keys ▸ openPop marked.apart (calledKeys called)
  constructor
  · rw [keys]
    exact apartPop marked.apart (calledKeys called)
  · intro k
    rw [building,panicked,left,update_apply]
    split
    · rename_i eq
      subst eq
      have runs : Open w.keys f.key := ⟨g,by simp [calledKeys called]⟩
      simpa using fun lost => marked.lost f.key lost runs
    rename_i other
    simp [marked.marks k,other]
  · intro k lost runs
    exact marked.lost k (panicked ▸ lost) ((left k).mp runs).2
  intro k runs
  obtain ⟨other,runs⟩ := (left k).mp runs
  rw [instances k other]
  exact marked.free k runs

theorem enteredMarked (fresh : ¬(key ∈ w.panicked ∨ Open w.keys key))
    (missing : w.container.instances key = none)
    (keys : next.keys = update w.keys g (key :: w.keys g)) (panicked : next.panicked = w.panicked)
    (building : next.container.building = update w.container.building key true)
    (instances : next.container.instances = w.container.instances) : Marked next := by
  obtain ⟨calm,unopened⟩ := not_or.mp fresh
  have entered : ∀ k, Open next.keys k ↔ k = key ∨ Open w.keys k := fun k => keys ▸ openPush
  constructor
  · rw [keys]
    exact apartPush marked.apart unopened
  · intro k
    rw [building,panicked,entered,update_apply]
    split
    · rename_i eq
      simp [eq]
    rename_i other
    simp [marked.marks k,other]
  · intro k lost running
    rw [panicked] at lost
    rcases (entered k).mp running with rfl | running
    · exact calm lost
    exact marked.lost k lost running
  intro k running
  rw [instances]
  rcases (entered k).mp running with rfl | running
  · exact missing
  exact marked.free k running

theorem panickedMarked (called : w.calls g = f :: rest)
    (keys : next.keys = update w.keys g (rest.map Frame.key)) (panicked : next.panicked = f.key :: w.panicked)
    (building : next.container.building = w.container.building)
    (instances : next.container.instances = w.container.instances) : Marked next := by
  have left : ∀ k, Open next.keys k ↔ k ≠ f.key ∧ Open w.keys k := fun k => keys ▸ openPop marked.apart (calledKeys called)
  have runs : Open w.keys f.key := ⟨g,by simp [calledKeys called]⟩
  constructor
  · rw [keys]
    exact apartPop marked.apart (calledKeys called)
  · intro k
    rw [building,panicked,left,marked.marks]
    by_cases eq : k = f.key
    · simp [eq,runs]
    simp [eq]
  · intro k lost
    rw [panicked] at lost
    rw [left]
    rintro ⟨other,runs⟩
    exact marked.lost k ((List.mem_cons.mp lost).resolve_left other) runs
  intro k runs
  rw [instances]
  exact marked.free k ((left k).mp runs).2

theorem movedMarked (moved : Moved closerFor w a next) : Marked next := by
  obtain ⟨ne,marks,lost,free⟩ := marked
  cases moved with
  | refused | provided | again | closed | ran => exact ⟨ne,marks,lost,free⟩
  | answered g key result =>
    have keys := answerKeysSame w g key result
    exact ⟨keys ▸ ne,keys ▸ marks,keys ▸ lost,keys ▸ free⟩
  | entered _ key _ _ _ missing _ idle =>
    have fresh : ¬(key ∈ w.panicked ∨ Open w.keys key) := fun marked => by simp [(marks key).mpr marked] at idle
    refine enteredMarked ⟨ne,marks,lost,free⟩ fresh missing (comp_update ..) rfl rfl rfl
  | failed _ _ _ _ called | orphaned _ _ _ _ called =>
    exact leftMarked ⟨ne,marks,lost,free⟩ called (answerKeys ..) rfl rfl fun _ _ => rfl
  | stored _ _ _ _ called =>
    refine leftMarked ⟨ne,marks,lost,free⟩ called (answerKeys ..) rfl rfl fun k other => ?_
    exact Function.update_of_ne other _ _
  | panicked _ _ _ called => exact panickedMarked ⟨ne,marks,lost,free⟩ called (comp_update ..) rfl rfl rfl
end
end
end Gofly.Di
