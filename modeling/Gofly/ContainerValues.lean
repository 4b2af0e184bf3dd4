import Gofly.Container
/-! What the providers made. Every type is made once at most, after the types its provider
resolved, and the values are closed in the reverse order. -/
namespace Gofly.Di
open CallStacks Transition
open Function (comp_update update update_apply)

variable {κ υ : Type} {closerFor : υ → Bool} {w next : World κ υ} {a : Act κ υ}

structure Making (w : World κ υ) : Prop where
  reached : ∀ g, ∀ f ∈ w.calls g, ∀ k ∈ f.resolved, (w.container.instances k).isSome = true
  ended : ∀ m ∈ w.made, ¬Open w.keys m.key
  fixed : ∀ m ∈ w.made, w.container.closed = true ∨ (w.container.instances m.key).isSome = true
  once : (w.made.map Made.key).Nodup
  behind : ∀ m ∈ w.made, ∀ k ∈ m.resolved, (w.container.instances k).isSome = true
  order : w.made.Pairwise fun x y => y.key ∉ x.resolved

theorem toldSeen (seen : f ∈ told key result stack) (mem : k ∈ f.resolved) :
    (∃ old ∈ stack, k ∈ old.resolved) ∨ k = key ∧ ∃ v, result = .ok v := by
  cases stack with
  | nil => cases seen
  | cons top =>
    cases result with
    | error => exact .inl ⟨f,seen,mem⟩
    | ok v =>
      rcases List.mem_cons.mp seen with rfl | deeper
      · rcases List.mem_append.mp mem with old | new
        · exact .inl ⟨top,List.mem_cons_self,old⟩
        · exact .inr ⟨List.mem_singleton.mp new,v,rfl⟩
      exact .inl ⟨f,List.mem_cons_of_mem top deeper,mem⟩

theorem answerReached {g h : Nat} {key k : κ} {stack : List (Frame κ)} {result : Except (Error κ) υ} {f : Frame κ}
    {there : κ → Prop} (met : ∀ g, ∀ f ∈ w.calls g, ∀ k ∈ f.resolved, there k)
    (mine : ∀ f ∈ stack, f ∈ w.calls g) (given : ∀ v, result = .ok v → there key)
    (seen : f ∈ (w.answer g key stack result).calls h) (mem : k ∈ f.resolved) : there k := by
  rcases updateSeen seen with ⟨_,seen⟩ | ⟨_,seen⟩
  · rcases toldSeen seen mem with ⟨old,inside,mem⟩ | ⟨rfl,v,ok⟩
    · exact met g old (mine old inside) k mem
    · exact given v ok
  exact met h f seen k mem

theorem madeFresh (marked : Marked w) (making : Making w) (called : w.calls g = f :: rest) (mine : m.key = f.key) :
    ((w.made ++ [m]).map Made.key).Nodup ∧ (w.made ++ [m]).Pairwise fun x y => y.key ∉ x.resolved := by
  have runs : Open w.keys m.key := ⟨g,by simp [calledKeys called,mine]⟩
  constructor
  · rw [List.map_append,List.nodup_append]
    refine ⟨making.once,by simp,?_⟩
    rintro k old _ new rfl
    obtain ⟨x,mem,rfl⟩ := List.mem_map.mp old
    rw [List.map_singleton,List.mem_singleton] at new
    exact making.ended x mem (new ▸ runs)
  refine List.pairwise_append.mpr ⟨making.order,by simp,?_⟩
  rintro x mem y new resolved
  rw [List.mem_singleton.mp new] at resolved
  have there := making.behind x mem m.key resolved
  rw [marked.free m.key runs] at there
  contradiction

theorem leftMaking (marked : Marked w) (making : Making w) (called : w.calls g = f :: rest)
    (calls : next.calls = (w.answer g f.key rest result).calls) (closed : next.container.closed = w.container.closed)
    (stays : ∀ k, (w.container.instances k).isSome = true → (next.container.instances k).isSome = true)
    (given : ∀ v, result = .ok v → (next.container.instances f.key).isSome = true)
    (made : next.made = w.made ∨ ∃ m, next.made = w.made ++ [m] ∧ m.key = f.key ∧ m.resolved = f.resolved ∧
      (next.container.closed = true ∨ (next.container.instances f.key).isSome = true)) : Making next := by
  have keys : next.keys = update w.keys g (rest.map Frame.key) := by
    rw [← answerKeys w g f.key rest result,World.keys,calls,World.keys]
  have left : ∀ k, Open next.keys k ↔ k ≠ f.key ∧ Open w.keys k := fun k => keys ▸ openPop marked.apart (calledKeys called)
  have met : ∀ h, ∀ f ∈ next.calls h, ∀ k ∈ f.resolved, (next.container.instances k).isSome = true := by
    intro h other seen k mem
    rw [calls] at seen
    refine @answerReached _ _ w g h f.key k rest result other (fun k => (next.container.instances k).isSome = true)
      (fun h f seen k mem => stays k (making.reached h f seen k mem)) (fun inner inside => ?_) given seen mem
    rw [called]
    exact List.mem_cons_of_mem f inside
  have ended : ∀ m ∈ w.made, ¬Open next.keys m.key := fun m mem opened => making.ended m mem ((left m.key).mp opened).2
  have fixed : ∀ m ∈ w.made, next.container.closed = true ∨ (next.container.instances m.key).isSome = true :=
    fun m mem => (making.fixed m mem).imp closed.trans (stays m.key)
  have behind : ∀ m ∈ w.made, ∀ k ∈ m.resolved, (next.container.instances k).isSome = true :=
    fun m mem k resolved => stays k (making.behind m mem k resolved)
  rcases made with eq | ⟨new,added,mine,resolved,done⟩
  · exact ⟨met,eq ▸ ended,eq ▸ fixed,eq ▸ making.once,eq ▸ behind,eq ▸ making.order⟩
  have fresh := madeFresh marked making called mine
  have every : ∀ {P : Made κ υ → Prop}, (∀ m ∈ w.made, P m) → P new → ∀ m ∈ next.made, P m := by
    intro P old last m mem
    rw [added] at mem
    rcases List.mem_append.mp mem with inside | added
    · exact old m inside
    exact List.mem_singleton.mp added ▸ last
  refine ⟨met,every ended ?_,every fixed ?_,added ▸ fresh.1,every behind ?_,added ▸ fresh.2⟩
  · rw [left]
    exact fun opened => opened.1 mine
  · rw [mine]
    exact done
  intro k mem
  exact stays k (making.reached g f (by simp [called]) k (resolved ▸ mem))

variable [DecidableEq κ]

theorem movedMaking (marked : Marked w) (making : Making w) (moved : Moved closerFor w a next) : Making next := by
  obtain ⟨met,ended,fixed,once,behind,order⟩ := making
  cases moved with
  | refused | provided | again | ran => exact ⟨met,ended,fixed,once,behind,order⟩
  | closed => exact ⟨met,ended,fun _ _ => .inl rfl,once,behind,order⟩
  | answered g key result _ answer =>
    refine ⟨fun h f seen k mem => ?_,answerKeysSame w g key result ▸ ended,fixed,once,behind,order⟩
    exact @answerReached _ _ w g h key k _ result f (fun k => (w.container.instances k).isSome = true) met
      (fun _ inside => inside) (fun v ok => by rw [enterValue (ok ▸ answer)]; rfl) seen mem
  | entered g key provider _ opened missing =>
    refine ⟨fun h f seen k mem => ?_,fun m mem running => ?_,fixed,once,behind,order⟩
    · rcases updateSeen seen with ⟨_,seen⟩ | ⟨_,seen⟩
      · rcases List.mem_cons.mp seen with rfl | inside
        · cases mem
        · exact met g f inside k mem
      · exact met h f seen k mem
    have keys : List.map Frame.key ∘ update w.calls g (⟨key,provider,[]⟩ :: w.calls g) =
        update w.keys g (key :: w.keys g) := comp_update ..
    rw [World.keys,keys,openPush] at running
    rcases running with eq | running
    · have done := fixed m mem
      simp [opened,eq,missing] at done
    exact ended m mem running
  | failed g f rest err called =>
    exact @leftMaking _ _ w _ g f rest (.error (.build f.key err)) marked ⟨met,ended,fixed,once,behind,order⟩
      called rfl rfl (fun _ there => there) (by simp) (.inl rfl)
  | orphaned g f rest _ called shut =>
    exact @leftMaking _ _ w _ g f rest (.error .closed) marked ⟨met,ended,fixed,once,behind,order⟩
      called rfl rfl (fun _ there => there) (by simp) (.inr ⟨_,rfl,rfl,rfl,.inl shut⟩)
  | stored g f rest value called =>
    have stays : ∀ k, (w.container.instances k).isSome = true →
        (update w.container.instances f.key (some value) k).isSome = true := by
      intro k there
      rw [update_apply]
      split
      · rfl
      exact there
    have here : (update w.container.instances f.key (some value) f.key).isSome = true := by simp
    exact @leftMaking _ _ w _ g f rest (.ok value) marked ⟨met,ended,fixed,once,behind,order⟩
      called rfl rfl stays (fun _ _ => here) (.inr ⟨_,rfl,rfl,rfl,.inr here⟩)
  | panicked g _ rest called =>
    refine ⟨fun h other seen k mem => ?_,fun m mem running => ?_,fixed,once,behind,order⟩
    · rcases updateSeen seen with ⟨_,seen⟩ | ⟨_,seen⟩
      · exact met g other (by simp [called,seen]) k mem
      · exact met h other seen k mem
    have keys : List.map Frame.key ∘ update w.calls g rest = update w.keys g (rest.map Frame.key) :=
      comp_update ..
    rw [World.keys,keys,openPop marked.apart (calledKeys called)] at running
    exact ended m mem running.2

structure Closing (closerFor : υ → Bool) (w : World κ υ) : Prop where
  due : w.ran ++ w.closing ++ w.container.closers.reverse = (w.due closerFor).map Made.value
  idle : w.container.closed = false → w.ran = [] ∧ w.closing = []
  emptied : w.container.closed = true → w.container.closers = []
  orphans : w.orphans = (w.made.filter fun m => !m.kept && closerFor m.value).map Made.value

theorem movedClosing (closing : Closing closerFor w) (moved : Moved closerFor w a next) : Closing closerFor next := by
  obtain ⟨due,idle,emptied,orphans⟩ := closing
  cases moved with
  | refused | provided | answered | entered | failed | panicked | again => exact ⟨due,idle,emptied,orphans⟩
  | orphaned _ _ _ value =>
    refine ⟨?_,idle,emptied,?_⟩
    · simpa [World.due,World.answer] using due
    cases closer : closerFor value <;> simp [orphans,closer]
  | stored _ _ _ value _ opened =>
    obtain ⟨ran,closing⟩ := idle opened
    refine ⟨?_,idle,fun shut => ?_,?_⟩
    · cases closer : closerFor value <;> simpa [World.due,World.answer,ran,closing,closer] using due
    · exact absurd (opened.symm.trans shut) (by decide)
    simpa [World.answer] using orphans
  | closed opened => exact ⟨by simpa [World.due] using due,by simp,fun _ => rfl,orphans⟩
  | ran _ _ _ front =>
    refine ⟨?_,fun opened => ?_,emptied,orphans⟩
    · rw [front] at due
      simpa [World.due] using due
    rw [(idle opened).2] at front
    contradiction

structure Sound (closerFor : υ → Bool) (w : World κ υ) : Prop where
  marked : Marked w
  making : Making w
  closing : Closing closerFor w

omit [DecidableEq κ] in
theorem startSound : Sound closerFor (World.start : World κ υ) := by
  have empty : ∀ k, ¬Open (World.start : World κ υ).keys k := fun k ⟨_,mem⟩ => absurd mem List.not_mem_nil
  refine ⟨⟨⟨fun _ => List.nodup_nil,fun mem => absurd mem List.not_mem_nil⟩,fun k => ?_,fun _ => nofun,fun _ _ => rfl⟩,?_,?_⟩
  · simpa [World.start,Container.new] using empty k
  · exact ⟨fun _ => nofun,nofun,nofun,.nil,nofun,.nil⟩
  · exact ⟨rfl,fun _ => ⟨rfl,rfl⟩,fun _ => rfl,rfl⟩

theorem stepSound (w : World κ υ) (a next) (sound : Sound closerFor w)
    (ran : step closerFor w a = some next) : Sound closerFor next := by
  have ran := stepMoved sound.marked.free ran
  exact ⟨movedMarked sound.marked ran,movedMaking sound.marked sound.making ran,movedClosing sound.closing ran⟩

theorem traceSound (ran : Trace (step closerFor) allowed .start as w) : Sound closerFor w :=
  traceInvariant (fun w a next sound _ moved => stepSound w a next sound moved) ran startSound

/-- A key is marked while its provider runs, or once it has panicked; no key is built twice at once. -/
theorem buildingExact (ran : Trace (step closerFor) Free .start as w) : Apart w.keys ∧
    ∀ k, (w.container.building k ↔ k ∈ w.panicked ∨ Open w.keys k) ∧ (Open w.keys k → w.container.instances k = none) := by
  obtain ⟨apart,marks,_,free⟩ := (traceSound ran).marked
  exact ⟨apart,fun k => ⟨marks k,free k⟩⟩

theorem enteredBuilding : ∃ w : World Nat Bool, w.container.building 0 := by
  have ran : run (step not) .start [.provide 0 (some ⟨[]⟩),.resolve 0 0] = some _ := rfl
  exact ⟨_,((buildingExact (runFree ran)).2 0).1.mpr (.inr ⟨0,.head _⟩)⟩

omit [DecidableEq κ] in
theorem dueOrder (sound : Sound closerFor w) : (w.due closerFor).Pairwise fun x y => x.key ∉ y.resolved :=
  List.pairwise_reverse.mpr (sound.making.order.filter _)

/-- Close is called while no provider is at work. -/
def Settled (w : World κ υ) : Act κ υ → Prop
  | .close => ∀ g, w.calls g = []
  | _ => True

structure AllKept (w : World κ υ) : Prop where
  still : w.container.closed = true → ∀ g, w.calls g = []
  kept : ∀ m ∈ w.made, m.kept = true

theorem movedKept (all : AllKept w) (fits : Settled w a) (moved : Moved closerFor w a next) : AllKept next := by
  obtain ⟨still,kept⟩ := all
  -- a provider that is at work shows that the container is open
  have working : ∀ {g f rest}, w.calls g = f :: rest → w.container.closed = true → False := by
    intro g f rest called shut
    rw [still shut g] at called
    contradiction
  cases moved with
  | refused | provided | again | ran => exact ⟨still,kept⟩
  | closed => exact ⟨fun _ => fits,kept⟩
  | answered =>
    refine ⟨fun shut h => ?_,kept⟩
    simp [World.answer,update_apply,still shut,told]
  | entered _ _ _ _ opened => exact ⟨fun shut => absurd (opened.symm.trans shut) (by decide),kept⟩
  | failed _ _ _ _ called | panicked _ _ _ called => exact ⟨fun shut => (working called shut).elim,kept⟩
  | orphaned _ _ _ _ called shut => exact (working called shut).elim
  | stored _ _ _ _ called =>
    refine ⟨fun shut => (working called shut).elim,fun m mem => ?_⟩
    rcases List.mem_append.mp mem with old | new
    · exact kept m old
    rw [List.mem_singleton.mp new]

theorem traceKept (ran : Trace (step closerFor) Settled .start as w) : ∀ m ∈ w.made, m.kept = true := by
  have all : Sound closerFor w ∧ AllKept w := by
    refine traceInvariant (P := fun w => Sound closerFor w ∧ AllKept w) (fun w a next kept fits moved => ?_) ran
      ⟨startSound,nofun,nofun⟩
    exact ⟨stepSound w a next kept.1 moved,movedKept kept.2 fits (stepMoved kept.1.marked.free moved)⟩
  exact all.2.kept

section
open Relation
variable {dep : κ → κ → Prop}

def Graph (dep : κ → κ → Prop) (_ : World κ υ) : Act κ υ → Prop
  | .provide key (some provider) => ∀ j ∈ provider.resolves, dep key j
  | _ => True

structure Contended (w : World κ υ) (g : Nat) (key : κ) : Prop where
  opened : w.container.closed = false
  missing : w.container.instances key = none
  found : (w.container.providers key).isSome = true
  marked : key ∈ w.panicked ∨ ∃ h, h ≠ g ∧ key ∈ w.keys h

/-- Nobody asks for a contended type, and no provider makes up an ErrCyclic. -/
def Uncontended (dep : κ → κ → Prop) (w : World κ υ) (a : Act κ υ) : Prop :=
  Graph dep w a ∧
    match a with
    | .resolve g key => ¬Contended w g key
    | .finish _ (.error err) => err.isCyclic = true → ∃ given, .error given ∈ w.answers ∧ given.isCyclic = true
    | _ => True

structure Follows (dep : κ → κ → Prop) (stack : List (Frame κ)) : Prop where
  allowed : ∀ f ∈ stack, ∀ j ∈ f.provider.resolves, dep f.key j
  descends : Descends dep (stack.map Frame.key)

structure Descending (dep : κ → κ → Prop) (w : World κ υ) : Prop where
  provided : ∀ k p, w.container.providers k = some p → ∀ j ∈ p.resolves, dep k j
  follows : ∀ g, Follows dep (w.calls g)

section

theorem askedDescends (follows : Follows dep stack) (asked : asks key stack = true) :
    Descends dep (key :: stack.map Frame.key) := by
  cases stack with
  | nil => exact List.pairwise_singleton ..
  | cons f =>
    exact descendsPush follows.descends (follows.allowed f List.mem_cons_self key (of_decide_eq_true asked))

omit [DecidableEq κ]

theorem restFollows (follows : Follows dep (f :: rest)) : Follows dep rest :=
  ⟨fun inner mem => follows.allowed inner (List.mem_cons_of_mem f mem),(List.pairwise_cons.mp follows.descends).2⟩

theorem toldFollows (follows : Follows dep stack) : Follows dep (told key result stack) := by
  refine ⟨fun f seen => ?_,toldKeys key result stack ▸ follows.descends⟩
  cases stack with
  | nil => cases seen
  | cons top =>
    cases result with
    | error => exact follows.allowed f seen
    | ok =>
      rcases List.mem_cons.mp seen with rfl | deeper
      · exact follows.allowed top List.mem_cons_self
      exact follows.allowed f (List.mem_cons_of_mem top deeper)

theorem setDescending (desc : Descending dep w) (providers : next.container.providers = w.container.providers)
    (calls : next.calls = update w.calls g stack) (follows : Follows dep stack) : Descending dep next := by
  refine ⟨providers ▸ desc.provided,fun h => ?_⟩
  rw [calls,update_apply]
  split
  · exact follows
  exact desc.follows h
end

theorem movedDescending (desc : Descending dep w) (fits : Graph dep w a) (moved : Moved closerFor w a next) :
    Descending dep next := by
  obtain ⟨provided,follows⟩ := desc
  cases moved with
  | refused | again | closed | ran => exact ⟨provided,follows⟩
  | provided =>
    refine ⟨fun k p got => ?_,follows⟩
    simp only [update_apply] at got
    split at got
    · rename_i eq
      cases got
      exact eq ▸ fits
    exact provided k p got
  | answered g => exact setDescending ⟨provided,follows⟩ rfl rfl (toldFollows (follows g))
  | entered g key provider asked _ _ got =>
    refine setDescending ⟨provided,follows⟩ rfl rfl ⟨fun f seen => ?_,askedDescends (follows g) asked⟩
    rcases List.mem_cons.mp seen with rfl | inside
    · exact provided key provider got
    exact (follows g).allowed f inside
  | failed g _ _ _ called | orphaned g _ _ _ called | stored g _ _ _ called =>
    exact setDescending ⟨provided,follows⟩ rfl rfl (toldFollows (restFollows (called ▸ follows g)))
  | panicked g _ _ called => exact setDescending ⟨provided,follows⟩ rfl rfl (restFollows (called ▸ follows g))

theorem traceDescending
    (fits : ∀ w a, allowed w a → Graph dep w a) (ran : Trace (step closerFor) allowed .start as w) :
    Sound closerFor w ∧ Descending dep w := by
  refine traceInvariant (P := fun w => Sound closerFor w ∧ Descending dep w) (fun w a next kept fine moved => ?_) ran
    ⟨startSound,nofun,fun _ => ⟨nofun,.nil⟩⟩
  obtain ⟨sound,desc⟩ := kept
  exact ⟨stepSound w a next sound moved,movedDescending desc (fits w a fine) (stepMoved sound.marked.free moved)⟩

theorem enterContended (acyclic : ∀ k, ¬TransGen dep k k) (sound : Sound closerFor w)
    (desc : Descending dep w) (asked : asks key (w.calls g) = true) :
    w.container.enter key = .answer (.error (.cyclic key)) ↔ Contended w g key := by
  have unmet : key ∉ w.keys g := descendsFresh acyclic (askedDescends (desc.follows g) asked)
  have others : Open w.keys key ↔ ∃ h, h ≠ g ∧ key ∈ w.keys h := by
    refine ⟨fun ⟨h,mem⟩ => ⟨h,?_,mem⟩,fun ⟨h,_,mem⟩ => ⟨h,mem⟩⟩
    rintro rfl
    exact unmet mem
  rw [enterCyclic,sound.marked.marks,others]
  exact ⟨fun ⟨opened,missing,got,marked⟩ => ⟨opened,missing,got,marked⟩,
    fun ⟨opened,missing,got,marked⟩ => ⟨opened,missing,got,marked⟩⟩

theorem resolveCyclic (acyclic : ∀ k, ¬TransGen dep k k) (sound : Sound closerFor w)
    (desc : Descending dep w) (ran : w.resolve g key = some next) :
    next.answers = w.answers ++ [.error (.cyclic key)] ↔ Contended w g key := by
  unfold World.resolve at ran
  split at ran <;> try contradiction
  rename_i asked
  rw [← enterContended acyclic sound desc asked]
  split at ran <;> rename_i entered <;> cases ran <;> rw [entered]
  · simp [World.answer]
  simp

def Calm (w : World κ υ) : Prop := ∀ err, .error err ∈ w.answers → err.isCyclic = false

theorem movedCalm (acyclic : ∀ k, ¬TransGen dep k k) (sound : Sound closerFor w) (desc : Descending dep w)
    (calm : Calm w) (fits : Uncontended dep w a) (moved : Moved closerFor w a next) : Calm next := by
  have added : ∀ {result : Except (Error κ) υ}, (∀ err, result = .error err → err.isCyclic = false) →
      ∀ err, .error err ∈ w.answers ++ [result] → err.isCyclic = false := by
    intro result fine err mem
    rcases List.mem_append.mp mem with old | new
    · exact calm err old
    exact fine err (List.mem_singleton.mp new).symm
  cases moved with
  | refused | provided | entered | panicked | again | closed | ran => exact calm
  | answered _ _ _ asked answer =>
    refine added fun err failed => ?_
    subst failed
    rcases enterFails answer with rfl | rfl | rfl
    · rfl
    · rfl
    exact absurd ((enterContended acyclic sound desc asked).mp answer) fits.2
  | failed =>
    refine added fun wrapped eq => ?_
    cases eq
    refine Bool.eq_false_iff.mpr fun cyclic => ?_
    obtain ⟨given,mem,cyclic⟩ := fits.2 cyclic
    exact absurd cyclic (by simp [calm given mem])
  | orphaned => exact added fun err eq => by cases eq; rfl
  | stored => exact added nofun

/-- On a graph without cycles ErrCyclic means contention; a type is made once at most; Close calls
each closer once, users first. -/
theorem cyclesGenuine (closerFor : υ → Bool) : (∀ dep : κ → κ → Prop, (∀ k, ¬TransGen dep k k) →
      (∀ as w g key next, Trace (step closerFor) (Graph dep) .start as w → step closerFor w (.resolve g key) = some next →
        (next.answers = w.answers ++ [.error (.cyclic key)] ↔ Contended w g key)) ∧
      ∀ as w, Trace (step closerFor) (Uncontended dep) .start as w → ∀ err, .error err ∈ w.answers → err.isCyclic = false) ∧
    (∀ (as : List (Act κ υ)) w, Trace (step closerFor) Settled .start as w → ∀ m ∈ w.made, m.kept = true) ∧
    ∀ (as : List (Act κ υ)) w, Trace (step closerFor) Free .start as w → (w.made.map Made.key).Nodup ∧
      (w.container.closed = true → w.ran ++ w.closing = (w.due closerFor).map Made.value) ∧
      (w.due closerFor).Pairwise (fun x y => x.key ∉ y.resolved) ∧
      w.orphans = (w.made.filter fun m => !m.kept && closerFor m.value).map Made.value := by
  refine ⟨fun dep acyclic => ⟨fun as w g key next ran moved => ?_,fun as w ran => ?_⟩,fun as w ran => traceKept ran,
    fun as w ran => ?_⟩
  · obtain ⟨sound,descending⟩ := traceDescending (fun _ _ fits => fits) ran
    exact resolveCyclic acyclic sound descending moved
  · have kept : Sound closerFor w ∧ Descending dep w ∧ Calm w := by
      refine traceInvariant (P := fun w => Sound closerFor w ∧ Descending dep w ∧ Calm w) ?_ ran
        ⟨startSound,⟨nofun,fun _ => ⟨nofun,.nil⟩⟩,nofun⟩
      rintro w a next ⟨sound,descending,calm⟩ fits moved
      have what := stepMoved sound.marked.free moved
      exact ⟨stepSound w a next sound moved,movedDescending descending fits.1 what,
        movedCalm acyclic sound descending calm fits what⟩
    exact kept.2.2
  · have sound : Sound closerFor w := traceSound ran
    refine ⟨sound.making.once,fun shut => ?_,dueOrder sound,sound.closing.orphans⟩
    have due := sound.closing.due
    rwa [sound.closing.emptied shut,List.reverse_nil,List.append_nil] at due

def wired : List (Act Nat Nat) :=
  [.provide 0 (some ⟨[1]⟩),.provide 1 (some ⟨[]⟩),.resolve 0 0,.resolve 0 1,.finish 0 (.ok 11),.finish 0 (.ok 10),
    .close,.closeNext none,.closeNext none]

theorem wiredTrace : ∃ w, run (step fun _ => true) .start wired = some w ∧ w.ran = [10,11] ∧ w.container.closed = true ∧
    Trace (step fun _ => true) (Uncontended (· < ·)) .start wired w ∧ Trace (step fun _ => true) Settled .start wired w := by
  refine ⟨_,rfl,rfl,rfl,?_,.more trivial rfl <| .more trivial rfl <| .more trivial rfl <| .more trivial rfl <|
    .more trivial rfl <| .more trivial rfl <| .more (fun g => ?_) rfl <| .more trivial rfl <| .more trivial rfl <| .done _⟩
  on_goal 2 => cases g <;> rfl
  refine .more ⟨?_,trivial⟩ rfl <| .more ⟨?_,trivial⟩ rfl <| .more ⟨trivial,?_⟩ rfl <| .more ⟨trivial,?_⟩ rfl <|
    .more ⟨trivial,trivial⟩ rfl <| .more ⟨trivial,trivial⟩ rfl <| .more ⟨trivial,trivial⟩ rfl <|
    .more ⟨trivial,trivial⟩ rfl <| .more ⟨trivial,trivial⟩ rfl <| .done _
  · exact (by decide : ∀ j ∈ [1], 0 < j)
  · exact (nofun : ∀ j ∈ [], 1 < j)
  · rintro ⟨_,_,_,lost | ⟨h,_,mem⟩⟩
    · cases lost
    · cases mem
  rintro ⟨_,_,_,lost | ⟨h,elsewhere,mem⟩⟩
  · cases lost
  obtain ⟨f,seen,_⟩ := List.mem_map.mp mem
  rcases updateSeen seen with ⟨here,_⟩ | ⟨_,none⟩
  · exact elsewhere here
  cases none

theorem ltAcyclic (k : Nat) : ¬TransGen (· < ·) k k := by
  rw [transGen_eq_self]
  exact Nat.lt_irrefl k

theorem wiredGenuine : ∃ w, run (step fun _ => true) .start wired = some w ∧
    (∀ err, .error err ∈ w.answers → err.isCyclic = false) ∧ (w.made.map Made.key).Nodup ∧
    (∀ m ∈ w.made, m.kept = true) ∧ (w.due fun _ => true).map Made.value = [10,11] ∧ (w.due fun _ => true).Pairwise (fun x y => x.key ∉ y.resolved) := by
  obtain ⟨w,ran,closers,shut,trace,settles⟩ := wiredTrace
  obtain ⟨genuine,settled,every⟩ := @cyclesGenuine Nat Nat _ fun _ => true
  obtain ⟨once,closed,order,_⟩ := every wired w (runFree ran)
  have calm := (genuine (· < ·) ltAcyclic).2 wired w trace
  refine ⟨w,ran,calm,once,settled wired w settles,?_,order⟩
  cases ran
  rfl

theorem lonelyCyclic : (∀ k, ¬TransGen (fun _ _ : Nat => False) k k) ∧
    (∃ w : World Nat Nat, Trace (step fun _ => true) (Graph fun _ _ => False) .start
      [.provide 0 (some ⟨[]⟩),.resolve 0 0,.resolve 1 0] w ∧ w.answers = [.error (.cyclic 0)]) ∧
    ∃ w : World Nat Nat, Trace (step fun _ => true) (Graph fun _ _ => False) .start
      [.provide 0 (some ⟨[]⟩),.resolve 0 0,.panics 0,.resolve 0 0] w ∧ w.answers = [.error (.cyclic 0)] := by
  refine ⟨fun k cycle => ?_,⟨_,.more nofun rfl (.more trivial rfl (.more trivial rfl (.done _))),rfl⟩,
    _,.more nofun rfl (.more trivial rfl (.more trivial rfl (.more trivial rfl (.done _)))),rfl⟩
  obtain ⟨_,edge,_⟩ := TransGen.head'_iff.mp cycle
  exact edge

end
end Gofly.Di
