import Gofly.ExporterDelivery
/-! The counter of hung calls and the half-open flag. -/
namespace Gofly.ExporterDelivery
open Transition Roster

variable {δ : Type} {c : Config} {w v : World δ}

def Call.present (call : Call δ) : Bool :=
  match call.phase with
  | .running | .returned _ | .reported => true
  | .left | .gone => false

def Call.hung (call : Call δ) : Bool := call.timedOut && call.present

namespace Stage

def recording : Stage δ → Nat
  | .hang _ => 1
  | _ => 0

def delivering : Stage δ → Bool
  | .waiting | .allow _ | .ended => false
  | _ => true

def isHung : Stage δ → Bool
  | .hung _ => true
  | _ => false

def awaits : Stage δ → Bool
  | .await _ | .late _ => true
  | _ => false

def isLaunch : Stage δ → Bool
  | .launch _ => true
  | _ => false

end Stage

/-- A call that the worker times out has its flag still to read, and a probe is reserved
below the limit of hung calls. -/
def timely (c : Config) (w : World δ) : Act δ → Bool
  | .expire =>
    match w.stage with
    | .await i => (w.calls[i]?).all Call.present
    | _ => true
  | .callOn i =>
    match w.stage with
    | .late j => i ≠ j || (w.calls[i]?).all fun call => call.phase ≠ .reported
    | _ => true
  | .work =>
    match w.stage with
    | .allow _ => w.breakerOpenedAt = 0 || w.now - w.breakerOpenedAt < c.breakerCooldown || w.hungCalls < c.maxHungCalls
    | _ => true
  | _ => true

structure Held (c : Config) (w : World δ) : Prop where
  slot : w.inFlight = true → w.stage.isLaunch = true ∨ ∃ call ∈ w.calls, call.phase ≠ .gone
  awaits : ∀ i, w.stage = .await i ∨ w.stage = .late i → ∃ call, w.calls[i]? = some call ∧ call.timedOut = false
  late : ∀ i call, w.stage = .late i → w.calls[i]? = some call → call.present = true
  hung : w.hungCalls + w.stage.recording = w.calls.countP Call.hung
  probe : w.halfOpen = true → w.stage.delivering = true
  reserved : w.halfOpen = true → w.stage.isHung = true → w.hungCalls < c.maxHungCalls

theorem heldStart (now) : Held c (start now : World δ) where
  slot := by simp [start]
  awaits := by simp [start]
  late := by simp [start]
  hung := rfl
  probe := by simp [start]
  reserved := by simp [start]

section
variable (held : Held c w)
include held

theorem sendHeld (sends : Sends c w i d stage v) : Held c v := by
  cases sends <;> exact { held with }

theorem stageHeld (calls : v.calls = w.calls) (counter : v.hungCalls = w.hungCalls)
    (slot : v.inFlight = true → w.inFlight = true ∧ w.stage.isLaunch = false ∨ v.stage.isLaunch = true)
    (awaits : v.stage.awaits = false) (old : w.stage.recording = 0) (after : v.stage.recording = 0)
    (probe : v.halfOpen = true → v.stage.delivering = true)
    (reserved : v.halfOpen = true → v.stage.isHung = true → w.hungCalls < c.maxHungCalls) : Held c v where
  slot taken := by
    rw [calls]
    rcases slot taken with ⟨stood,ne⟩ | launching
    · rcases held.slot stood with launching | alive
      · rw [ne] at launching
        cases launching
      · exact .inr alive
    exact .inl launching
  awaits i waits := by rcases waits with same | same <;> simp [same,Stage.awaits] at awaits
  late i _ late := by simp [late,Stage.awaits] at awaits
  hung := by rw [calls,counter,after,← held.hung,old]
  probe := probe
  reserved set checks := counter ▸ reserved set checks

theorem callHeld (got : w.calls[i]? = some call) (next)
    (flag : next.timedOut = call.timedOut) (late : w.stage = .late i → next.present = true)
    (counter : v.hungCalls + call.hung.toNat = w.hungCalls + next.hung.toNat) (less : v.hungCalls ≤ w.hungCalls)
    (slot : v.inFlight = true → next.phase ≠ .gone) (calls : v.calls = w.calls.set i next) (stage : v.stage = w.stage)
    (halfOpen : v.halfOpen = w.halfOpen) : Held c v where
  slot taken := by
    rw [calls]
    exact .inr ⟨next,List.mem_of_getElem? (setHere got),slot taken⟩
  awaits j waits := by
    rw [stage] at waits
    obtain ⟨other,seen,fresh⟩ := held.awaits j waits
    rw [calls]
    by_cases here : i = j
    · subst here
      cases Option.mem_unique got seen
      exact ⟨next,setHere got,flag.trans fresh⟩
    exact ⟨other,setElsewhere here seen,fresh⟩
  late j other stands seen := by
    rw [stage] at stands
    rw [calls] at seen
    rcases setSeen seen with ⟨rfl,rfl⟩ | ⟨_,seen⟩
    · exact late stands
    exact held.late j other stands seen
  hung := by
    have count := countSet Call.hung got next
    have old := held.hung
    rw [calls,stage]
    omega
  probe set := by
    rw [halfOpen] at set
    rw [stage]
    exact held.probe set
  reserved set checks := by
    rw [halfOpen] at set
    rw [stage] at checks
    exact Int.lt_of_le_of_lt less (held.reserved set checks)

theorem workHeld (fits : timely c w .work = true) (works : Works c w v) : Held c v := by
  cases works with
  | refuse stands =>
    refine stageHeld held rfl rfl (fun taken => .inl ⟨taken,by simp [stands,Stage.isLaunch]⟩) rfl
      (by simp [stands,Stage.recording]) rfl ?_ nofun
    intro set
    simpa [stands,Stage.delivering] using held.probe set
  | allow stands =>
    refine stageHeld held rfl rfl (fun taken => .inl ⟨taken,by simp [stands,Stage.isLaunch]⟩) rfl
      (by simp [stands,Stage.recording]) rfl (fun _ => rfl) ?_
    intro set
    have delivering := held.probe set
    simp [stands,Stage.delivering] at delivering
  | probe stands opened cooled =>
    refine stageHeld held rfl rfl (fun taken => .inl ⟨taken,by simp [stands,Stage.isLaunch]⟩) rfl
      (by simp [stands,Stage.recording]) rfl (fun _ => rfl) ?_
    intro _ _
    simpa [timely,stands,opened,Nat.not_lt.mpr cooled] using fits
  | limit stands =>
    refine stageHeld held rfl rfl (fun taken => .inl ⟨taken,by simp [stands,Stage.isLaunch]⟩) rfl
      (by simp [stands,Stage.recording]) rfl ?_ nofun
    intro set
    have few := held.reserved set (by simp [stands,Stage.isHung])
    omega
  | pass stands | panicked stands | exported stands =>
    exact stageHeld held rfl rfl (fun taken => .inl ⟨taken,by simp [stands,Stage.isLaunch]⟩) rfl
      (by simp [stands,Stage.recording]) rfl (fun _ => rfl) nofun
  | busy stands taken | success stands | failure stands =>
    exact stageHeld held rfl rfl (fun taken => .inl ⟨taken,by simp [stands,Stage.isLaunch]⟩) rfl
      (by simp [stands,Stage.recording]) rfl nofun nofun
  | take stands =>
    exact stageHeld held rfl rfl (fun _ => .inr rfl) rfl (by simp [stands,Stage.recording]) rfl (fun _ => rfl) nofun
  | launch stands =>
    refine ⟨fun _ => .inr ⟨_,List.mem_append_right _ (List.mem_singleton_self _),nofun⟩,?_,nofun,?_,fun _ => rfl,nofun⟩
    · rintro i (same | same)
      · cases same
        exact ⟨_,List.getElem?_concat_length ..,rfl⟩
      · cases same
    have old := held.hung
    simp only [stands] at old
    simpa [Stage.recording,Call.hung] using old
  | @flag i call stands got =>
    obtain ⟨other,seen,fresh⟩ := held.awaits i (.inr stands)
    cases Option.mem_unique got seen
    have here := held.late i call stands got
    refine ⟨fun _ => ?_,nofun,nofun,?_,fun _ => rfl,nofun⟩
    · refine .inr ⟨_,List.mem_of_getElem? (setHere got),fun gone => ?_⟩
      simp [Call.present,show call.phase = .gone from gone] at here
    have old := held.hung
    have count := countSet Call.hung got { call with timedOut := true }
    have wasNot : call.hung = false := by simp [Call.hung,fresh]
    have isNow : Call.hung { call with timedOut := true } = true := here
    simp only [wasNot,isNow,Bool.toNat_false,Bool.toNat_true] at count
    simp only [stands,Stage.recording] at old ⊢
    omega
  | hang stands =>
    refine ⟨fun taken => ?_,nofun,nofun,?_,fun _ => rfl,nofun⟩
    · rcases held.slot taken with launching | alive
      · simp [stands,Stage.isLaunch] at launching
      · exact .inr alive
    have old := held.hung
    simp only [stands,Stage.recording] at old ⊢
    omega

theorem stepHeld (fits : timely c w a = true) (steps : Steps c w a v) : Held c v := by
  cases steps with
  | refused => exact held
  | send _ sends => exact sendHeld held sends
  | work works => exact workHeld held fits works
  | enter | done | tick | shut | closeReturn => exact { held with }
  | receive stands | drained stands =>
    refine stageHeld held rfl rfl (fun taken => .inl ⟨taken,by simp [stands,Stage.isLaunch]⟩) rfl
      (by simp [stands,Stage.recording]) rfl ?_ nofun
    intro set
    simpa [stands,Stage.delivering] using held.probe set
  | complete stands =>
    exact stageHeld held rfl rfl (fun taken => .inl ⟨taken,by simp [stands,Stage.isLaunch]⟩) rfl
      (by simp [stands,Stage.recording]) rfl (fun _ => rfl) nofun
  | @expire i _ stands got =>
    refine ⟨fun taken => ?_,fun j waits => ?_,fun j other same seen => ?_,?_,fun _ => rfl,nofun⟩
    · rcases held.slot taken with launching | alive
      · simp [stands,Stage.isLaunch] at launching
      · exact .inr alive
    · rcases waits with same | same <;> cases same
      exact held.awaits i (.inl stands)
    · cases same
      cases Option.mem_unique got seen
      simpa [timely,stands,got] using fits
    simpa [stands,Stage.recording] using held.hung
  | @finish i call panicked got phase =>
    have same : Call.present { call with phase := .returned panicked } = call.present := by simp [Call.present,phase]
    refine callHeld held got { call with phase := .returned panicked } rfl
      (fun late => same.trans (held.late i call late got)) ?_ (Int.le_refl _) nofun rfl rfl rfl
    simp only [Call.hung,same]
  | @report i call panicked got phase =>
    have same : Call.present { call with phase := .reported,completed := some panicked } = call.present := by
      simp [Call.present,phase]
    refine callHeld held got { call with phase := .reported,completed := some panicked } rfl
      (fun late => same.trans (held.late i call late got)) ?_ (Int.le_refl _) nofun rfl rfl rfl
    simp only [Call.hung,same]
  | @leave _ call got phase =>
    refine callHeld held got { call with phase := .left } rfl (fun late => ?_) ?_ ?_ nofun rfl rfl rfl
    · simp [timely,late,got,phase] at fits
    · cases flag : call.timedOut <;> simp [Call.hung,Call.present,flag,phase]
    dsimp only
    split <;> omega
  | @release i call got phase =>
    refine callHeld held got { call with phase := .gone } rfl (fun late => ?_) ?_ (Int.le_refl _) nofun rfl rfl rfl
    · have here := held.late i call late got
      simp [Call.present,phase] at here
    simp [Call.hung,Call.present,phase]
end

def World.records (w : World δ) : List δ := w.calls.map Call.record

theorem recordsPut (got : w.calls[i]? = some call) (calls : v.calls = w.calls.set i next)
    (eq : next.record = call.record) : v.records = w.records := by
  obtain ⟨mem,rfl⟩ := List.getElem_of_getElem? got
  have there : i < (w.calls.map Call.record).length := by simpa using mem
  rw [World.records,World.records,calls,List.map_set,eq,← List.getElem_map Call.record (h := there),
    List.set_getElem_self]

theorem recordsStep (steps : Steps c w a v) :
    v.records = w.records ∨ ∃ d, w.stage = .launch d ∧ v.records = w.records ++ [d] := by
  cases steps with
  | send _ sends => cases sends <;> exact .inl rfl
  | work works =>
    cases works with
    | launch stands => exact .inr ⟨_,stands,by simp [World.records]⟩
    | flag _ got => exact .inl (recordsPut got rfl rfl)
    | _ => exact .inl rfl
  | finish got | report got | leave got | release got => exact .inl (recordsPut got rfl rfl)
  | _ => exact .inl rfl

def Stage.deciding (c : Config) (d : δ) (w : World δ) : Prop :=
  match w.stage with
  | .waiting => w.queue.head? = some d ∧ w.inFlight = false ∧ w.halfOpen = false ∧ w.allowEnqueue c = true
  | .allow e => e = d ∧ w.inFlight = false ∧ w.halfOpen = false ∧ w.allowEnqueue c = true
  | .hung e | .slot e => e = d ∧ w.inFlight = false
  | .launch e => e = d
  | _ => False

structure Deciding (c : Config) (d : δ) (w : World δ) : Prop where
  place : Stage.deciding c d w
  calm : ∀ call ∈ w.calls, call.phase = .gone
  clear : w.hungCalls = 0

theorem decidingSend (deciding : Deciding c d w) (sends : Sends c w i e stage v) : Deciding c d v := by
  cases sends with
  | put =>
    refine { deciding with place := ?_ }
    have place := deciding.place
    simp only [Stage.deciding,World.putSender] at place ⊢
    split at place <;> try exact place
    refine ⟨?_,place.2⟩
    rw [List.head?_append,place.1]
    rfl
  | _ => exact { deciding with }

theorem decidingWork (deciding : Deciding c d w) (works : Works c w v) :
    v.records = w.records ∧ Deciding c d v ∨ v.records = w.records ++ [d] := by
  obtain ⟨place,calm,clear⟩ := deciding
  cases works with
  | refuse stands opened =>
    simp only [Stage.deciding,stands,World.allowEnqueue] at place
    simp [place.2.2.1] at opened place
    omega
  | allow stands | probe stands =>
    simp only [Stage.deciding,stands] at place
    exact .inl ⟨rfl,⟨place.1,place.2.1⟩,calm,clear⟩
  | limit =>
    have hangs := c.hangs
    omega
  | pass stands =>
    simp only [Stage.deciding,stands] at place
    exact .inl ⟨rfl,place,calm,clear⟩
  | busy stands taken =>
    simp only [Stage.deciding,stands,taken] at place
    cases place.2
  | take stands =>
    simp only [Stage.deciding,stands] at place
    exact .inl ⟨rfl,place.1,calm,clear⟩
  | launch stands =>
    simp only [Stage.deciding,stands] at place
    exact .inr (by simp [World.records,place])
  | flag stands | hang stands | panicked stands | exported stands | success stands | failure stands =>
    simp only [Stage.deciding,stands] at place

theorem decidingStep (deciding : Deciding c d w) (steps : Steps c w a v) :
    v.records = w.records ∧ Deciding c d v ∨ v.records = w.records ++ [d] := by
  obtain ⟨place,calm,clear⟩ := deciding
  have here : Deciding c d w := ⟨place,calm,clear⟩
  have busy {i : Nat} {call : Call δ} (got : w.calls[i]? = some call) : call.phase = .gone :=
    calm call (List.mem_of_getElem? got)
  cases steps with
  | send _ sends => exact .inl ⟨by cases sends <;> rfl,decidingSend here sends⟩
  | work works => exact decidingWork here works
  | receive stands first =>
    simp only [Stage.deciding,stands,first,List.head?_cons,Option.some.injEq] at place
    exact .inl ⟨rfl,⟨place,calm,clear⟩⟩
  | drained stands empty => simp [Stage.deciding,stands,empty] at place
  | complete stands | expire stands | closeReturn stands => simp only [Stage.deciding,stands] at place
  | finish got phase | report got phase | leave got phase | release got phase =>
    rw [busy got] at phase
    cases phase
  | tick =>
    refine .inl ⟨rfl,⟨?_,calm,clear⟩⟩
    simp only [Stage.deciding,World.allowEnqueue,Bool.or_eq_true,decide_eq_true_eq] at place ⊢
    split at place <;> try exact place
    · exact ⟨place.1,place.2.1,place.2.2.1,by omega⟩
    exact ⟨place.1,place.2.1,place.2.2.1,by omega⟩
  | refused | enter | done | shut => exact .inl ⟨rfl,⟨place,calm,clear⟩⟩

structure Handed (c : Config) (d : δ) (w : World δ) : Prop where
  reached : ∃ v, run (step c) w [.receive,.work,.work,.work,.work] = some v ∧ v.records = w.records ++ [d]
  kept : ∀ as v, Trace (step c) Free w as v →
    v.records = w.records ∧ Deciding c d v ∨ w.records ++ [d] <+: v.records

theorem decidingHanded (stands : w.stage = .waiting) (first : w.queue = d :: rest)
    (deciding : Deciding c d w) : Handed c d w where
  reached := by
    obtain ⟨place,calm,clear⟩ := deciding
    simp only [Stage.deciding,stands,World.allowEnqueue,Bool.or_eq_true,decide_eq_true_eq] at place
    obtain ⟨_,free,unset,cooled⟩ := place
    have few : ¬ (c.maxHungCalls : Int) ≤ w.hungCalls := by
      have hangs := c.hangs
      omega
    by_cases shut : w.breakerOpenedAt = 0
    · simp [run,step,stands,first,World.work,World.allowDelivery,shut,few,free,World.records]
    have cold : ¬ w.now - w.breakerOpenedAt < c.breakerCooldown := by omega
    simp [run,step,stands,first,World.work,World.allowDelivery,shut,cold,unset,few,free,World.records]
  kept as v trace := by
    refine traceInvariant (P := fun u => u.records = w.records ∧ Deciding c d u ∨ w.records ++ [d] <+: u.records) ?_ trace
      (.inl ⟨rfl,deciding⟩)
    rintro u a next (⟨eq,deciding⟩ | passed) _ ran
    · rcases decidingStep deciding (stepCases c ran) with ⟨kept,still⟩ | grown
      · exact .inl ⟨kept.trans eq,still⟩
      · exact .inr (grown.trans (congrArg (· ++ [d]) eq) ▸ List.prefix_refl _)
    refine .inr (passed.trans ?_)
    rcases recordsStep (stepCases c ran) with eq | ⟨e,_,grown⟩
    · exact eq ▸ List.prefix_refl _
    exact ⟨[e],grown.symm⟩

/-- In every timely run the counter counts the timed-out calls that still run, the flag belongs to
a delivery, and an idle exporter delivers. -/
theorem exporterUnjammed {now : Nat} {as : List (Act δ)}
    (ran : Trace (step c) (fun w a => timely c w a = true) (start now) as w) :
    w.hungCalls + w.stage.recording = w.calls.countP Call.hung ∧ (w.halfOpen = true → w.stage.delivering = true) ∧
      ((∀ call ∈ w.calls, call.phase = .gone) → w.stage.recording = 0 → w.hungCalls = 0) ∧
      ∀ d rest, (∀ call ∈ w.calls, call.phase = .gone) → w.allowEnqueue c = true → w.stage = .waiting →
        w.queue = d :: rest → Handed c d w := by
  have held : Held c w := traceInvariant (fun _ _ _ held fits moved => stepHeld held fits (stepCases c moved)) ran
    (heldStart now)
  have calm (gone : ∀ call ∈ w.calls, call.phase = .gone) : w.calls.countP Call.hung = 0 := by
    refine List.countP_eq_zero.mpr fun call member => ?_
    simp [Call.hung,Call.present,gone call member]
  have clear (gone : ∀ call ∈ w.calls, call.phase = .gone) (counted : w.stage.recording = 0) : w.hungCalls = 0 := by
    have total := held.hung
    rw [calm gone] at total
    omega
  refine ⟨held.hung,held.probe,clear,fun d rest gone cooled stands first => ?_⟩
  refine decidingHanded stands first ⟨?_,gone,clear gone (by rw [stands]; rfl)⟩
  have free : w.inFlight = false := by
    refine Bool.eq_false_iff.mpr fun taken => ?_
    rcases held.slot taken with launching | ⟨call,member,alive⟩
    · simp [stands,Stage.isLaunch] at launching
    · exact alive (gone call member)
  have unset : w.halfOpen = false := by
    refine Bool.eq_false_iff.mpr fun set => ?_
    simpa [stands,Stage.delivering] using held.probe set
  simp only [Stage.deciding,stands,first]
  exact ⟨rfl,free,unset,cooled⟩

def strict : Config where
  queueSize := 2
  timeout := 5
  maxHungCalls := 1
  breakerFailureThreshold := 1
  breakerCooldown := 10
  errorBudget := ⟨false,0,0,fun _ _ => false,fun _ _ => true⟩
  room := Nat.succ_pos 1
  lasts := Nat.succ_pos 4
  hangs := Nat.one_pos

def queued (i d : Nat) : List (Act Nat) := [Act.enter d,.send i,.send i,.send i,.send i,.send i]

def lateRun : List (Act Nat) :=
  queued 0 1 ++ [Act.receive,.work,.work,.work,.work,.tick 5,.finish 0 false,.callOn 0,.callOn 0,.callOn 0,
    .expire,.work,.work,.work]

def probeRun : List (Act Nat) :=
  queued 0 1 ++ [Act.enter 2,.send 1,.send 1,.receive,.work,.work,.work,.work,.tick 5,.expire,.work,.work,
    .work,.tick 10,.send 1,.send 1,.send 1,.receive,.work,.work,.finish 0 false,.callOn 0,.callOn 0,.callOn 0] ++
    queued 2 3

theorem exporterJams :
    (∃ w, run (step strict) (start 1) lateRun = some w ∧ w.calls.all (fun call => call.phase = .gone) = true ∧
      w.calls.countP Call.hung = 0 ∧ w.hungCalls = 1 ∧ w.stage = .waiting) ∧
    ∃ w v, run (step strict) (start 1) probeRun = some w ∧ w.calls.all (fun call => call.phase = .gone) = true ∧
      w.hungCalls = 0 ∧ w.allowEnqueue strict = true ∧ w.stage = .waiting ∧ w.queue = [3] ∧ w.halfOpen = true ∧
      run (step strict) w [.receive,.work] = some v ∧ v.queue = [] ∧ v.stage = .waiting ∧ v.records = w.records :=
  ⟨⟨_,rfl,rfl,rfl,rfl,rfl⟩,⟨_,_,rfl,rfl,rfl,rfl,rfl,rfl,rfl,rfl,rfl,rfl,rfl⟩⟩

theorem exporterHands : ∃ w, run (step strict) (start 1) (queued 0 7) = some w ∧ Handed strict 7 w := by
  have ok : accepts (step strict) (fun w a => timely strict w a = true) (start 1) (queued 0 7) = true := rfl
  obtain ⟨w,ran,trace⟩ := acceptedTrace ok
  refine ⟨w,ran,(exporterUnjammed trace).2.2.2 7 [] ?_ ?_ ?_ ?_⟩
  all_goals
    cases ran
    first | rfl | exact nofun

end Gofly.ExporterDelivery
