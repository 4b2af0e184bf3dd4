import Gofly.ExporterHung
/-! A sink whose calls return in time and without a panic. -/
namespace Gofly.ExporterDelivery
open Transition Roster

variable {δ : Type} {c : Config} {w v : World δ}

/-- Every call of the wrapped exporter returns without a panic before its timeout. -/
def healthy (c : Config) (w : World δ) : Act δ → Bool
  | .finish _ panicked => !panicked
  | .tick n => w.calls.all fun call => call.phase ≠ .running || w.now + n < call.startedAt + c.timeout
  | _ => true

/-- The worker finds the slot free, and times out no call that has returned. -/
def prompt (w : World δ) : Act δ → Bool
  | .expire =>
    match w.stage with
    | .await i => (w.calls[i]?).all fun call => call.phase = .running
    | _ => true
  | .work =>
    match w.stage with
    | .slot _ => !w.inFlight
    | _ => true
  | _ => true

namespace Stage

def held : Stage δ → List δ
  | .allow d | .hung d | .slot d | .launch d => [d]
  | _ => []

def pending : Stage δ → Nat
  | .await _ | .completed _ _ => 1
  | _ => 0

def exporting (stage : Stage δ) : Nat := stage.held.length + stage.pending

def sound : Stage δ → Bool
  | .late _ | .hang _ | .failure | .completed _ true => false
  | _ => true

end Stage

def Sender.counting (sender : Sender δ) : Bool := sender.stage = .count

structure Call.Sound (c : Config) (now : Nat) (call : Call δ) : Prop where
  intime : call.phase = .running → now < call.startedAt + c.timeout
  unflagged : call.timedOut = false
  returned : call.phase ≠ .returned true
  reported : call.completed ≠ some true

structure Sound (c : Config) (w : World δ) : Prop where
  flow : w.sent = w.records ++ w.stage.held ++ w.queue
  counted : w.accepted + w.senders.countP Sender.counting = w.sent.length
  settled : w.exported + w.stage.pending = w.records.length
  stage : w.stage.sound = true
  calls : ∀ call ∈ w.calls, call.Sound c w.now
  shut : w.breakerOpenedAt = 0
  clear : w.hungCalls = 0

theorem soundStart (now) : Sound c (start now : World δ) where
  flow := rfl
  counted := rfl
  settled := rfl
  stage := rfl
  calls := nofun
  shut := rfl
  clear := rfl

section
variable (sound : Sound c w)
include sound

theorem sendSound (got : w.senders[i]? = some ⟨d,stage⟩)
    (sends : Sends c w i d stage v) : Sound c v := by
  have counts (next : SendStage) := countSet Sender.counting got ⟨d,next⟩
  have old := sound.counted
  cases sends with
  | quiet next _ _ _ was is =>
    refine { sound with counted := ?_ }
    have eq := counts next
    simp only [Sender.counting,was,is] at eq
    simp only [World.putSender]
    omega
  | put =>
    refine { sound with flow := ?_,counted := ?_ }
    · have flow := sound.flow
      simp only [World.putSender,World.records] at flow ⊢
      rw [flow,List.append_assoc]
    have more := counts .count
    simp [Sender.counting] at more
    simp only [World.putSender,List.length_append,List.length_singleton]
    omega
  | count =>
    refine { sound with counted := ?_ }
    have less := counts .done
    simp [Sender.counting] at less
    simp only [World.putSender]
    omega

theorem stageSound (recs : v.records = w.records) (sent : v.sent = w.sent)
    (ran : v.stage.held ++ v.queue = w.stage.held ++ w.queue)
    (counted : v.accepted = w.accepted ∧ v.senders = w.senders)
    (settled : v.exported + v.stage.pending = w.exported + w.stage.pending) (stage : v.stage.sound = true)
    (calls : v.calls = w.calls ∧ v.now = w.now) (shut : v.breakerOpenedAt = 0) (clear : v.hungCalls = w.hungCalls) :
    Sound c v where
  flow := by rw [sent,recs,List.append_assoc,ran,← List.append_assoc,sound.flow]
  counted := by rw [counted.1,counted.2,sent,sound.counted]
  settled := by rw [settled,recs,sound.settled]
  stage := stage
  calls := by
    rw [calls.1,calls.2]
    exact sound.calls
  shut := shut
  clear := clear.trans sound.clear

theorem workSound (fits : prompt w .work = true) (works : Works c w v) : Sound c v := by
  have stage := sound.stage
  cases works with
  | refuse _ opened => exact absurd sound.shut opened.1
  | probe _ opened => exact absurd sound.shut opened
  | limit =>
    have hangs := c.hangs
    have clear := sound.clear
    omega
  | busy stands taken => simp [prompt,stands,taken] at fits
  | flag stands | hang stands | failure stands | panicked stands => simp [stands,Stage.sound] at stage
  | allow stands | pass stands | take stands | exported stands =>
    exact stageSound sound rfl rfl (by simp [stands,Stage.held]) ⟨rfl,rfl⟩ (by simp [stands,Stage.pending]) rfl ⟨rfl,rfl⟩
      sound.shut rfl
  | success stands =>
    exact stageSound sound rfl rfl (by simp [stands,Stage.held]) ⟨rfl,rfl⟩ (by simp [stands,Stage.pending]) rfl ⟨rfl,rfl⟩
      rfl rfl
  | @launch _ stands =>
    refine ⟨?_,sound.counted,?_,rfl,?_,sound.shut,sound.clear⟩
    · simpa [stands,Stage.held,World.records] using sound.flow
    · simpa [stands,Stage.pending,World.records] using sound.settled
    intro call mem
    rcases addMem mem with old | rfl
    · exact sound.calls call old
    exact ⟨fun _ => Nat.lt_add_of_pos_right c.lasts,rfl,by simp,by simp⟩

theorem callSound (got : w.calls[i]? = some call)
    (calls : v.calls = w.calls.set i next) (eq : next.record = call.record) (fine : next.Sound c w.now)
    (rest : v.sent = w.sent ∧ v.stage = w.stage ∧ v.queue = w.queue ∧ v.accepted = w.accepted ∧ v.senders = w.senders ∧
      v.exported = w.exported ∧ v.now = w.now ∧ v.breakerOpenedAt = w.breakerOpenedAt ∧ v.hungCalls = w.hungCalls) :
    Sound c v := by
  obtain ⟨sent,stage,queue,ok,senders,exported,now,opened,clear⟩ := rest
  have recs := recordsPut got calls eq
  refine ⟨?_,?_,?_,stage ▸ sound.stage,?_,opened.trans sound.shut,clear.trans sound.clear⟩
  · rw [sent,recs,stage,queue,sound.flow]
  · rw [ok,senders,sent,sound.counted]
  · rw [exported,stage,recs,sound.settled]
  rw [calls,now]
  intro other mem
  rcases List.mem_or_eq_of_mem_set mem with old | rfl
  · exact sound.calls other old
  exact fine

theorem stepSound (well : healthy c w a = true) (fits : prompt w a = true)
    (steps : Steps c w a v) : Sound c v := by
  have fine {i : Nat} {call : Call δ} (got : w.calls[i]? = some call) : call.Sound c w.now :=
    sound.calls call (List.mem_of_getElem? got)
  cases steps with
  | refused => exact sound
  | send got sends => exact sendSound sound got sends
  | work works => exact workSound sound fits works
  | done | shut | closeReturn => exact { sound with }
  | enter =>
    refine { sound with counted := ?_ }
    simpa [Sender.counting] using sound.counted
  | receive stands first =>
    exact stageSound sound rfl rfl (by simp [stands,first,Stage.held]) ⟨rfl,rfl⟩ (by simp [stands,Stage.pending]) rfl
      ⟨rfl,rfl⟩ sound.shut rfl
  | drained stands =>
    exact stageSound sound rfl rfl (by simp [stands,Stage.held]) ⟨rfl,rfl⟩ (by simp [stands,Stage.pending]) rfl
      ⟨rfl,rfl⟩ sound.shut rfl
  | @complete _ _ panicked stands got sent =>
    have good : panicked = false := by
      cases panicked with
      | false => rfl
      | true => exact absurd sent (fine got).reported
    subst good
    exact stageSound sound rfl rfl (by simp [stands,Stage.held]) ⟨rfl,rfl⟩ (by simp [stands,Stage.pending]) rfl
      ⟨rfl,rfl⟩ sound.shut rfl
  | expire stands got =>
    simp only [prompt,stands,got,Option.all_some,decide_eq_true_eq] at fits
    have intime := (fine got).intime fits
    omega
  | @finish _ _ panicked got =>
    have good : panicked = false := by simpa [healthy] using well
    subst good
    obtain ⟨_,unflagged,_,reported⟩ := fine got
    refine callSound sound got rfl rfl ⟨nofun,unflagged,nofun,reported⟩ ?_
    exact ⟨rfl,rfl,rfl,rfl,rfl,rfl,rfl,rfl,rfl⟩
  | @report _ _ panicked got phase =>
    obtain ⟨_,unflagged,returned,_⟩ := fine got
    have good : panicked = false := by
      cases panicked with
      | false => rfl
      | true => exact absurd phase returned
    subst good
    refine callSound sound got rfl rfl ⟨nofun,unflagged,nofun,nofun⟩ ?_
    exact ⟨rfl,rfl,rfl,rfl,rfl,rfl,rfl,rfl,rfl⟩
  | @leave _ _ got =>
    obtain ⟨_,unflagged,_,reported⟩ := fine got
    refine callSound sound got rfl rfl ⟨nofun,unflagged,nofun,reported⟩ ?_
    exact ⟨rfl,rfl,rfl,rfl,rfl,rfl,rfl,rfl,by simp [unflagged]⟩
  | @release _ _ got =>
    obtain ⟨_,unflagged,_,reported⟩ := fine got
    refine callSound sound got rfl rfl ⟨nofun,unflagged,nofun,reported⟩ ?_
    exact ⟨rfl,rfl,rfl,rfl,rfl,rfl,rfl,rfl,rfl⟩
  | tick =>
    refine { sound with calls := fun call mem => ?_ }
    obtain ⟨_,unflagged,returned,reported⟩ := sound.calls call mem
    refine ⟨fun runs => ?_,unflagged,returned,reported⟩
    have intime := List.all_eq_true.mp well call mem
    simpa [runs] using intime
end

structure Closing (w : World δ) : Prop where
  inside : w.closed = true → ∀ sender ∈ w.senders, sender.stage = .done
  draining : w.draining = true → w.closed = true
  ended : w.stage = .ended → w.draining = true ∧ w.queue = []
  returned : w.closeReturned = true → w.stage = .ended

theorem closingStart (now) : Closing (start now : World δ) where
  inside := nofun
  draining := nofun
  ended := nofun
  returned := nofun

section
variable (closing : Closing w)
include closing

theorem sendClosing (got : w.senders[i]? = some ⟨d,stage⟩)
    (sends : Sends c w i d stage v) : Closing v := by
  have lives : w.closed = false := by
    refine Bool.eq_false_iff.mpr fun shut => ?_
    have done : stage = .done := closing.inside shut _ (List.mem_of_getElem? got)
    subst done
    cases sends
    contradiction
  have runs : w.stage ≠ .ended := by
    intro ended
    have shut := closing.draining (closing.ended ended).1
    rw [lives] at shut
    cases shut
  have shut (closed : w.closed = true) : False := by
    rw [lives] at closed
    cases closed
  cases sends <;>
    exact { closing with inside := fun closed => (shut closed).elim,ended := fun ended => absurd ended runs }

theorem stageClosing (old : w.stage ≠ .ended) (after : v.stage ≠ .ended)
    (eq : v.closed = w.closed ∧ v.senders = w.senders ∧ v.draining = w.draining ∧ v.closeReturned = w.closeReturned) :
    Closing v where
  inside shut := by
    rw [eq.2.1]
    exact closing.inside (eq.1 ▸ shut)
  draining drains := by
    rw [eq.1]
    exact closing.draining (eq.2.2.1 ▸ drains)
  ended ended := absurd ended after
  returned done := absurd (closing.returned (eq.2.2.2 ▸ done)) old

theorem workClosing (works : Works c w v) : Closing v := by
  cases works with
  | refuse stands | allow stands | probe stands | limit stands | pass stands | busy stands | take stands | launch stands
  | flag stands | hang stands | panicked stands | exported stands | success stands | failure stands =>
    exact stageClosing closing (by simp [stands]) nofun ⟨rfl,rfl,rfl,rfl⟩

theorem stepClosing (steps : Steps c w a v) : Closing v := by
  cases steps with
  | send got sends => exact sendClosing closing got sends
  | work works => exact workClosing closing works
  | enter lives =>
    refine { closing with inside := fun shut => ?_ }
    rw [lives] at shut
    cases shut
  | receive stands | complete stands | expire stands =>
    exact stageClosing closing (by simp [stands]) nofun ⟨rfl,rfl,rfl,rfl⟩
  | done stands shut =>
    refine ⟨closing.inside,fun _ => shut,fun ended => ?_,closing.returned⟩
    rw [stands] at ended
    cases ended
  | drained _ empty draining => exact ⟨closing.inside,closing.draining,fun _ => ⟨draining,empty⟩,fun _ => rfl⟩
  | shut _ outside => exact ⟨fun _ => outside,fun _ => rfl,closing.ended,closing.returned⟩
  | closeReturn stands => exact { closing with returned := fun _ => stands }
  | refused | finish | report | leave | release | tick => exact { closing with }
end

/-- In every prompt run of a healthy sink the queue is passed on in order, the counters balance,
and Close leaves nothing behind. -/
theorem recordsDelivered {now : Nat} {as : List (Act δ)}
    (ran : Trace (step c) (fun w a => healthy c w a = true ∧ prompt w a = true) (start now) as w) :
    w.sent = w.records ++ w.stage.held ++ w.queue ∧
      w.accepted + w.senders.countP Sender.counting = w.exported + w.queue.length + w.stage.exporting ∧
      (w.closeReturned = true → w.records = w.sent ∧ w.accepted = w.sent.length) := by
  obtain ⟨sound,closing⟩ := traceInvariant (P := fun w => Sound c w ∧ Closing w) (fun _ _ _ kept fits moved =>
      ⟨stepSound kept.1 fits.1 fits.2 (stepCases c moved),stepClosing kept.2 (stepCases c moved)⟩) ran
    ⟨soundStart now,closingStart now⟩
  have flow := sound.flow
  have counted := sound.counted
  have settled := sound.settled
  refine ⟨flow,?_,fun returned => ?_⟩
  · have lengths := congrArg List.length flow
    simp only [List.length_append] at lengths
    unfold Stage.exporting
    omega
  have stands := closing.returned returned
  obtain ⟨draining,empty⟩ := closing.ended stands
  have outside := closing.inside (closing.draining draining)
  have none : w.senders.countP Sender.counting = 0 := by
    refine List.countP_eq_zero.mpr fun sender member => ?_
    simp [Sender.counting,outside sender member]
  rw [stands,empty] at flow
  refine ⟨?_,by omega⟩
  simpa [Stage.held] using flow.symm

def closingRun : List (Act Nat) := [Act.shut,.done,.drained,.closeReturn]
def exportedOne (i : Nat) : List (Act Nat) :=
  [Act.receive,.work,.work,.work,.work,.finish i false,.callOn i,.complete,.work,.work]

theorem recordLost :
    let acts := queued 0 1 ++ queued 1 2 ++ exportedOne 0 ++ [Act.receive,.work,.work,.work] ++ closingRun
    ∃ w, run (step strict) (start 1) acts = some w ∧ accepts (step strict) (fun w a => healthy strict w a = true) (start 1) acts = true ∧
      w.closeReturned = true ∧ w.accepted = 2 ∧ w.exported = 1 ∧ w.sent = [1,2] ∧ w.records = [1] :=
  ⟨_,rfl,rfl,rfl,rfl,rfl,rfl,rfl⟩

theorem recordsDrained :
    ∃ w, run (step strict) (start 1) (queued 0 1 ++ queued 1 2 ++ exportedOne 0 ++ [Act.callOn 0,.callOn 0] ++ exportedOne 1 ++
      closingRun) = some w ∧ w.closeReturned = true ∧ w.records = w.sent ∧ w.accepted = w.sent.length := by
  have ok : accepts (step strict) (fun w a => healthy strict w a = true ∧ prompt w a = true) (start 1)
      (queued 0 1 ++ queued 1 2 ++ exportedOne 0 ++ [Act.callOn 0,.callOn 0] ++ exportedOne 1 ++ closingRun) = true := rfl
  obtain ⟨w,ran,trace⟩ := acceptedTrace ok
  have returned : w.closeReturned = true := by
    cases ran
    rfl
  exact ⟨w,ran,returned,(recordsDelivered trace).2.2 returned⟩

end Gofly.ExporterDelivery
