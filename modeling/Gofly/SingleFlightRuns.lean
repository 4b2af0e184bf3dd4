import Gofly.SingleFlight
/-! What the single-flight group keeps over whole runs. A joiner always gets the result of the
execution it joined. -/
namespace Gofly.SingleFlight
open Roster
open Transition

variable {τ ε π : Type} {w : World τ ε π} {a : Act τ ε π} {i : Nat} {c : Caller τ ε π}

structure Sound (w : World τ ε π) : Prop where
  unique : ∀ (i j : Nat) (a b : Caller τ ε π) (c : Nat), w.callers[i]? = some a → w.callers[j]? = some b →
    a.role = .leader c → b.role = .leader c → i = j
  bounded : ∀ (i : Nat) (a : Caller τ ε π) (c : Nat), w.callers[i]? = some a → a.role = .leader c → c < w.heap.length
  named : ∀ (i : Nat) (a : Caller τ ε π), w.callers[i]? = some a → a.phase = .executing → a.key ≠ "" →
    ∃ c, a.role = .leader c
  untold : ∀ (i : Nat) (a : Caller τ ε π), w.callers[i]? = some a → a.phase = .executing →
    a.outcome = none

theorem soundStart : Sound (start : World τ ε π) := ⟨by simp [start],by simp [start],by simp [start],by simp [start]⟩

theorem soundKept [Inhabited τ] (sound : Sound w) (stepped : Stepped w a next) : Sound next := by
  have moved := movedOf stepped
  refine ⟨?_,?_,?_,?_⟩
  · intro i j x y c seen also leads too
    rcases callerOf moved seen with ⟨d,old,older⟩ | ⟨last,new⟩
    · have low := sound.bounded i d c old (older.role ▸ leads)
      rcases callerOf moved also with ⟨e,earlier,young⟩ | ⟨-,new⟩
      · exact sound.unique i j d e c old earlier (older.role ▸ leads) (young.role ▸ too)
      exact absurd (new.led c too).1 (Nat.ne_of_lt low)
    rcases callerOf moved also with ⟨e,earlier,young⟩ | ⟨place,-⟩
    · have low := sound.bounded j e c earlier (young.role ▸ too)
      exact absurd (new.led c leads).1 (Nat.ne_of_lt low)
    exact last.trans place.symm
  · intro i x c seen leads
    rcases callerOf moved seen with ⟨d,old,older⟩ | ⟨-,new⟩
    · have low := sound.bounded i d c old (older.role ▸ leads)
      exact Nat.lt_of_lt_of_le low (heapGrows stepped)
    exact (new.led c leads).2.2.2
  · intro i x seen runs named
    rcases callerOf moved seen with ⟨d,old,older⟩ | ⟨-,new⟩
    · cases older.ran runs
      exact sound.named i x old runs named
    exact new.named runs named
  intro i x seen runs
  rcases callerOf moved seen with ⟨d,old,older⟩ | ⟨-,new⟩
  · cases older.ran runs
    exact sound.untold i x old runs
  exact new.untold

def Exclusive (w : World τ ε π) : Prop :=
  ∀ key, key ≠ "" → ∀ (i j : Nat) (a b : Caller τ ε π), w.callers[i]? = some a → w.callers[j]? = some b →
    a.key = key → b.key = key → w.forgotten key ≤ i → w.forgotten key ≤ j →
    a.phase = .executing → b.phase = .executing → i = j

/-- A leader leaves while its key is free or still holds its own call. -/
def unsuperseded (w : World τ ε π) : Act τ ε π → Bool
  | .leave i =>
    match w.callers[i]? with
    | some ⟨key,.leader c,_,_⟩ => (w.calls key).all (· == c)
    | _ => true
  | _ => true

def Unsuperseded (w : World τ ε π) (a : Act τ ε π) : Prop := unsuperseded w a = true
instance (w : World τ ε π) (a : Act τ ε π) : Decidable (Unsuperseded w a) :=
  inferInstanceAs (Decidable (_ = true))

def Entered (w : World τ ε π) : Prop :=
  ∀ (i : Nat) (a : Caller τ ε π) (c : Nat), w.callers[i]? = some a → a.role = .leader c →
    a.phase = .executing → w.forgotten a.key ≤ i → w.calls a.key = some c

theorem entryKept [Inhabited τ] (sound : Sound w)
    (ran : Stepped w a next) (fits : Unsuperseded w a) (seen : w.callers[i]? = some d)
    (leads : d.role = .leader k) (still : next.callers[i]? = some c) (runs : c.phase = .executing)
    (recent : next.forgotten d.key ≤ i)
    (held : w.forgotten d.key ≤ i → w.calls d.key = some k) : next.calls d.key = some k := by
  cases ran with
  | @led key _ free =>
    by_cases eq : d.key = key
    · rw [← eq,held recent] at free
      contradiction
    exact (markOther eq).trans (held recent)
  | @left i' c' key _ _ got =>
    by_cases eq : d.key = key
    · have own : k = c' := by simpa [Unsuperseded,unsuperseded,got,← eq,held recent] using fits
      have place := sound.unique i' i _ d k got seen (by simp [own]) leads
      subst place
      cases Option.some.inj ((setHere seen).symm.trans still)
      contradiction
    exact (markOther eq).trans (held recent)
  | forgot key =>
    obtain ⟨within,-⟩ := List.getElem_of_getElem? seen
    by_cases eq : d.key = key
    · simp only [World.forget,eq,markSelf] at recent
      omega
    simp only [World.forget,markOther eq] at recent
    exact (markOther eq).trans (held recent)
  | _ => exact held recent

theorem enteredKept [Inhabited τ] (sound : Sound w) (entered : Entered w)
    (stepped : Stepped w a next) (fits : Unsuperseded w a) : Entered next := by
  intro i x c seen leads runs recent
  rcases callerOf (movedOf stepped) seen with ⟨d,old,older⟩ | ⟨-,new⟩
  · cases older.ran runs
    exact entryKept sound stepped fits old leads seen runs recent (entered i x c old leads runs)
  exact (new.led c leads).2.2.1

theorem exclusiveOf (sound : Sound w) (entered : Entered w) : Exclusive w := by
  intro key named i j x y seen also mine yours early late runs too
  subst key
  obtain ⟨c,leads⟩ := sound.named i x seen runs named
  obtain ⟨d,follows⟩ := sound.named j y also too (yours ▸ named)
  have first := entered i x c seen leads runs early
  have second := entered j y d also follows too (yours ▸ late)
  rw [yours,first] at second
  cases second
  exact sound.unique i j x y c seen also leads follows

def Faithful (w : World τ ε π) : Prop :=
  ∀ (i : Nat) (a : Caller τ ε π) (c : Nat) (reply : Reply τ ε π), w.callers[i]? = some a →
    a.role = .joiner c → a.phase = .returned reply →
    ∃ (j : Nat) (b : Caller τ ε π) (outcome : Outcome τ ε π), w.callers[j]? = some b ∧
      b.role = .leader c ∧ b.outcome = some outcome ∧ reply = outcome.reply true

def Call.Holds (call : Call τ ε π) : Outcome τ ε π → Prop
  | .returned value err => call.value = value ∧ call.err = err ∧ call.panic = none
  | .panicked v => call.panic = some v

theorem holdsReply {call : Call τ ε π} (holds : call.Holds outcome)
    (shared) : call.reply shared = outcome.reply shared := by
  cases outcome with
  | returned value err =>
    obtain ⟨value,err,quiet⟩ := holds
    simp only [Call.reply,quiet,Outcome.reply,value,err]
  | panicked v => simp only [Call.reply,show call.panic = some v from holds,Outcome.reply]

theorem keepHolds {call : Call τ ε π} (quiet : call.panic = none) (outcome) : (call.keep outcome).Holds outcome := by
  cases outcome with
  | returned => exact ⟨rfl,rfl,quiet⟩
  | panicked => exact rfl

structure Settled (call : Call τ ε π) (a : Caller τ ε π) : Prop where
  running : a.outcome = none ↔ a.phase = .executing
  blank : a.outcome = none → call.done = false ∧ call.panic = none
  holds : ∀ outcome, a.outcome = some outcome → call.Holds outcome

def Led (w : World τ ε π) : Prop :=
  ∀ (c : Nat) (call : Call τ ε π), w.heap[c]? = some call →
    ∃ (i : Nat) (a : Caller τ ε π), w.callers[i]? = some a ∧ a.role = .leader c ∧ Settled call a

theorem settledDone {a : Caller τ ε π} (settled : Settled call a)
    (done : call.done = true) : ∃ outcome, a.outcome = some outcome ∧ call.Holds outcome := by
  cases told : a.outcome with
  | none =>
    have unfinished := (settled.blank told).1
    rw [done] at unfinished
    contradiction
  | some outcome => exact ⟨outcome,rfl,settled.holds outcome told⟩

theorem settledOn (done : Settled call ⟨key,role,phase,outcome⟩)
    (idle : phase ≠ .executing) (still : later ≠ .executing) : Settled call ⟨key,role,later,outcome⟩ := by
  have told : outcome ≠ none := fun untold => idle (done.running.mp untold)
  exact { done with running := by simp [told,still] }

theorem settledAmend (settled : Settled call x) (value : other.value = call.value) (err : other.err = call.err)
    (panic : other.panic = call.panic) (done : x.outcome = none → other.done = call.done) : Settled other x := by
  refine ⟨settled.running,fun untold => ?_,fun outcome told => ?_⟩
  · rw [done untold, panic]
    exact settled.blank untold
  have holds := settled.holds outcome told
  cases outcome <;> simpa only [Call.Holds,value,err, panic] using holds

theorem ledKept [Inhabited τ] (sound : Sound w) (led : Led w) (ran : Stepped w a next) : Led next := by
  intro c call called
  cases ran with
  | refused | bare =>
    obtain ⟨i,x,seen,leads,done⟩ := led c call called
    exact ⟨i,x,addBehind seen,leads,done⟩
  | @joined =>
    obtain ⟨old,was,rfl⟩ := modifySeen called
    obtain ⟨i,x,seen,leads,done⟩ := led c old was
    refine ⟨i,x,addBehind seen,leads,?_⟩
    split
    · exact settledAmend done rfl rfl rfl fun _ => rfl
    exact done
  | @led =>
    rcases addSeen called with ⟨rfl,rfl⟩ | before
    · exact ⟨w.callers.length,_,List.getElem?_concat_length,rfl,by simp,by simp,by simp⟩
    obtain ⟨i,x,seen,leads,done⟩ := led c call before
    exact ⟨i,x,addBehind seen,leads,done⟩
  | answered _ got | woken got | gaveUp _ got =>
    obtain ⟨i,x,seen,leads,done⟩ := led c call called
    exact ⟨i,x,setBeside Caller.role got seen (by simp [leads]),leads,done⟩
  | @completed i' c' _ _ outcome got =>
    obtain ⟨prior,was,rfl⟩ := modifySeen called
    obtain ⟨i,x,seen,leads,done⟩ := led c prior was
    by_cases eq : c' = c
    · subst c'
      obtain rfl := sound.unique i i' x _ c seen got leads rfl
      cases Option.mem_unique got seen
      have quiet := (done.blank (done.running.mpr rfl)).2
      refine ⟨i,_,setHere got,rfl,by simp,by simp,?_⟩
      intro told eq
      cases eq
      simpa using keepHolds quiet outcome
    rw [if_neg eq]
    exact ⟨i,x,setBeside Caller.role got seen (by simp [leads,eq]),leads,done⟩
  | @left i' c' _ _ _ got =>
    obtain ⟨i,x,seen,leads,done⟩ := led c call called
    by_cases eq : c' = c
    · subst c'
      obtain rfl := sound.unique i i' x _ c seen got leads rfl
      cases Option.mem_unique got seen
      exact ⟨i,_,setHere got,rfl,settledOn done (by simp) (by simp)⟩
    exact ⟨i,x,setBeside Caller.role got seen (by simp [leads,eq]),leads,done⟩
  | @closed i' c' key shared outcome call' got =>
    obtain ⟨prior,was,rfl⟩ := modifySeen called
    obtain ⟨i,x,seen,leads,done⟩ := led c prior was
    by_cases eq : c' = c
    · subst c'
      obtain rfl := sound.unique i i' x _ c seen got leads rfl
      cases Option.mem_unique got seen
      have later : Settled prior ⟨key,.leader c,.returned (call'.reply shared),outcome⟩ :=
        settledOn done (by simp) (by simp)
      rw [if_pos rfl]
      refine ⟨i,_,setHere got,rfl,settledAmend later rfl rfl rfl fun untold => ?_⟩
      exact absurd (done.running.mp untold) (by simp)
    rw [if_neg eq]
    exact ⟨i,x,setBeside Caller.role got seen (by simp [leads,eq]),leads,done⟩
  | forgot => exact led c call called

theorem returnedOf [Inhabited τ] (ran : Stepped w a next)
    (seen : next.callers[i]? = some c) (joins : c.role = .joiner k) (back : c.phase = .returned reply) :
    w.callers[i]? = some c ∨ ∃ call, w.heap[k]? = some call ∧ call.done = true ∧ reply = call.reply true := by
  cases ran with
  | refused | bare | joined | led =>
    rcases addSeen seen with ⟨-,rfl⟩ | before
    · simp at joins back
    exact .inl before
  | answered outcome got | completed outcome got | left got called
  | closed | gaveUp =>
    rcases setSeen seen with ⟨-,rfl⟩ | ⟨-,before⟩
    · simp at joins back
    exact .inl before
  | woken _ called done =>
    rcases setSeen seen with ⟨-,rfl⟩ | ⟨-,before⟩
    · cases joins
      cases back
      exact .inr ⟨_,called,done,rfl⟩
    exact .inl before
  | forgot => exact .inl seen

theorem faithfulKept [Inhabited τ] (sound : Sound w) (led : Led w) (faithful : Faithful w)
    (stepped : Stepped w a next) : Faithful next := by
  have ran := movedOf stepped
  have recorded : ∀ (j : Nat) (b : Caller τ ε π) (k : Nat) (outcome : Outcome τ ε π),
      w.callers[j]? = some b → b.role = .leader k → b.outcome = some outcome →
      ∃ b', next.callers[j]? = some b' ∧ b'.role = .leader k ∧ b'.outcome = some outcome := by
    intro j b k outcome seen leads told
    obtain ⟨b',later,older⟩ := callerLater ran seen
    have stopped : b.phase ≠ .executing := fun runs => by
      rw [sound.untold j b seen runs] at told
      contradiction
    exact ⟨b',later,older.role.trans leads,older.told outcome told stopped⟩
  intro i x k reply seen joins back
  rcases returnedOf stepped seen joins back with old | ⟨call,called,done,rfl⟩
  · obtain ⟨j,b,outcome,got,leads,told,eq⟩ := faithful i x k reply old joins back
    obtain ⟨b',got,leads,told⟩ := recorded j b k outcome got leads told
    exact ⟨j,b',outcome,got,leads,told,eq⟩
  obtain ⟨j,b,got,leads,settled⟩ := led k call called
  obtain ⟨outcome,told,holds⟩ := settledDone settled done
  obtain ⟨b',got,leads,told⟩ := recorded j b k outcome got leads told
  exact ⟨j,b',outcome,got,leads,told,holdsReply holds true⟩

theorem everyRunFaithful [Inhabited τ] (h : Trace step allowed start as w) : Sound w ∧ Led w ∧ Faithful w := by
  refine traceInvariant (P := fun w => Sound w ∧ Led w ∧ Faithful w)
    (fun w a next ⟨sound,led,faithful⟩ _ ran => ?_) h
    ⟨soundStart,by simp [Led,start],by simp [Faithful,start]⟩
  have stepped := steppedOf ran
  exact ⟨soundKept sound stepped,ledKept sound led stepped, faithfulKept sound led faithful stepped⟩

theorem unsupersededEntered [Inhabited τ] (h : Trace step Unsuperseded start as w) : Sound w ∧ Entered w := by
  refine traceInvariant (P := fun w => Sound w ∧ Entered w) (fun w a next ⟨sound,entered⟩ fits ran => ?_) h
    ⟨soundStart,by simp [Entered,start]⟩
  have stepped := steppedOf ran
  exact ⟨soundKept sound stepped,enteredKept sound entered stepped fits⟩

theorem unsupersededSingleFlight [Inhabited τ] (as : List (Act τ ε π)) (w : World τ ε π)
    (h : Trace step Unsuperseded start as w) : Exclusive w ∧ Faithful w := by
  obtain ⟨sound,entered⟩ := unsupersededEntered h
  exact ⟨exclusiveOf sound entered,(everyRunFaithful h).2.2⟩

def flown : List (Act Nat String String) :=
  [.enter "same" none,.enter "same" none,.forget "same",.complete 0 (.returned 7 none),
    .leave 0,.close 0,.wake 1,.enter "same" none]

theorem flownSingleFlight : ∃ w, Transition.run step start flown = some w ∧ w.callers.map Caller.phase =
      [.returned (.returned 7 true none),.returned (.returned 7 true none),.executing] ∧
    Exclusive w ∧ Faithful w := by
  have ok : accepts step Unsuperseded start flown = true := by decide
  have phases : (run step start flown).map (fun w => w.callers.map Caller.phase) =
      some [.returned (.returned 7 true none),.returned (.returned 7 true none), .executing] := by decide
  obtain ⟨w,ran,trace⟩ := acceptedTrace ok
  rw [ran] at phases
  exact ⟨w,ran,Option.some.inj phases,unsupersededSingleFlight flown w trace⟩

def superseded : List (Act Nat String String) :=
  [.enter "same" none,.forget "same",.enter "same" none,.complete 0 (.returned 1 none),
    .leave 0,.enter "same" none]

theorem supersededRunsTwo : (run step start superseded).map
    (fun w => (w.callers[1]?,w.callers[2]?,w.forgotten "same")) =
      some (some ⟨"same",.leader 1,.executing,none⟩,some ⟨"same",.leader 2,.executing,none⟩, 1) := by
  decide

theorem supersededLeaderBreaks : ¬ ∀ (as : List (Act Nat String String)) w,
    Trace step Free start as w → Exclusive w ∧ Faithful w := by
  intro law
  obtain ⟨w,ran,facts⟩ := Option.map_eq_some_iff.mp supersededRunsTwo
  simp only [Prod.mk.injEq] at facts
  obtain ⟨first,second,forgotten⟩ := facts
  have same := (law superseded w (runFree ran)).1 "same" (by decide) 1 2 _ _ first second
    rfl rfl (by omega) (by omega) rfl rfl
  contradiction

end Gofly.SingleFlight
