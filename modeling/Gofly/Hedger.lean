import Gofly.SingleFlight
/-! The hedger: the loop that starts attempts and takes their reports, one case of its select
at a time, beside the goroutines of the attempts. -/
namespace Gofly.Hedger
open Transition

variable {τ ε : Type}

inductive Attempt (τ ε : Type) where
  | running
  | returned (value : τ) (err : Option ε)
  | reported (value : τ) (err : Option ε)
  | cancelled
  deriving DecidableEq

/-- The channel is kept as all the reports ever sent and how many of them were received. -/
structure World (τ ε : Type) where
  attempts : List (Attempt τ ε)
  reports : List (τ × Option ε)
  received : Nat
  launched : Nat
  inflight : Nat
  lastErr : Option ε
  timer : Bool
  ended : Option ε
  answer : Option (Option τ × Option ε)
  deriving DecidableEq

def launch (w : World τ ε) : World τ ε :=
  { w with attempts := w.attempts ++ [.running],launched := w.launched + 1,inflight := w.inflight + 1 }
def start : World τ ε := launch ⟨[],[],0,0,0,none,true,none,none⟩

inductive Act (τ ε : Type) where
  | finish (i : Nat) (value : τ) (err : Option ε)
  | report (i : Nat)
  | cancel (i : Nat)
  | expire (err : ε)
  | context
  | timer
  | receive
  deriving DecidableEq

def receive (n : Nat) (w : World τ ε) : τ × Option ε → World τ ε
  | (value,none) => { w with received := w.received + 1,inflight := w.inflight - 1,answer := some (some value,none) }
  | (_,some err) =>
    let w := { w with received := w.received + 1,inflight := w.inflight - 1,lastErr := some err }
    if w.inflight = 0 then
      if w.launched ≤ n then launch w else { w with answer := some (none,w.lastErr) }
    else w

-- n is MaxHedges; the first four are the attempts' and the context's, the others the loop's
def step (n : Nat) (w : World τ ε) : Act τ ε → Option (World τ ε)
  | .finish i value err =>
    match w.attempts[i]? with
    | some .running => some { w with attempts := w.attempts.set i (.returned value err) }
    | _ => none
  | .report i =>
    match w.attempts[i]? with
    | some (.returned value err) =>
      if w.reports.length - w.received < n + 1 then
        some { w with attempts := w.attempts.set i (.reported value err),reports := w.reports ++ [(value,err)] }
      else none
    | _ => none
  | .cancel i =>
    match w.attempts[i]? with
    | some (.returned _ _) =>
      if w.answer.isSome || w.ended.isSome then some { w with attempts := w.attempts.set i .cancelled } else none
    | _ => none
  | .expire err => if w.ended.isNone then some { w with ended := some err } else none
  | .context => if w.answer.isNone then w.ended.map fun err => { w with answer := some (none,some err) } else none
  | .timer =>
    if w.answer.isNone && w.timer then
      let w := { w with timer := false }
      some (if w.launched ≤ n then launch w else w)
    else none
  | .receive => if w.answer.isNone then w.reports[w.received]?.map (receive n w) else none

def Attempt.result : Attempt τ ε → Option (τ × Option ε)
  | .reported value err => some (value,err)
  | _ => none

structure Sound (n : Nat) (w : World τ ε) : Prop where
  started : w.launched = w.attempts.length
  most : w.launched ≤ n + 1
  flight : w.inflight + w.received = w.launched
  taken : w.received ≤ w.reports.length
  sent : w.reports.Perm (w.attempts.filterMap Attempt.result)
  failed : w.answer = none → ∀ r ∈ w.reports.take w.received, r.2 ≠ none

variable {n : Nat} {w next : World τ ε}

theorem Sound.fits (sound : Sound n w) : w.reports.length ≤ w.launched := by
  rw [sound.started,sound.sent.length_eq]
  exact List.length_filterMap_le _ _

theorem setResults {list : List α} {f : α → Option β} (ith : list[i]? = some x) (silent : f x = none) (y) :
    ((list.set i y).filterMap f).Perm ((f y).toList ++ list.filterMap f) := by
  induction list generalizing i with
  | nil => simp at ith
  | cons z _ ih =>
    cases i with
    | zero =>
      cases ith
      cases told : f y <;> simp [silent,told]
    | succ =>
      have later := ih ith
      cases told : f z with
      | none => simpa [told] using later
      | some r =>
        simp only [List.set_cons_succ,List.filterMap_cons,told]
        exact (later.cons r).trans List.perm_middle.symm

section
variable (sound : Sound n w)
include sound

theorem launchSound (room : w.launched ≤ n) : Sound n (launch w) where
  started := by simp [launch,sound.started]
  most := Nat.succ_le_succ room
  flight := by simp only [launch,← sound.flight]; omega
  taken := sound.taken
  sent := by simpa [launch,List.filterMap_cons,Attempt.result] using sound.sent
  failed := sound.failed

theorem moveSound (ith : w.attempts[i]? = some x) (silent : x.result = none)
    (sends : reports = w.reports ++ y.result.toList) :
    Sound n { w with attempts := w.attempts.set i y,reports := reports } where
  started := by simpa using sound.started
  most := sound.most
  flight := sound.flight
  taken := by
    rw [sends,List.length_append]
    exact Nat.le_add_right_of_le sound.taken
  sent := by
    rw [sends]
    exact List.perm_append_comm.trans ((sound.sent.append_left _).trans (setResults ith silent y).symm)
  failed fresh r mem := by
    rw [sends,List.take_append_of_le_length sound.taken] at mem
    exact sound.failed fresh r mem

theorem nextFailed (fresh : w.answer = none) (got : w.reports[w.received]? = some (v,some err)) :
    ∀ r ∈ w.reports.take (w.received + 1), r.2 ≠ none := by
  intro r mem
  rw [List.take_add_one,got] at mem
  rcases Roster.addMem mem with old | rfl
  · exact sound.failed fresh r old
  simp

theorem receiveSound (fresh : w.answer = none) (got : w.reports[w.received]? = some r) :
    Sound n (receive n w r) := by
  have more := (List.getElem_of_getElem? got).1
  have fits := sound.fits
  have flight := sound.flight
  obtain ⟨value,err⟩ := r
  cases err with
  | none => exact { sound with flight := by simp only [receive]; omega,taken := more,failed := nofun }
  | some err =>
    have after : Sound n { w with received := w.received + 1,inflight := w.inflight - 1,lastErr := some err } :=
      { sound with
        flight := by simp only; omega
        taken := more
        failed := fun _ => nextFailed sound fresh got }
    unfold receive
    simp only
    split
    · split
      · exact launchSound after ‹_›
      · exact { after with failed := nofun }
    exact after

theorem stepSound (ran : step n w a = some next) : Sound n next := by
  cases a with
  | finish | report | cancel =>
    simp only [step] at ran
    split at ran <;> try contradiction
    try split at ran <;> try contradiction
    cases ran
    exact moveSound sound ‹_› rfl (by simp [Attempt.result])
  | expire =>
    simp only [step] at ran
    split at ran <;> cases ran
    exact { sound with }
  | context =>
    simp only [step] at ran
    split at ran <;> try contradiction
    obtain ⟨_,_,rfl⟩ := Option.map_eq_some_iff.mp ran
    exact { sound with failed := nofun }
  | timer =>
    simp only [step] at ran
    split at ran <;> cases ran
    split
    · exact launchSound { sound with } ‹_›
    exact { sound with }
  | receive =>
    simp only [step] at ran
    split at ran <;> try contradiction
    obtain ⟨_,got,rfl⟩ := Option.map_eq_some_iff.mp ran
    exact receiveSound sound (by simpa using ‹w.answer.isNone = true›) got
end

theorem traceSound (trace : Trace (step n) Free start as w) : Sound n w := by
  refine traceInvariant (fun _ _ _ sound _ ran => stepSound sound ran) trace ?_
  exact ⟨rfl,Nat.le_add_left _ _,rfl,Nat.le_refl _,.refl _,nofun⟩

theorem Sound.told (sound : Sound n w) : .reported v e ∈ w.attempts ↔ (v,e) ∈ w.reports := by
  rw [sound.sent.mem_iff,List.mem_filterMap]
  refine ⟨fun mem => ⟨_,mem,rfl⟩,fun ⟨x,mem,eq⟩ => ?_⟩
  cases x <;> cases eq
  exact mem

/-- What the call may return: the value of an attempt that returned no error, the error of the
caller's context, or the error reported last when every attempt was started and failed. -/
def Lawful (n : Nat) (w : World τ ε) (value : Option τ) : Option ε → Prop
  | none => ∃ v, value = some v ∧ .reported v none ∈ w.attempts
  | some err => w.ended = some err ∨ w.attempts.length = n + 1 ∧
    (∀ x ∈ w.attempts, ∃ v e, x = .reported v (some e)) ∧ ∃ v, w.reports.getLast? = some (v,some err)

theorem receiveLawful (sound : Sound n w) (fresh : w.answer = none) (got : w.reports[w.received]? = some r)
    (answers : (receive n w r).answer = some (value,err)) : Lawful n (receive n w r) value err := by
  obtain ⟨v,e⟩ := r
  cases e with
  | none =>
    cases answers
    exact ⟨v,rfl,sound.told.mpr (List.mem_of_getElem? got)⟩
  | some e =>
    have more := (List.getElem_of_getElem? got).1
    have fits := sound.fits
    have flight := sound.flight
    have most := sound.most
    simp only [receive] at answers ⊢
    split at answers
    · split at answers
      · exact absurd (fresh.symm.trans answers) (by simp)
      rename_i last all
      rw [if_pos last,if_neg all]
      cases answers
      have full : w.reports.length = w.received + 1 := by omega
      have started := sound.started
      refine .inr ⟨by simp only; omega,fun x mem => ?_,v,by rw [List.getLast?_eq_getElem?,full]; exact got⟩
      -- as many reports as attempts, so each attempt has sent one, and all were received as errors
      have sent := List.filterMap_length_eq_length.mp (show _ = w.attempts.length by
        rw [← sound.sent.length_eq]; omega) x mem
      cases x with
      | reported v e =>
        have failed := nextFailed sound fresh got (v,e)
        rw [← full,List.take_length,← sound.told] at failed
        obtain ⟨e,rfl⟩ := Option.ne_none_iff_exists'.mp (failed mem)
        exact ⟨v,e,rfl⟩
      | _ => contradiction
    exact absurd (fresh.symm.trans answers) (by simp)

theorem hedgedLawful (trace : Trace (step n) Free start as (w : World τ ε)) :
    w.attempts.length ≤ n + 1 ∧
    (∀ i v err, w.attempts[i]? = some (.returned v err) → (step n w (.report i)).isSome) ∧
    ∀ a next value err, step n w a = some next → w.answer = none → next.answer = some (value,err) →
      Lawful n next value err := by
  have sound := traceSound trace
  refine ⟨sound.started ▸ sound.most,fun i v err ith => ?_,fun a next value err ran fresh answers => ?_⟩
  · have fits := sound.fits
    have most := sound.most
    have unsent : w.reports.length ≠ w.attempts.length := by
      rw [sound.sent.length_eq]
      intro eq
      have sent := List.filterMap_length_eq_length.mp eq _ (List.mem_of_getElem? ith)
      contradiction
    have started := sound.started
    simp only [step,ith]
    rw [if_pos (by omega)]
    rfl
  cases a with
  | receive =>
    simp only [step,fresh] at ran
    obtain ⟨_,got,rfl⟩ := Option.map_eq_some_iff.mp ran
    exact receiveLawful sound fresh got answers
  | context =>
    simp only [step,fresh] at ran
    obtain ⟨_,ended,rfl⟩ := Option.map_eq_some_iff.mp ran
    cases answers
    exact .inl ended
  | finish | report | cancel | expire | timer =>
    have kept : next.answer = w.answer := by
      simp only [step] at ran
      repeat' split at ran
      all_goals cases ran
      all_goals rfl
    exact absurd (fresh.symm.trans (kept.symm.trans answers)) (by simp)

def reportsSwapped : List (Act Nat Nat) :=
  [.timer,.finish 0 0 (some 5),.finish 1 0 (some 6),.report 1,.report 0,.receive]

theorem bothFailedLawful : ∃ next : World Nat Nat, next.answer = some (none,some 5) ∧ Lawful 1 next none (some 5) := by
  have ran : run (step 1) start reportsSwapped = some _ := rfl
  have lawful := (hedgedLawful (runFree ran)).2.2 .receive _ none (some 5) rfl rfl rfl
  exact ⟨_,rfl,lawful⟩

-- a report that leaves nothing in flight starts the next attempt or answers
theorem busyStep (busy : w.answer = none → 0 < w.inflight) (ran : step n w a = some next) :
    next.answer = none → 0 < next.inflight := by
  cases a <;> grind [step,receive.eq_def,launch,Option.map_eq_some_iff]

/-- The loop never waits once every attempt has reported. -/
theorem reportsAwaited (trace : Trace (step n) Free start as w) (waits : w.answer = none) :
    (step n w .receive).isSome ∨ ∃ x ∈ w.attempts, x.result = none := by
  have busy := traceInvariant (fun _ _ _ busy _ ran => busyStep busy ran) trace (fun _ => Nat.one_pos) waits
  obtain ⟨started,_,flight,_,sent,_⟩ := traceSound trace
  by_contra idle
  push Not at idle
  have all := List.filterMap_length_eq_length.mpr fun x mem => Option.isSome_iff_ne_none.mpr (idle.2 x mem)
  rw [← sent.length_eq] at all
  have more : w.received < w.reports.length := by omega
  simp [step,waits,more] at idle

theorem swappedAwaited : ∃ w : World Nat Nat, (step 1 w .receive).isSome ∨ ∃ x ∈ w.attempts, x.result = none := by
  have ran : run (step 1) start reportsSwapped = some _ := rfl
  exact ⟨_,reportsAwaited (runFree ran) rfl⟩

def lastFinished (as : List (Act τ ε)) : Option (Option ε) :=
  (as.filterMap fun
    | .finish _ _ err => some err
    | _ => none).getLast?

-- the attempt that returned first reports last, and its error is the call's
theorem earlierErrorAnswers : ¬∀ as (w : World Nat Nat), Trace (step 1) Free start as w → w.ended = none →
    ∀ err, w.answer = some (none,some err) → lastFinished as = some (some err) := by
  intro last
  have ran : run (step 1) start (reportsSwapped ++ [.receive]) = some _ := rfl
  exact absurd (last _ _ (runFree ran) rfl 5 rfl) (by decide)

section
variable {π : Type} [Inhabited σ]

def enterAll (g : SingleFlight.World σ ε π) (key : String) : Nat → SingleFlight.World σ ε π
  | 0 => g
  | m + 1 => (enterAll g key m).enter key none

def executing (c : SingleFlight.Caller σ ε π) : Bool :=
  match c.phase with
  | .executing => true
  | _ => false

-- doCall: an attempt posts by itself, or through the group under the call's key
def requests (attempts : Nat) : Option (SingleFlight.World σ ε π × String) → Nat
  | none => attempts
  | some (g,key) => (enterAll g key attempts).callers.countP executing - g.callers.countP executing

theorem enterDirect (g : SingleFlight.World σ ε π) (m) :
    (enterAll g "" m).callers.countP executing = g.callers.countP executing + m := by
  induction m with
  | zero => rfl
  | succ m ih =>
    simp [enterAll,SingleFlight.World.enter,SingleFlight.World.join,List.countP_append,ih,executing]
    omega

theorem enterShared (g : SingleFlight.World σ ε π) (named : key ≠ "") (m) :
    (enterAll g key m).callers.countP executing + (if (enterAll g key m).calls key = none then 1 else 0) ≤
      g.callers.countP executing + 1 := by
  induction m with
  | zero =>
    refine Nat.add_le_add_left ?_ _
    split <;> decide
  | succ m ih =>
    simp only [enterAll,SingleFlight.World.enter,if_neg named]
    split
    · rename_i leads
      simp [leads] at ih
      simp [SingleFlight.World.join,SingleFlight.World.amend,leads,List.countP_append,executing]
      omega
    rename_i free
    simp [free] at ih
    simp [List.countP_append,executing]
    omega

/-- Neither an attempt returns nor the context ends. -/
def Act.quiet : Act τ ε → Bool
  | .finish _ _ _ | .expire _ => false
  | _ => true

structure Calm (w : World τ ε) : Prop where
  running : ∀ x ∈ w.attempts, x = .running
  reports : w.reports = []
  ended : w.ended = none
  launched : w.launched = if w.timer then 1 else 2
  started : w.attempts.length = w.launched

theorem stepCalm (hedges : 1 ≤ n) (calm : Calm w) (quiet : a.quiet = true) (ran : step n w a = some next) : Calm next := by
  cases a with
  | finish | expire => contradiction
  | report | cancel =>
    simp only [step] at ran
    split at ran <;> try contradiction
    rename_i ith
    cases calm.running _ (List.mem_of_getElem? ith)
  | context => simp [step,calm.ended] at ran
  | receive => simp [step,calm.reports] at ran
  | timer =>
    simp only [step] at ran
    split at ran <;> cases ran
    rename_i waits
    -- the timer is set once, so this is the only hedge a delay sends
    have launched := calm.launched
    have started := calm.started
    simp only [Bool.and_eq_true] at waits
    rw [waits.2,if_pos rfl] at launched
    rw [if_pos (show w.launched ≤ n by omega)]
    exact ⟨fun x mem => (Roster.addMem mem).elim (calm.running x) id,calm.reports,calm.ended,
      by simp [launch,launched],by simp [launch,started]⟩

end
end Gofly.Hedger
