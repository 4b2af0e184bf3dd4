import Gofly.IdempotencyMemory

/-! What the in-memory store keeps: every entry belongs to the request that reserved it, which is
in its handler (or panicked there) while the entry is pending and has served what is stored. -/
namespace Gofly.IdempotencyReplay
open Transition Weights Idempotency IdempotencyMemory Roster
open Function (update update_of_ne update_self)

section
variable (sha256 : Bytes → Bytes) (config : IdempotencyConfig)

def Owns (closed : List Nat) (e : Entry) (phase : Phase) : Prop :=
  match e.resp with
  | none => phase = .running ∨ phase = .panicked
  | some c => c.origin = e.done ∧ e.done ∈ closed ∧ phase = .returned (.served c.resp) (some e.expiresAt)

structure Owner (w : World) (k : Bytes) (e : Entry) (s : Session) : Prop where
  listed : w.sessions[e.done]? = some s
  key : entryKey config s.request = k
  fingerprint : idempotencyFingerprint sha256 s.request = e.fingerprint
  owns : Owns w.closed e s.phase

structure Held (w : World) : Prop where
  owned : ∀ k e, w.entries k = some e → ∃ s, Owner sha256 config w k e s
  guards : ∀ (i : Nat) (s : Session), w.sessions[i]? = some s → guarding w.now s.phase = true →
    ∃ e, w.entries (entryKey config s.request) = some e ∧ e.done = i

def Awaits (w : World) : Prop :=
  ∀ (i : Nat) (s : Session), w.sessions[i]? = some s → waits s.phase = true →
    ∀ e, w.entries (entryKey config s.request) = some e → e.fingerprint = idempotencyFingerprint sha256 s.request

variable {sha256 config} {w next : World} {i : Nat} {s : Session}
theorem sweptFrom (got : sweep now entries k = some e) : entries k = some e := (Option.filter_eq_some_iff.mp got).1

theorem sweptKept (got : entries k = some e)
    (fresh : e.resp ≠ none → now ≤ e.expiresAt) : sweep now entries k = some e := by
  refine Option.filter_eq_some_iff.mpr ⟨got,?_⟩
  cases ready : e.resp with
  | none => simp
  | some =>
    have old := fresh (by simp [ready])
    simp only [Option.isSome_some,Bool.and_true,Bool.not_eq_true',decide_eq_false_iff_not]
    omega

theorem guardedFresh (owns : Owns w.closed e phase) (guard : guarding w.now phase = true) :
    e.resp ≠ none → w.now ≤ e.expiresAt := by
  intro ready
  rw [Owns] at owns
  split at owns
  · contradiction
  rw [owns.2.2] at guard
  simpa [guarding] using guard

theorem Held.swept (o : Held sha256 config w) : Held sha256 config { w with entries := sweep w.now w.entries } where
  owned k e found := by
    obtain ⟨s,owner⟩ := o.owned k e (sweptFrom found)
    exact ⟨s,owner.listed,owner.key,owner.fingerprint,owner.owns⟩
  guards i s ith guard := by
    obtain ⟨e,found,rfl⟩ := o.guards i s ith guard
    obtain ⟨t,owner⟩ := o.owned _ e found
    rw [owner.listed] at ith
    cases ith
    exact ⟨e,sweptKept found (guardedFresh owner.owns guard),rfl⟩

theorem Held.replace (o : Held sha256 config w) (ith : w.sessions[i]? = some s)
    (eq : t.request = s.request) (owns : ∀ e, Owns w.closed e s.phase → Owns w.closed e t.phase)
    (guards : guarding w.now t.phase = true → guarding w.now s.phase = true) :
    Held sha256 config { w with sessions := w.sessions.set i t } where
  owned k e found := by
    obtain ⟨q,owner⟩ := o.owned k e found
    by_cases here : e.done = i
    · have sole := owner.listed
      rw [here,ith] at sole
      cases sole
      refine ⟨t,?_,by rw [eq]; exact owner.key,by rw [eq]; exact owner.fingerprint,owns e owner.owns⟩
      rw [here]
      exact List.getElem?_set_self (List.getElem?_eq_some_iff.mp ith).1
    exact ⟨q,(List.getElem?_set_ne (Ne.symm here)).trans owner.listed,owner.key,owner.fingerprint,owner.owns⟩
  guards j u isAt guard := by
    rcases atSet ith isAt with ⟨rfl,rfl⟩ | ⟨_,was⟩
    · rw [eq]
      exact o.guards j s ith (guards guard)
    exact o.guards j u was guard

theorem quiet (now : phase = .reserving ∨ ∃ done, phase = .waiting done) (e) : ¬ Owns closed e phase := by
  intro owns
  rw [Owns] at owns
  rcases now with rfl | ⟨done,rfl⟩ <;> split at owns <;> simp at owns

theorem updatedAt {entries : Entries}
    (got : update entries a v k = some e) : (k = a ∧ v = some e) ∨ (k ≠ a ∧ entries k = some e) := by
  by_cases here : k = a
  · subst here
    rw [update_self] at got
    exact .inl ⟨rfl,got⟩
  rw [update_of_ne here] at got
  exact .inr ⟨here,got⟩

section
variable (o : Held sha256 config w)
include o

theorem Held.elsewhere (ith : w.sessions[i]? = some s)
    (differ : k ≠ entryKey config s.request) (got : w.entries k = some e) (t) :
    ∃ q, (w.sessions.set i t)[e.done]? = some q ∧ Owner sha256 config w k e q := by
  obtain ⟨q,owner⟩ := o.owned k e got
  have other : i ≠ e.done := by
    intro eq
    have sole := owner.listed
    rw [← eq,ith] at sole
    cases sole
    exact differ owner.key.symm
  exact ⟨q,(List.getElem?_set_ne other).trans owner.listed,owner⟩

theorem Held.spared (was : w.sessions[j]? = some u)
    (guard : guarding w.now u.phase = true) (rest : ∀ e, w.entries k = some e → e.done ≠ j) (v) :
    ∃ e, update w.entries k v (entryKey config u.request) = some e ∧ e.done = j := by
  obtain ⟨e,got,done⟩ := o.guards j u was guard
  refine ⟨e,(update_of_ne ?_ _ _).trans got,done⟩
  intro eq
  rw [eq] at got
  exact rest e got done

theorem Held.reserved (ith : w.sessions[i]? = some s)
    (free : w.entries (entryKey config s.request) = none) (expiresAt) :
    Held sha256 config { turn w i s .running with
      entries := update w.entries (entryKey config s.request)
        (some ⟨idempotencyFingerprint sha256 s.request,none,expiresAt,i⟩) } where
  owned k e found := by
    rcases updatedAt found with ⟨rfl,isNew⟩ | ⟨differ,found⟩
    · cases isNew
      exact ⟨_,List.getElem?_set_self (List.getElem_of_getElem? ith).1,rfl,rfl,.inl rfl⟩
    obtain ⟨q,still,owner⟩ := o.elsewhere ith differ found { s with phase := .running }
    exact ⟨q,still,owner.key,owner.fingerprint,owner.owns⟩
  guards j u isAt guard := by
    rcases atSet ith isAt with ⟨rfl,rfl⟩ | ⟨_,was⟩
    · exact ⟨_,update_self ..,rfl⟩
    exact o.spared was guard (fun e found => by rw [free] at found; cases found) _

theorem Held.running (ith : w.sessions[i]? = some s) (now : s.phase = .running) :
    ∃ e, w.entries (entryKey config s.request) = some e ∧ e.done = i ∧ e.resp = none ∧
      e.fingerprint = idempotencyFingerprint sha256 s.request := by
  obtain ⟨e,got,done⟩ := o.guards i s ith (by simp [now,guarding])
  obtain ⟨q,owner⟩ := o.owned _ e got
  have sole := owner.listed
  rw [done,ith] at sole
  cases sole
  refine ⟨e,got,done,?_,owner.fingerprint.symm⟩
  have owns := owner.owns
  rw [Owns] at owns
  split at owns
  · assumption
  rw [now] at owns
  cases owns.2.2
end

theorem Owns.later (grows : ∀ n ∈ closed, n ∈ more) (owns : Owns closed e phase) : Owns more e phase := by
  rw [Owns] at *
  split at owns
  · exact owns
  exact ⟨owns.1,grows _ owns.2.1,owns.2.2⟩

theorem Held.finished (o : Held sha256 config w) (ith : w.sessions[i]? = some s) (now : s.phase = .running)
    (status header body) : Held sha256 config (finish config w i s (.returned status header body)) := by
  obtain ⟨e,got,rfl,pending,fingerprint⟩ := o.running ith now
  have grows : ∀ n ∈ w.closed, n ∈ e.done :: w.closed := fun n mem => List.mem_cons_of_mem _ mem
  have own {j : Nat} (other : j ≠ e.done) (x : Entry) (isAt : w.entries (entryKey config s.request) = some x) : x.done ≠ j := by
    rw [got] at isAt
    cases isAt
    exact other.symm
  simp only [finish,complete,got]
  split
  · refine ⟨fun k x isAt => ?_,fun j u isAt guard => ?_⟩
    · rcases updatedAt isAt with ⟨rfl,isNew⟩ | ⟨differ,isOld⟩
      · cases isNew
        exact ⟨_,List.getElem?_set_self (List.getElem_of_getElem? ith).1,rfl,fingerprint.symm,rfl,
          List.mem_cons_self,rfl⟩
      · obtain ⟨q,still,owner⟩ := o.elsewhere ith differ isOld _
        exact ⟨q,still,owner.key,owner.fingerprint,owner.owns.later grows⟩
    · rcases atSet ith isAt with ⟨eq,rfl⟩ | ⟨other,was⟩
      · exact ⟨_,update_self ..,eq.symm⟩
      · exact o.spared was guard (own other) _
  refine ⟨fun k x isAt => ?_,fun j u isAt guard => ?_⟩
  · rcases updatedAt isAt with ⟨_,isNew⟩ | ⟨differ,isOld⟩
    · cases isNew
    · obtain ⟨q,still,owner⟩ := o.elsewhere ith differ isOld _
      exact ⟨q,still,owner.key,owner.fingerprint,owner.owns.later grows⟩
  rcases atSet ith isAt with ⟨eq,rfl⟩ | ⟨other,was⟩
  · cases guard
  exact o.spared was guard (own other) _

theorem guardEarlier (old : now ≤ later) (guard : guarding later phase = true) : guarding now phase = true := by
  unfold guarding at *
  split at guard <;> simp_all
  omega

theorem stepHeld (ran : step sha256 config w a = some next) (o : Held sha256 config w) : Held sha256 config next := by
  cases steppedOf ran with
  | tick =>
    refine ⟨fun k e got => ?_,fun j u isAt guard => ?_⟩
    · obtain ⟨q,owner⟩ := o.owned k e got
      exact ⟨q,owner.listed,owner.key,owner.fingerprint,owner.owns⟩
    exact o.guards j u isAt (guardEarlier (Nat.le_add_right _ _) guard)
  | arrived r =>
    refine ⟨fun k e got => ?_,fun j u isAt guard => ?_⟩
    · obtain ⟨q,owner⟩ := o.owned k e got
      exact ⟨q,addBehind owner.listed,owner.key,owner.fingerprint,owner.owns⟩
    rcases (addSeen isAt).symm with was | ⟨_,rfl⟩
    · exact o.guards j u was guard
    rcases arriveQuiet config r with now | now | ⟨err,now⟩ <;> rw [now] at guard <;> cases guard
  | cancelled ith => exact o.replace ith rfl (fun _ owns => owns) id
  | reserved ith _ free => exact o.swept.reserved ith free _
  | conflicted ith now | waited ith now =>
    exact o.swept.replace ith rfl (fun e owns => absurd owns (quiet (.inl now) e)) fun guard => by cases guard
  | woken ith now =>
    exact o.replace ith rfl (fun e owns => absurd owns (quiet (.inr ⟨_,now⟩) e)) fun guard => by cases guard
  | panicked ith now =>
    refine o.replace ith rfl (fun e owns => ?_) fun _ => by rw [now]; rfl
    rw [Owns,now] at owns
    rw [Owns]
    split at owns
    · exact .inr rfl
    cases owns.2.2
  | finished status header body ith now => exact o.finished ith now status header body

theorem startHeld (now) : Held sha256 config (start now) where
  owned k e found := by cases found
  guards i s listed := by simp [start] at listed

theorem startAwaits (now) : Awaits sha256 config (start now) := by
  intro i s ith
  simp [start] at ith

theorem heldOnce (o : Held sha256 config w) : AtMostOnce config w := by
  intro i j s t left right eq guard now
  obtain ⟨e,got,done⟩ := o.guards i s left guard
  obtain ⟨x,isHeld,done'⟩ := o.guards j t right (by rw [now]; rfl)
  rw [← eq,got] at isHeld
  cases isHeld
  exact done.symm.trans done'

def Suits (sha256 : Bytes → Bytes) (config : IdempotencyConfig) (w : World) (entries : Entries) : Prop :=
  ∀ k e, entries k = some e → (∃ old, w.entries k = some old ∧ old.fingerprint = e.fingerprint) ∨
    ∀ t ∈ w.sessions, waits t.phase = true → entryKey config t.request = k →
      e.fingerprint = idempotencyFingerprint sha256 t.request

theorem suitsSame : Suits sha256 config w w.entries := fun _ e got => .inl ⟨e,got,rfl⟩
theorem suitsSwept : Suits sha256 config w (sweep w.now w.entries) := fun _ e got => .inl ⟨e,sweptFrom got,rfl⟩

theorem Awaits.turned (o : Awaits sha256 config w) (ith : w.sessions[i]? = some s)
    (own : waits phase = true → ∀ e, entries (entryKey config s.request) = some e →
      e.fingerprint = idempotencyFingerprint sha256 s.request)
    (suits : Suits sha256 config w entries) : Awaits sha256 config { turn w i s phase with entries := entries } := by
  intro j t isAt isWaiting e got
  rcases atSet ith isAt with ⟨_,rfl⟩ | ⟨_,was⟩
  · exact own isWaiting e got
  rcases suits _ e got with ⟨old,isOld,eq⟩ | agreed
  · rw [← eq]
    exact o j t was isWaiting old isOld
  exact agreed t (List.mem_of_getElem? was) isWaiting rfl

theorem suitsReserved (fits : careful sha256 config w (.reserve i) = true) (ith : w.sessions[i]? = some s)
    (free : sweep w.now w.entries (entryKey config s.request) = none) (expiresAt) :
    Suits sha256 config w (update (sweep w.now w.entries) (entryKey config s.request)
      (some ⟨idempotencyFingerprint sha256 s.request,none,expiresAt,i⟩)) := by
  intro k e got
  rcases updatedAt got with ⟨rfl,isNew⟩ | ⟨_,isOld⟩
  · cases isNew
    refine .inr fun t mem isWaiting here => ?_
    simp only [careful,ith,Option.map_some,Option.getD_some,free,Option.isSome_none,Bool.false_or,
      List.all_eq_true] at fits
    have eq : idempotencyFingerprint sha256 t.request = idempotencyFingerprint sha256 s.request := by
      simpa [isWaiting,here] using fits t mem
    exact eq.symm
  exact suitsSwept k e isOld

theorem suitsCompleted (isHeld : w.entries (entryKey config s.request) = some e) (closed now c keep ttl) :
    Suits sha256 config w (complete w.entries closed now (entryKey config s.request) c keep ttl).1 := by
  intro k x got
  simp only [complete,isHeld] at got
  split at got
  · rcases updatedAt got with ⟨rfl,isNew⟩ | ⟨_,isOld⟩
    · cases isNew
      exact .inl ⟨e,isHeld,rfl⟩
    · exact suitsSame k x isOld
  rcases updatedAt got with ⟨_,isNew⟩ | ⟨_,isOld⟩
  · cases isNew
  exact suitsSame k x isOld

theorem stepAwaits (fits : careful sha256 config w a = true) (ran : step sha256 config w a = some next)
    (held : Held sha256 config w) (o : Awaits sha256 config w) : Awaits sha256 config next := by
  cases steppedOf ran with
  | tick => exact o
  | arrived r =>
    intro j t isAt isWaiting e got
    rcases (addSeen isAt).symm with was | ⟨_,rfl⟩
    · exact o j t was isWaiting e got
    rcases arriveQuiet config r with now | now | ⟨err,now⟩ <;> rw [now] at isWaiting <;> cases isWaiting
  | cancelled ith =>
    intro j t isAt isWaiting e got
    rcases atSet ith isAt with ⟨rfl,rfl⟩ | ⟨_,was⟩
    · exact o _ _ ith isWaiting e got
    exact o j t was isWaiting e got
  | reserved ith _ free => exact o.turned ith (fun wrong => by cases wrong) (suitsReserved fits ith free _)
  | conflicted ith => exact o.turned ith (fun wrong => by cases wrong) suitsSwept
  | waited ith _ taken isSame =>
    refine o.turned ith (fun _ e got => ?_) suitsSwept
    rw [taken] at got
    cases got
    exact isSame
  | woken ith | panicked ith => exact o.turned ith (fun wrong => by cases wrong) suitsSame
  | finished _ _ _ ith now =>
    obtain ⟨e,isHeld,_⟩ := held.running ith now
    exact o.turned ith (fun wrong => by cases wrong) (suitsCompleted isHeld _ _ _ _ _)

theorem stepReplays (ran : step sha256 config w a = some next) (held : Held sha256 config w)
    (awaits : Awaits sha256 config w) (o : Replays sha256 config w.sessions) : Replays sha256 config next.sessions := by
  cases steppedOf ran with
  | tick => exact o
  | arrived r => exact o.arrived r
  | cancelled ith => exact o.turned ith rfl (fun _ _ now => now) fun _ _ _ now => o _ _ _ _ _ ith now
  | reserved ith now | conflicted ith now | waited ith now | panicked ith now | finished _ _ _ ith now =>
    exact o.turned ith rfl (unanswered now (by simp)) fun _ _ _ wrong => by cases wrong
  | woken ith now =>
    rename_i i s done
    refine o.turned ith rfl (unanswered now (by simp)) fun origin wrote kept replays => ?_
    cases looked : wake w.entries (entryKey config s.request) with
    | none => simp [looked,replay,responseUnavailable] at replays
    | some c =>
      simp only [looked] at replays
      obtain ⟨⟨rfl,rfl⟩,_⟩ := replays
      obtain ⟨e,got,ready⟩ := Option.bind_eq_some_iff.mp looked
      obtain ⟨q,owner⟩ := held.owned _ e got
      have own := awaits i s ith (by rw [now]; rfl) e got
      have owns := owner.owns
      simp only [Owns,ready] at owns
      exact ⟨q,by rw [owns.1]; exact owner.listed,⟨c.resp,_,owns.2.2,rfl⟩,owner.key,owner.fingerprint.trans own⟩
end

theorem idempotentReplay (sha256 : Bytes → Bytes) (config : IdempotencyConfig) (now : Nat) (as : List Act) (w : World)
    (ran : Trace (step sha256 config) Free (start now) as w) : AtMostOnce config w ∧
      (Trace (step sha256 config) (fun w a => careful sha256 config w a = true) (start now) as w →
        Replays sha256 config w.sessions) := by
  refine ⟨heldOnce (traceInvariant (P := Held sha256 config) (fun _ _ _ o _ moved => stepHeld moved o) ran (startHeld now)),
    fun disciplined => ?_⟩
  have all := traceInvariant (P := fun w => Held sha256 config w ∧ Awaits sha256 config w ∧ Replays sha256 config w.sessions)
    (fun _ _ _ o fits moved =>
      ⟨stepHeld moved o.1,stepAwaits fits moved o.1 o.2.1,stepReplays moved o.1 o.2.1 o.2.2⟩) disciplined
    ⟨startHeld now,startAwaits now,replaysNone⟩
  exact all.2.2

def standard : IdempotencyConfig := resolveIdempotencyConfig ⟨"",0,0,false⟩
def pay (body rawQuery : String) : Request := ⟨bytes "POST",bytes "/pay",bytes rawQuery,fun _ => bytes " k1 ",bytes body,none⟩

def repeats : List Act :=
  [.arrive (pay "10" ""),.arrive (pay "10" ""),.reserve 0,.reserve 1,.finish 0 (.returned 201 [] [7]),.wake 1,
    .tick 86400000000001,.arrive (pay "20" ""),.reserve 2]

theorem idempotentReplayRepeated : ∃ w, w.sessions.map Session.phase =
        [.returned (.served ⟨201,[],[7]⟩) (some 86400000000000),
          .returned (.replayed 0 ⟨201,[("X-Idempotency-Replayed",["true"])],[7]⟩) none,.running] ∧
      AtMostOnce standard w ∧ Replays id standard w.sessions := by
  have accepted : accepts (step id standard) (fun w a => careful id standard w a = true) (start 0) repeats = true := by decide +kernel
  obtain ⟨w,ran,trace⟩ := acceptedTrace accepted
  have seen : ((run (step id standard) (start 0) repeats).map fun w => w.sessions.map Session.phase) =
      some [.returned (.served ⟨201,[],[7]⟩) (some 86400000000000),
        .returned (.replayed 0 ⟨201,[("X-Idempotency-Replayed",["true"])],[7]⟩) none,.running] := by decide +kernel
  rw [ran] at seen
  obtain ⟨once,replays⟩ := idempotentReplay id standard 0 repeats w (runFree ran)
  exact ⟨w,Option.some.inj seen,once,replays trace⟩

def retakes : List Act :=
  [.arrive (pay "10" ""),.arrive (pay "10" ""),.arrive (pay "20" ""),.reserve 0,.reserve 1,
    .finish 0 (.returned 500 [] []),.reserve 2,.finish 2 (.returned 201 [] [7]),.wake 1]

theorem waiterReplaysOther : ¬ ∀ as w, Trace (step id standard) Free (start 0) as w → Replays id standard w.sessions := by
  intro replays
  have seen : ((run (step id standard) (start 0) retakes).map fun w =>
      ((w.sessions[1]?.map Session.phase),w.sessions.map fun s => idempotencyFingerprint id s.request)) =
      some (some (.returned (.replayed 2 ⟨201,[("X-Idempotency-Replayed",["true"])],[7]⟩) none),
        [pay "10" "",pay "10" "",pay "20" ""].map (idempotencyFingerprint id)) := by decide +kernel
  obtain ⟨w,ran,facts⟩ := Option.map_eq_some_iff.mp seen
  simp only [Prod.mk.injEq] at facts
  obtain ⟨phase,prints⟩ := facts
  obtain ⟨s,listed,now⟩ := Option.map_eq_some_iff.mp phase
  obtain ⟨q,recorded⟩ := replays _ w (runFree ran) 1 s 2 _ none listed now
  have left := congrArg (fun prints => prints[1]?) prints
  have right := congrArg (fun prints => prints[2]?) prints
  simp only [List.getElem?_map,listed,recorded.listed,Option.map_some] at left right
  have same := recorded.fingerprint
  rw [Option.some.inj left,Option.some.inj right] at same
  exact absurd same (by decide)

end Gofly.IdempotencyReplay
