import Gofly.IdempotencyReplay
import Gofly.IdempotencyKV

/-! Whether two requests with one Idempotency-Key can be taken for each other. Entry key
and fingerprint together fix method, path and body; the raw query is in neither. -/
namespace Gofly.IdempotencyIdentity
open Transition Weights Idempotency KVStore IdempotencyKV

section
variable (sha256 : Bytes → Bytes) (config : IdempotencyConfig)

def alike (r q : Request) : Bool :=
  decide (r.key config = q.key config) && decide (r.method = q.method) && decide (r.path = q.path) && decide (r.body = q.body)

def Unmixed (sessions : List Session) : Prop :=
  ∀ (i j : Nat) (s q : Session) (written : StoredResponse) (kept : Option Nat), sessions[i]? = some s → sessions[j]? = some q →
    s.phase = .returned (.replayed j written) kept → s.request.key config = q.request.key config →
    s.request.method = q.request.method ∧ s.request.path = q.request.path ∧ s.request.rawQuery = q.request.rawQuery ∧
      s.sent = q.sent

def queried (sessions : List Session) (r : Request) : Bool :=
  sessions.all fun t => !alike config t.request r || decide (t.request.rawQuery = r.rawQuery)

def carefulMemory (w : IdempotencyMemory.World) (a : IdempotencyMemory.Act) : Bool :=
  IdempotencyMemory.careful sha256 config w a &&
    match a with
    | .arrive r => queried config w.sessions r
    | _ => true

def carefulKV (w : IdempotencyKV.World) : IdempotencyKV.Act → Bool
  | .arrive r => queried config w.sessions r
  | _ => true

structure Queries (sessions : List Session) : Prop where
  whole : ∀ s ∈ sessions, s.sent = s.request.body
  raw : ∀ s ∈ sessions, ∀ t ∈ sessions, alike config s.request t.request = true → s.request.rawQuery = t.request.rawQuery

variable {sha256 config} {i : Nat}
theorem alikeSymm : alike config r q = alike config q r := by simp only [alike,eq_comm]

theorem queriesNone : Queries config [] := ⟨nofun,nofun⟩

theorem Queries.turned (o : Queries config sessions) (ith : sessions[i]? = some s) (eq : t.request = s.request)
    (sent : t.sent = s.sent) : Queries config (sessions.set i t) := by
  have from_ {u : Session} (mem : u ∈ sessions.set i t) : ∃ v ∈ sessions, v.request = u.request := by
    rcases List.mem_or_eq_of_mem_set mem with was | rfl
    · exact ⟨u,was,rfl⟩
    exact ⟨s,List.mem_of_getElem? ith,eq.symm⟩
  refine ⟨fun u mem => ?_,fun u isIn v isIn' like => ?_⟩
  · rcases List.mem_or_eq_of_mem_set mem with was | rfl
    · exact o.whole u was
    rw [sent,eq]
    exact o.whole s (List.mem_of_getElem? ith)
  obtain ⟨x,was,left⟩ := from_ isIn
  obtain ⟨y,was',right⟩ := from_ isIn'
  rw [← left,← right] at like ⊢
  exact o.raw x was y was' like

theorem Queries.arrived (bounded : config.maxBodyBytes < Int64.maxValue) (o : Queries config sessions)
    (fits : queried config sessions r = true) : Queries config (sessions ++ [arrive config r]) := by
  have known : ∀ u ∈ sessions, alike config u.request r = true → u.request.rawQuery = r.rawQuery := by
    intro u mem like
    simp only [queried,List.all_eq_true] at fits
    simpa [like] using fits u mem
  obtain ⟨request,sent⟩ := arriveWhole bounded r
  refine ⟨fun u mem => ?_,fun u isIn v isIn' like => ?_⟩
  · rcases Roster.addMem mem with was | rfl
    · exact o.whole u was
    · rw [sent,request]
  rcases List.mem_append.mp isIn with was | isNew
  · rcases List.mem_append.mp isIn' with was' | isNew'
    · exact o.raw u was v was' like
    · cases List.mem_singleton.mp isNew'
      rw [request] at like ⊢
      exact known u was like
  cases List.mem_singleton.mp isNew
  rcases List.mem_append.mp isIn' with was' | isNew'
  · rw [request] at like ⊢
    exact (known v was' (alikeSymm.trans like)).symm
  cases List.mem_singleton.mp isNew'
  rfl

theorem memoryQueries (bounded : config.maxBodyBytes < Int64.maxValue)
    (fits : carefulMemory sha256 config w a = true) (ran : IdempotencyMemory.step sha256 config w a = some next)
    (o : Queries config w.sessions) : Queries config next.sessions := by
  cases IdempotencyMemory.steppedOf ran with
  | tick => exact o
  | arrived =>
    simp only [carefulMemory,Bool.and_eq_true] at fits
    exact o.arrived bounded fits.2
  | cancelled ith => exact o.turned ith rfl rfl
  | reserved ith | conflicted ith | waited ith | woken ith | panicked ith | finished _ _ _ ith =>
    exact o.turned ith rfl rfl

theorem kvQueries (bounded : config.maxBodyBytes < Int64.maxValue) (fits : carefulKV config w a = true)
    (ran : step sha256 config w a = some next) (o : Queries config w.sessions) :
    Queries config next.sessions := by
  cases steppedOf ran with
  | tick => exact o
  | arrived => exact o.arrived bounded fits
  | cancelled ith => exact o.turned ith rfl rfl
  | refused ith | reserved ith | lost ith | looked ith | panicked ith | unwritten _ _ _ ith
  | written _ _ _ ith => exact o.turned ith rfl rfl

theorem unmixed (injective : Function.Injective sha256) (replays : Replays sha256 config sessions)
    (queries : Queries config sessions) : Unmixed config sessions := by
  intro i j s q wrote kept isAt isFrom now key
  obtain ⟨p,recorded⟩ := replays i s j wrote kept isAt now
  have eq := recorded.listed
  rw [isFrom] at eq
  cases eq
  obtain ⟨method,path,body⟩ := sameRequest (fun _ _ equal => injective equal) key recorded.key.symm recorded.fingerprint.symm
  have isIn := List.mem_of_getElem? isAt
  have isIn' := List.mem_of_getElem? isFrom
  refine ⟨method,path,?_,by rw [queries.whole s isIn,queries.whole q isIn',body]⟩
  exact queries.raw s isIn q isIn' (by simp [alike,key,method,path,body])

def Filed (sha256 : Bytes → Bytes) (config : IdempotencyConfig) (store : IdempotencyKV.Records) (sessions : List Session) : Prop :=
  ∀ k e c, store k = some e → e.value.resp = some c →
    ∃ q, sessions[c.origin]? = some q ∧ (∃ kept, q.phase = .returned (.served c.resp) kept) ∧
      entryKey config q.request = k ∧ idempotencyFingerprint sha256 q.request = e.value.fingerprint

theorem filedNone : Filed sha256 config (fun _ => none) [] := by
  intro k e c got
  cases got

theorem Filed.turned (o : Filed sha256 config store sessions) (ith : sessions[i]? = some s)
    (eq : t.request = s.request)
    (final : ∀ reply kept, s.phase = .returned reply kept → t.phase = .returned reply kept) :
    Filed sha256 config store (sessions.set i t) := by
  intro k e c got ready
  obtain ⟨q,isAt,⟨kept,phase⟩,key,fingerprint⟩ := o k e c got ready
  by_cases here : i = c.origin
  · rw [here,isAt] at ith
    cases ith
    refine ⟨t,?_,⟨kept,final _ _ phase⟩,by rw [eq,key],by rw [eq,fingerprint]⟩
    rw [here]
    exact List.getElem?_set_self (List.getElem_of_getElem? isAt).1
  exact ⟨q,(List.getElem?_set_ne here).trans isAt,⟨kept,phase⟩,key,fingerprint⟩

theorem Filed.fewer (o : Filed sha256 config store sessions)
    (fewer : ∀ k e, after k = some e → store k = some e ∨ e.value.resp = none) : Filed sha256 config after sessions := by
  intro k e c got ready
  rcases fewer k e got with was | pending
  · exact o k e c was ready
  rw [pending] at ready
  cases ready

theorem stepFiled (ran : step sha256 config w a = some next)
    (o : Filed sha256 config w.store w.sessions) : Filed sha256 config next.store next.sessions := by
  cases steppedOf ran with
  | tick => exact o
  | arrived =>
    intro k e c got ready
    obtain ⟨q,isAt,rest⟩ := o k e c got ready
    exact ⟨q,Roster.addBehind isAt,rest⟩
  | cancelled ith => exact o.turned ith rfl fun _ _ now => now
  | refused ith now | lost ith now | panicked ith now | unwritten _ _ _ ith now => exact o.turned ith rfl (unanswered now (by simp))
  | reserved ith now =>
    refine Filed.fewer (o.turned ith rfl (unanswered now (by simp))) fun k e got => ?_
    rcases setNXAt got with isNew | was
    · exact .inr (by rw [isNew])
    exact .inl was
  | looked ith now =>
    refine Filed.fewer (o.turned ith rfl (unanswered now (by simp))) fun k e got => ?_
    exact .inl (getLockedFewer got)
  | written status header body ith now kept =>
    rename_i i s
    have still : Filed sha256 config w.store
        (w.sessions.set i { s with phase := .returned (.served (stored status header body)) kept }) :=
      o.turned ith rfl (unanswered now (by simp))
    intro k e c got ready
    simp only [complete] at got
    split at got
    · rcases setAt got with ⟨rfl,isNew⟩ | was
      · rw [isNew] at ready ⊢
        cases ready
        exact ⟨_,List.getElem?_set_self (List.getElem_of_getElem? ith).1,⟨kept,rfl⟩,rfl,rfl⟩
      · exact still k e c was ready
    exact still k e c (deleteFewer got) ready

theorem kvReplays (ran : step sha256 config w a = some next)
    (filed : Filed sha256 config w.store w.sessions) (o : Replays sha256 config w.sessions) :
    Replays sha256 config next.sessions := by
  cases steppedOf ran with
  | tick => exact o
  | arrived r => exact o.arrived r
  | cancelled ith => exact o.turned ith rfl (fun _ _ now => now) fun _ _ _ now => o _ _ _ _ _ ith now
  | reserved ith now begins =>
    refine o.turned ith rfl (unanswered now (by simp)) fun _ _ _ wrong => ?_
    rcases begins with rfl | rfl <;> cases wrong
  | refused ith now | lost ith now | panicked ith now | unwritten _ _ _ ith now | written _ _ _ ith now =>
    exact o.turned ith rfl (unanswered now (by simp)) fun _ _ _ wrong => by cases wrong
  | looked ith now =>
    rename_i s
    refine o.turned ith rfl (unanswered now (by simp)) fun origin written kept replays => ?_
    simp only [Phase.returned.injEq] at replays
    obtain ⟨got,_⟩ := replays
    rw [(getExact ..).1] at got
    cases looked : find w.store w.now (entryKey config s.request) with
    | none => simp [looked,check,conflicts] at got
    | some e =>
      rw [looked] at got
      simp only [Option.map_some,check] at got
      split at got
      · simp [conflicts] at got
      rename_i eq
      split at got
      · simp [conflicts] at got
      rename_i c ready
      obtain ⟨rfl,rfl⟩ := got
      obtain ⟨q,isAt,⟨kept,phase⟩,key,fingerprint⟩ := filed _ e c (findExact.mp looked).1 ready
      exact ⟨q,isAt,⟨c.resp,kept,phase,rfl⟩,key,fingerprint.trans (by simpa using eq)⟩
end

theorem requestsApart (sha256 : Bytes → Bytes) (injective : Function.Injective sha256) (config : IdempotencyConfig)
    (bounded : config.maxBodyBytes < Int64.maxValue) (now : Nat) :
    (∀ as w, Trace (IdempotencyMemory.step sha256 config) (fun w a => carefulMemory sha256 config w a = true)
      (IdempotencyMemory.start now) as w → Unmixed config w.sessions) ∧
    ∀ as w, Trace (IdempotencyKV.step sha256 config) (fun w a => carefulKV config w a = true)
      (IdempotencyKV.start now) as w → Unmixed config w.sessions := by
  constructor
  · intro as w ran
    have all := traceInvariant (P := fun w => IdempotencyReplay.Held sha256 config w ∧ IdempotencyReplay.Awaits sha256 config w ∧
        Replays sha256 config w.sessions ∧ Queries config w.sessions)
      (fun w a _ o fits moved => by
        have careful : IdempotencyMemory.careful sha256 config w a = true := by
          simp only [carefulMemory,Bool.and_eq_true] at fits
          exact fits.1
        exact ⟨IdempotencyReplay.stepHeld moved o.1,IdempotencyReplay.stepAwaits careful moved o.1 o.2.1,
          IdempotencyReplay.stepReplays moved o.1 o.2.1 o.2.2.1,memoryQueries bounded fits moved o.2.2.2⟩) ran
      ⟨IdempotencyReplay.startHeld now,IdempotencyReplay.startAwaits now,replaysNone,queriesNone⟩
    exact unmixed injective all.2.2.1 all.2.2.2
  intro as w ran
  have all := traceInvariant (P := fun w => Filed sha256 config w.store w.sessions ∧ Replays sha256 config w.sessions ∧
      Queries config w.sessions)
    (fun _ _ _ o fits moved => ⟨stepFiled moved o.1,kvReplays moved o.1 o.2.1,kvQueries bounded fits moved o.2.2⟩) ran
    ⟨filedNone,replaysNone,queriesNone⟩
  exact unmixed injective all.2.1 all.2.2

open IdempotencyReplay

theorem requestsApartRepeated : ∃ w : IdempotencyMemory.World, w.sessions.map Session.phase =
        [.returned (.served ⟨201,[],[7]⟩) (some 86400000000000),
          .returned (.replayed 0 ⟨201,[("X-Idempotency-Replayed",["true"])],[7]⟩) none,.running] ∧
      Unmixed standard w.sessions := by
  have accepted : accepts (IdempotencyMemory.step id standard) (fun w a => carefulMemory id standard w a = true)
      (IdempotencyMemory.start 0) repeats = true := by decide +kernel
  obtain ⟨w,ran,trace⟩ := acceptedTrace accepted
  have seen : ((run (IdempotencyMemory.step id standard) (IdempotencyMemory.start 0) repeats).map fun w =>
      w.sessions.map Session.phase) =
      some [.returned (.served ⟨201,[],[7]⟩) (some 86400000000000),
        .returned (.replayed 0 ⟨201,[("X-Idempotency-Replayed",["true"])],[7]⟩) none,.running] := by decide +kernel
  rw [ran] at seen
  exact ⟨w,Option.some.inj seen,(requestsApart id Function.injective_id standard (by decide) 0).1 repeats w trace⟩

theorem mixed (seen : sessions.map (fun s => (s.phase,s.request.key config,s.request.rawQuery)) =
      [(first,key,left),(.returned (.replayed 0 wrote) kept,key,right)]) (differ : right ≠ left) :
    ¬ Unmixed config sessions := by
  intro unmixed
  obtain ⟨q,others,rfl,isFirst,rest⟩ := List.map_eq_cons_iff.mp seen
  obtain ⟨s,_,rfl,isSecond,_⟩ := List.map_eq_cons_iff.mp rest
  simp only [Prod.mk.injEq] at isFirst isSecond
  have eq := unmixed 1 0 s q wrote kept rfl rfl isSecond.1 (isSecond.2.1.trans isFirst.2.1.symm)
  exact differ (isSecond.2.2.symm.trans (eq.2.2.1.trans isFirst.2.2))

def faces (sessions : List Session) : List (Phase × Bytes × Bytes) :=
  sessions.map fun s => (s.phase,s.request.key standard,s.request.rawQuery)

def crossed : List (Phase × Bytes × Bytes) :=
  [(.returned (.served ⟨201,[],[7]⟩) (some 86400000000000),bytes "k1",bytes "usd"),
    (.returned (.replayed 0 ⟨201,[("X-Idempotency-Replayed",["true"])],[7]⟩) none,bytes "k1",bytes "eur")]

theorem queryIgnored : Function.Injective (id : Bytes → Bytes) ∧
    (¬ ∀ as w, Trace (IdempotencyMemory.step id standard) Free (IdempotencyMemory.start 0) as w → Unmixed standard w.sessions) ∧
    ¬ ∀ as w, Trace (IdempotencyKV.step id standard) Free (IdempotencyKV.start 0) as w → Unmixed standard w.sessions := by
  refine ⟨Function.injective_id,fun unmixed => ?_,fun unmixed => ?_⟩
  · have seen : ((run (IdempotencyMemory.step id standard) (IdempotencyMemory.start 0)
        [.arrive (pay "10" "usd"),.arrive (pay "10" "eur"),.reserve 0,.finish 0 (.returned 201 [] [7]),
          .reserve 1,.wake 1]).map fun w => faces w.sessions) = some crossed := by decide
    obtain ⟨w,ran,facts⟩ := Option.map_eq_some_iff.mp seen
    exact mixed facts (by decide) (unmixed _ w (runFree ran))
  have seen : ((run (step id standard) (start 0)
      [.arrive (pay "10" "usd"),.arrive (pay "10" "eur"),.reserve 0,.finish 0 (.returned 201 [] [7]),
        .reserve 1,.look 1]).map fun w => faces w.sessions) = some crossed := by decide
  obtain ⟨w,ran,facts⟩ := Option.map_eq_some_iff.mp seen
  exact mixed facts (by decide) (unmixed _ w (runFree ran))

end Gofly.IdempotencyIdentity
