import Gofly.IdempotencyReplay
import Gofly.IdempotencyKV

/-! What a request leaves behind when the middleware returns or unwinds. -/
namespace Gofly.IdempotencyRelease
open Transition Weights Idempotency KVStore IdempotencyKV

def served (entries : IdempotencyMemory.Entries) (closed : List Nat) (now : Nat) (key fingerprint : Bytes) (ttl : Nat) : Bool :=
  match IdempotencyMemory.reserve entries now 0 key fingerprint ttl with
  | (.reserved,_) => true
  | (.conflict,_) => false
  | (.wait done,entries) => decide (done ∈ closed) && (IdempotencyMemory.wake entries key).isSome

def answered (store : IdempotencyKV.Records) (now : Nat) (key fingerprint : Bytes) (ttl : Int) : Bool :=
  match setNX store now key ⟨fingerprint,none⟩ ttl with
  | (true,_) => true
  | (false,store) =>
    match IdempotencyKV.check fingerprint (get store now key).1 with
    | .replayed _ _ => true
    | _ => false

section
variable (sha256 : Bytes → Bytes) (config : IdempotencyConfig)

structure Freed (w : IdempotencyMemory.World) (r : Request) : Prop where
  settled : ∀ e, w.entries (entryKey config r) = some e → e.resp ≠ none
  served : ∀ d ≤ config.ttl.toNat,
    served w.entries w.closed (w.now + d) (entryKey config r) (idempotencyFingerprint sha256 r) config.ttl.toNat = true

structure FreedKV (w : IdempotencyKV.World) (r : Request) : Prop where
  settled : ∀ e, find w.store w.now (entryKey config r) = some e → e.value.resp ≠ none
  answered : ∀ d < config.ttl.toNat,
    answered w.store (w.now + d) (entryKey config r) (idempotencyFingerprint sha256 r) config.ttl = true

def Lapsed (w : IdempotencyKV.World) (r : Request) : Prop :=
  ∀ e, find w.store w.now (entryKey config r) = some e →
    e.value.fingerprint = idempotencyFingerprint sha256 r ∧ e.value.resp ≠ none

variable {sha256 config} {i : Nat}

theorem servedReady (got : entries key = some e) (fresh : now ≤ e.expiresAt) (finished : e.done ∈ closed)
    (ready : e.resp ≠ none) (ttl) : served entries closed now key e.fingerprint ttl = true := by
  obtain ⟨c,isReady⟩ := Option.ne_none_iff_exists'.mp ready
  have kept := IdempotencyReplay.sweptKept got fun _ => fresh
  simp [served,IdempotencyMemory.reserve,kept,IdempotencyMemory.wake,isReady,finished]

theorem memoryFreed (o : IdempotencyReplay.Held sha256 config w)
    (ith : w.sessions[i]? = some s) (now : s.phase = .running) (how) :
    Freed sha256 config (IdempotencyMemory.finish config w i s how) s.request ↔ how ≠ .panicked := by
  obtain ⟨e,got,rfl,pending,fingerprint⟩ := o.running ith now
  cases how with
  | panicked =>
    refine iff_of_false (fun freed => ?_) (by simp)
    exact freed.settled e got pending
  | returned status header body =>
    refine iff_of_true ?_ (by simp)
    simp only [IdempotencyMemory.finish,IdempotencyMemory.complete,got]
    cases keeps config (stored status header body) with
    | true =>
      refine ⟨fun x isAt => ?_,fun d within => ?_⟩
      · rcases IdempotencyReplay.updatedAt isAt with ⟨_,isNew⟩ | ⟨differ,_⟩
        · cases isNew
          simp
        · exact absurd rfl differ
      rw [← fingerprint]
      exact servedReady (Function.update_self ..) (Nat.add_le_add_left within _) List.mem_cons_self (by simp) _
    | false =>
      refine ⟨fun x isAt => ?_,fun d _ => ?_⟩
      · rcases IdempotencyReplay.updatedAt isAt with ⟨_,isNew⟩ | ⟨differ,_⟩
        · cases isNew
        · exact absurd rfl differ
      simp [served,IdempotencyMemory.reserve,IdempotencyMemory.sweep]

theorem answeredExact (store now key fingerprint ttl) : answered store now key fingerprint ttl = true ↔
      ∀ e, find store now key = some e → e.value.fingerprint = fingerprint ∧ e.value.resp ≠ none := by
  cases held : find store now key with
  | none =>
    have free := (setNXFree ⟨fingerprint,none⟩ ttl held).1
    refine iff_of_true ?_ (by simp)
    unfold answered
    split
    · rfl
    rename_i after
    rw [after] at free
    cases free
  | some e =>
    obtain ⟨taken,kept⟩ := setNXHeld ⟨fingerprint,none⟩ ttl held
    unfold answered
    split
    · rename_i after
      rw [after] at taken
      cases taken
    rename_i after
    rw [after] at kept
    rw [(getExact ..).1,kept,held]
    by_cases eq : e.value.fingerprint = fingerprint
    · cases ready : e.value.resp with
      | none => simp [check,ready,conflicts]
      | some => simp [check,eq,ready,replay]
    simp [check,eq,conflicts]

theorem freedExact (pos : 0 < config.ttl) : FreedKV sha256 config w r ↔ Lapsed sha256 config w r := by
  constructor
  · intro freed
    exact (answeredExact ..).mp (freed.answered 0 (by omega))
  intro lapsed
  refine ⟨fun e got => (lapsed e got).2,fun d _ => (answeredExact ..).mpr fun e got => ?_⟩
  exact lapsed e (findLater (Nat.le_add_right _ _) got)

theorem kvFreed (pos : 0 < config.ttl) (how) :
    FreedKV sha256 config (finish sha256 config w i s how) s.request ↔
      how ≠ .panicked ∧ s.cancelled = false ∨ Lapsed sha256 config w s.request := by
  rw [freedExact pos]
  cases how with
  | panicked => simp [finish,turn,Lapsed]
  | returned =>
    cases done : s.cancelled with
    | true => simp [finish,turn,Lapsed,done]
    | false =>
      refine iff_of_true (fun e got => ?_) (by simp)
      simp only [finish,done,Bool.false_eq_true,if_false,complete] at got
      split at got
      · rw [findSet,if_pos rfl] at got
        obtain ⟨isNew,_⟩ := Option.filter_eq_some_iff.mp got
        cases isNew
        simp
      rw [findDelete,if_pos rfl] at got
      cases got
end

theorem resolvedTTL (c) : 0 < (resolveIdempotencyConfig c).ttl := by
  simp only [resolveIdempotencyConfig]
  split <;> omega

theorem reservationFreed (sha256 : Bytes → Bytes) (c : IdempotencyConfig) (now : Nat) : (∀ as w i s how next,
      Trace (IdempotencyMemory.step sha256 (resolveIdempotencyConfig c)) Free (IdempotencyMemory.start now) as w →
      w.sessions[i]? = some s →
      IdempotencyMemory.step sha256 (resolveIdempotencyConfig c) w (.finish i how) = some next →
      (Freed sha256 (resolveIdempotencyConfig c) next s.request ↔ how ≠ .panicked)) ∧ ∀ as w i s how next,
      Trace (IdempotencyKV.step sha256 (resolveIdempotencyConfig c)) Free (IdempotencyKV.start now) as w →
      w.sessions[i]? = some s → IdempotencyKV.step sha256 (resolveIdempotencyConfig c) w (.finish i how) = some next →
      (FreedKV sha256 (resolveIdempotencyConfig c) next s.request ↔
        how ≠ .panicked ∧ s.cancelled = false ∨ Lapsed sha256 (resolveIdempotencyConfig c) w s.request) := by
  have positive := resolvedTTL c
  generalize resolveIdempotencyConfig c = config at *
  constructor
  · intro as w i s how next ran listed moved
    have held := traceInvariant (P := IdempotencyReplay.Held sha256 config)
      (fun _ _ _ o _ moved => IdempotencyReplay.stepHeld moved o) ran (IdempotencyReplay.startHeld now)
    obtain ⟨t,met,rfl⟩ := Option.map_eq_some_iff.mp moved
    obtain ⟨ith,running⟩ := inPhaseSome.mp met
    cases ith.symm.trans listed
    exact memoryFreed held listed running how
  intro as w i s how next _ listed moved
  obtain ⟨t,met,rfl⟩ := Option.map_eq_some_iff.mp moved
  cases (inPhaseSome.mp met).1.symm.trans listed
  exact kvFreed positive how

open IdempotencyReplay

def reserves : List IdempotencyMemory.Act := [.arrive (pay "10" ""),.reserve 0]

theorem answerFrees : (∃ next, Freed id standard next (pay "10" "") ∧ ∃ w,
      Trace (IdempotencyMemory.step id standard) Free (IdempotencyMemory.start 0) reserves w ∧
      IdempotencyMemory.step id standard w (.finish 0 (.returned 201 [] [7])) = some next) ∧
    ∃ next, FreedKV id standard next (pay "10" "") ∧ ∃ w,
      Trace (step id standard) Free (start 0) [.arrive (pay "10" ""),.reserve 0] w ∧
      step id standard w (.finish 0 (.returned 201 [] [7])) = some next := by
  have both := reservationFreed id ⟨"",0,0,false⟩ 0
  have ran : run (IdempotencyMemory.step id standard) (IdempotencyMemory.start 0) reserves = some _ := rfl
  have ran' : run (step id standard) (start 0) [.arrive (pay "10" ""),.reserve 0] = some _ := rfl
  let answer : Handled := .returned 201 [] [7]
  exact ⟨⟨_,(both.1 _ _ 0 _ answer _ (runFree ran) rfl rfl).mpr nofun,_,runFree ran,rfl⟩,
    _,(both.2 _ _ 0 _ answer _ (runFree ran') rfl rfl).mpr (.inl ⟨nofun,rfl⟩),_,runFree ran',rfl⟩

theorem pendingLeft :
    (¬ ∀ as w i s how next, Trace (IdempotencyMemory.step id standard) Free (IdempotencyMemory.start 0) as w →
      w.sessions[i]? = some s → IdempotencyMemory.step id standard w (.finish i how) = some next →
      Freed id standard next s.request) ∧
    ¬ ∀ as w i s how next, Trace (IdempotencyKV.step id standard) Free (IdempotencyKV.start 0) as w →
      w.sessions[i]? = some s → IdempotencyKV.step id standard w (.finish i how) = some next →
      FreedKV id standard next s.request := by
  constructor
  · intro freed
    have ran : run (IdempotencyMemory.step id standard) (IdempotencyMemory.start 0) [.arrive (pay "10" ""),.reserve 0] =
        some _ := rfl
    have left := (freed _ _ 0 _ .panicked _ (runFree ran) rfl rfl).settled
    exact left _ rfl rfl
  intro freed
  have ran : run (step id standard) (start 0)
      [.arrive (pay "10" ""),.reserve 0,.cancel 0] = some _ := rfl
  have left := (freed _ _ 0 _ (.returned 201 [] [7]) _ (runFree ran) rfl rfl).settled
  exact left _ rfl rfl

end Gofly.IdempotencyRelease
