import Gofly.Idempotency
import Gofly.KVStore
import Gofly.Transition

/-! The idempotency store over a key-value store shared by replicas. Reserve is a SetNX and,
when the key is taken, a Get; Complete is a Set or a Delete. -/
namespace Gofly.IdempotencyKV
open Transition Weights Idempotency KVStore

structure IdempotencyRecord where
  fingerprint : Bytes
  resp : Option Captured
  deriving DecidableEq

abbrev Records := Store Bytes IdempotencyRecord

structure World where
  now : Nat
  store : Records
  sessions : List Session

def start (now : Nat) : World := ⟨now,fun _ => none,[]⟩

inductive Act where
  | tick (d : Nat)
  | arrive (r : Request)
  | cancel (i : Nat)
  | reserve (i : Nat)
  | look (i : Nat)
  | finish (i : Nat) (how : Handled)

-- the Get of Reserve: a pending record, one of another request and a lost one are conflicts
def check (fingerprint : Bytes) : Option IdempotencyRecord → Reply
  | none => conflicts
  | some record =>
    if record.fingerprint ≠ fingerprint then conflicts
    else
      match record.resp with
      | none => conflicts
      | some c => replay (some c)

def complete (store : Records) (now : Nat) (key fingerprint : Bytes) (c : Captured) (keep : Bool) (ttl : Int) : Records :=
  if keep then set store now key ⟨fingerprint,some c⟩ ttl else (delete store key).2

section
variable (sha256 : Bytes → Bytes) (config : IdempotencyConfig)

def turn (w : World) (i : Nat) (s : Session) (phase : Phase) : World :=
  { w with sessions := w.sessions.set i { s with phase := phase } }

def enter (w : World) (i : Nat) (s : Session) : World :=
  if s.cancelled then turn w i s (.returned storeUnavailable none)
  else
    match setNX w.store w.now (entryKey config s.request) ⟨idempotencyFingerprint sha256 s.request,none⟩ config.ttl with
    | (true,store) => { turn w i s .running with store := store }
    | (false,store) => { turn w i s .checking with store := store }

def look (w : World) (i : Nat) (s : Session) : World :=
  if s.cancelled then turn w i s (.returned storeUnavailable none)
  else
    match get w.store w.now (entryKey config s.request) with
    | (record,store) =>
      { turn w i s (.returned (check (idempotencyFingerprint sha256 s.request) record) none) with store := store }

def finish (w : World) (i : Nat) (s : Session) : Handled → World
  | .panicked => turn w i s .panicked
  | .returned status header body =>
    let resp := stored status header body
    let keep := keeps config resp
    if s.cancelled then turn w i s (.returned (.served resp) none)
    else
      { turn w i s (.returned (.served resp) (if keep then some (w.now + config.ttl.toNat) else none)) with
        store := complete w.store w.now (entryKey config s.request) (idempotencyFingerprint sha256 s.request) ⟨i,resp⟩
          keep config.ttl }

def step (w : World) : Act → Option World
  | .tick d => some { w with now := w.now + d }
  | .arrive r => some { w with sessions := w.sessions ++ [arrive config r] }
  | .cancel i => w.sessions[i]?.map fun s => { w with sessions := w.sessions.set i { s with cancelled := true } }
  | .reserve i => (inPhase w.sessions i .reserving).map (enter sha256 config w i)
  | .look i => (inPhase w.sessions i .checking).map (look sha256 config w i)
  | .finish i how => (inPhase w.sessions i .running).map (finish sha256 config w i · how)

inductive Stepped (w : World) : Act → World → Prop where
  | tick (d : Nat) : Stepped w (.tick d) { w with now := w.now + d }
  | arrived (r : Request) : Stepped w (.arrive r) { w with sessions := w.sessions ++ [arrive config r] }
  | cancelled (listed : w.sessions[i]? = some s) :
      Stepped w (.cancel i) { w with sessions := w.sessions.set i { s with cancelled := true } }
  | refused (listed : w.sessions[i]? = some s) (now : s.phase = .reserving) :
      Stepped w (.reserve i) (turn w i s (.returned storeUnavailable none))
  | reserved (listed : w.sessions[i]? = some s) (now : s.phase = .reserving)
      (begins : phase = .running ∨ phase = .checking) :
      Stepped w (.reserve i) { turn w i s phase with
        store := (setNX w.store w.now (entryKey config s.request) ⟨idempotencyFingerprint sha256 s.request,none⟩ config.ttl).2 }
  | lost (listed : w.sessions[i]? = some s) (now : s.phase = .checking) :
      Stepped w (.look i) (turn w i s (.returned storeUnavailable none))
  | looked (listed : w.sessions[i]? = some s) (now : s.phase = .checking) :
      Stepped w (.look i)
        { turn w i s (.returned (check (idempotencyFingerprint sha256 s.request)
            (get w.store w.now (entryKey config s.request)).1) none) with
          store := (get w.store w.now (entryKey config s.request)).2 }
  | panicked (listed : w.sessions[i]? = some s) (now : s.phase = .running) :
      Stepped w (.finish i .panicked) (turn w i s .panicked)
  | unwritten (status : Int) (header : List (String × List String)) (body : Bytes)
      (listed : w.sessions[i]? = some s) (now : s.phase = .running) :
      Stepped w (.finish i (.returned status header body)) (turn w i s (.returned (.served (stored status header body)) none))
  | written (status : Int) (header : List (String × List String)) (body : Bytes)
      (listed : w.sessions[i]? = some s) (now : s.phase = .running) (kept : Option Nat) :
      Stepped w (.finish i (.returned status header body))
        { turn w i s (.returned (.served (stored status header body)) kept) with
          store := complete w.store w.now (entryKey config s.request) (idempotencyFingerprint sha256 s.request)
            ⟨i,stored status header body⟩ (keeps config (stored status header body)) config.ttl }

variable {sha256 config}

theorem steppedOf (ran : step sha256 config w a = some next) : Stepped sha256 config w a next := by
  cases a with
  | tick d => cases ran; exact .tick d
  | arrive r => cases ran; exact .arrived r
  | cancel i =>
    obtain ⟨s,ith,rfl⟩ := Option.map_eq_some_iff.mp ran
    exact .cancelled ith
  | reserve i =>
    obtain ⟨s,met,rfl⟩ := Option.map_eq_some_iff.mp ran
    obtain ⟨ith,now⟩ := inPhaseSome.mp met
    unfold enter
    split
    · exact .refused ith now
    split
    · rename_i taken
      have stepped : Stepped sha256 config w (.reserve i) _ := .reserved ith now (.inl rfl)
      rwa [taken] at stepped
    rename_i taken
    have stepped : Stepped sha256 config w (.reserve i) _ := .reserved ith now (.inr rfl)
    rwa [taken] at stepped
  | look i =>
    obtain ⟨s,met,rfl⟩ := Option.map_eq_some_iff.mp ran
    obtain ⟨ith,now⟩ := inPhaseSome.mp met
    unfold look
    split
    · exact .lost ith now
    exact .looked ith now
  | finish i how =>
    obtain ⟨s,met,rfl⟩ := Option.map_eq_some_iff.mp ran
    obtain ⟨ith,now⟩ := inPhaseSome.mp met
    cases how with
    | panicked => exact .panicked ith now
    | returned status header body =>
      simp only [finish]
      split
      · exact .unwritten status header body ith now
      exact .written status header body ith now _
end
end Gofly.IdempotencyKV
