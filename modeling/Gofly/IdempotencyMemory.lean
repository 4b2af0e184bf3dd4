import Gofly.Idempotency
import Gofly.Transition

/-! The in-memory idempotency store and the requests that go through it. -/
namespace Gofly.IdempotencyMemory
open Transition Idempotency
open Function (update)

structure Entry where
  fingerprint : Bytes
  resp : Option Captured
  expiresAt : Nat
  done : Nat
  deriving DecidableEq

abbrev Entries := Bytes → Option Entry
def sweep (now : Nat) (entries : Entries) : Entries :=
  fun k => (entries k).filter fun e => !(decide (e.expiresAt < now) && e.resp.isSome)

inductive Reserved where
  | reserved
  | conflict
  | wait (done : Nat)
  deriving DecidableEq

def reserve (entries : Entries) (now me : Nat) (key fingerprint : Bytes) (ttl : Nat) : Reserved × Entries :=
  let entries := sweep now entries
  match entries key with
  | some e => if e.fingerprint ≠ fingerprint then (.conflict,entries) else (.wait e.done,entries)
  | none => (.reserved,update entries key (some ⟨fingerprint,none,now + ttl,me⟩))

def wake (entries : Entries) (key : Bytes) : Option Captured := (entries key).bind Entry.resp

def complete (entries : Entries) (closed : List Nat) (now : Nat) (key : Bytes) (c : Captured) (keep : Bool) (ttl : Nat) :
    Entries × List Nat :=
  match entries key with
  | none => (entries,closed)
  | some e =>
    if keep then
      (update entries key (some { e with resp := some c,expiresAt := now + ttl }),e.done :: closed)
    else (update entries key none,e.done :: closed)

structure World where
  now : Nat
  entries : Entries
  closed : List Nat
  sessions : List Session

def start (now : Nat) : World := ⟨now,fun _ => none,[],[]⟩

inductive Act where
  | tick (d : Nat)
  | arrive (r : Request)
  | cancel (i : Nat)
  | reserve (i : Nat)
  | wake (i : Nat)
  | finish (i : Nat) (how : Handled)

section
variable (sha256 : Bytes → Bytes) (config : IdempotencyConfig)

def turn (w : World) (i : Nat) (s : Session) (phase : Phase) : World :=
  { w with sessions := w.sessions.set i { s with phase := phase } }

def enter (w : World) (i : Nat) (s : Session) : World :=
  match reserve w.entries w.now i (entryKey config s.request) (idempotencyFingerprint sha256 s.request) config.ttl.toNat with
  | (.reserved,entries) => { turn w i s .running with entries := entries }
  | (.conflict,entries) => { turn w i s (.returned conflicts none) with entries := entries }
  | (.wait done,entries) => { turn w i s (.waiting done) with entries := entries }

def finish (w : World) (i : Nat) (s : Session) : Handled → World
  | .panicked => turn w i s .panicked
  | .returned status header body =>
    let resp := stored status header body
    let keep := keeps config resp
    let after := complete w.entries w.closed w.now (entryKey config s.request) ⟨i,resp⟩ keep config.ttl.toNat
    { turn w i s (.returned (.served resp) (if keep then some (w.now + config.ttl.toNat) else none)) with
      entries := after.1
      closed := after.2 }

def step (w : World) : Act → Option World
  | .tick d => some { w with now := w.now + d }
  | .arrive r => some { w with sessions := w.sessions ++ [arrive config r] }
  | .cancel i => w.sessions[i]?.map fun s => { w with sessions := w.sessions.set i { s with cancelled := true } }
  | .reserve i => (inPhase w.sessions i .reserving).map (enter sha256 config w i)
  | .wake i =>
    match w.sessions[i]? with
    | none => none
    | some s =>
      match s.phase with
      | .waiting done =>
        if done ∈ w.closed then some (turn w i s (.returned (replay (wake w.entries (entryKey config s.request))) none))
        else none
      | _ => none
  | .finish i how => (inPhase w.sessions i .running).map (finish config w i · how)

-- from the Reserve to the Complete, and on as long as the kept response has not expired
def guarding (now : Nat) : Phase → Bool
  | .running => true
  | .panicked => true
  | .returned _ (some expiresAt) => now ≤ expiresAt
  | _ => false

def AtMostOnce (w : World) : Prop :=
  ∀ (i j : Nat) (s t : Session), w.sessions[i]? = some s → w.sessions[j]? = some t →
    entryKey config s.request = entryKey config t.request → guarding w.now s.phase = true → t.phase = .running → i = j

def waits : Phase → Bool
  | .waiting _ => true
  | _ => false

def careful (w : World) : Act → Bool
  | .reserve i =>
    (w.sessions[i]?.map fun s =>
      (sweep w.now w.entries (entryKey config s.request)).isSome ||
        w.sessions.all fun t =>
          !(waits t.phase && decide (entryKey config t.request = entryKey config s.request)) ||
            decide (idempotencyFingerprint sha256 t.request = idempotencyFingerprint sha256 s.request)).getD true
  | _ => true

inductive Stepped (w : World) : Act → World → Prop where
  | tick (d : Nat) : Stepped w (.tick d) { w with now := w.now + d }
  | arrived (r : Request) : Stepped w (.arrive r) { w with sessions := w.sessions ++ [arrive config r] }
  | cancelled (listed : w.sessions[i]? = some s) :
      Stepped w (.cancel i) { w with sessions := w.sessions.set i { s with cancelled := true } }
  | reserved (listed : w.sessions[i]? = some s) (now : s.phase = .reserving)
      (free : sweep w.now w.entries (entryKey config s.request) = none) :
      Stepped w (.reserve i) { turn w i s .running with
        entries := update (sweep w.now w.entries) (entryKey config s.request)
          (some ⟨idempotencyFingerprint sha256 s.request,none,w.now + config.ttl.toNat,i⟩) }
  | conflicted (listed : w.sessions[i]? = some s) (now : s.phase = .reserving)
      (taken : sweep w.now w.entries (entryKey config s.request) = some e)
      (differ : e.fingerprint ≠ idempotencyFingerprint sha256 s.request) :
      Stepped w (.reserve i) { turn w i s (.returned conflicts none) with entries := sweep w.now w.entries }
  | waited (listed : w.sessions[i]? = some s) (now : s.phase = .reserving)
      (taken : sweep w.now w.entries (entryKey config s.request) = some e)
      (same : e.fingerprint = idempotencyFingerprint sha256 s.request) :
      Stepped w (.reserve i) { turn w i s (.waiting e.done) with entries := sweep w.now w.entries }
  | woken (listed : w.sessions[i]? = some s) (now : s.phase = .waiting done) :
      Stepped w (.wake i) (turn w i s (.returned (replay (wake w.entries (entryKey config s.request))) none))
  | panicked (listed : w.sessions[i]? = some s) (now : s.phase = .running) :
      Stepped w (.finish i .panicked) (turn w i s .panicked)
  | finished (status : Int) (header : List (String × List String)) (body : Bytes)
      (listed : w.sessions[i]? = some s) (now : s.phase = .running) :
      Stepped w (.finish i (.returned status header body)) (finish config w i s (.returned status header body))

variable {sha256 config}

theorem steppedOf (ran : step sha256 config w a = some next) : Stepped sha256 config w a next := by
  cases a with
  | tick d => cases ran; exact .tick d
  | arrive r => cases ran; exact .arrived r
  | cancel i =>
    obtain ⟨s,ith,rfl⟩ := Option.map_eq_some_iff.mp ran
    exact .cancelled ith
  | reserve i =>
    obtain ⟨s,met,rfl⟩ := Option.map_eq_some_iff.mp ran
    obtain ⟨ith,now⟩ := inPhaseSome.mp met
    cases got : sweep w.now w.entries (entryKey config s.request) with
    | none =>
      have stepped : Stepped sha256 config w (.reserve i) _ := .reserved ith now got
      simpa [enter,reserve,got] using stepped
    | some e =>
      by_cases eq : e.fingerprint = idempotencyFingerprint sha256 s.request
      · have stepped : Stepped sha256 config w (.reserve i) _ := .waited ith now got eq
        simpa [enter,reserve,got,eq] using stepped
      have stepped : Stepped sha256 config w (.reserve i) _ := .conflicted ith now got eq
      simpa [enter,reserve,got,eq] using stepped
  | wake i =>
    simp only [step] at ran
    split at ran <;> try contradiction
    rename_i ith
    split at ran <;> try contradiction
    rename_i now
    split at ran <;> cases ran
    exact .woken ith now
  | finish i how =>
    obtain ⟨s,met,rfl⟩ := Option.map_eq_some_iff.mp ran
    obtain ⟨ith,now⟩ := inPhaseSome.mp met
    cases how with
    | panicked => exact .panicked ith now
    | returned status header body => exact .finished status header body ith now
end
end Gofly.IdempotencyMemory
