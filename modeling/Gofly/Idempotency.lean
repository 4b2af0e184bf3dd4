import Gofly.Outcome
import Gofly.Roster
import Gofly.Weights

/-! The idempotency middleware up to its store: which requests go by a key, the entry key and the
fingerprint, what is captured from the handler and written to the client. -/
namespace Gofly.Idempotency
open Weights

abbrev Bytes := List UInt8
def bytes (s : String) : Bytes := s.toList.map fun c => UInt8.ofNat c.toNat

structure IdempotencyConfig where
  headerName : String
  ttl : Int
  maxBodyBytes : Int64
  storeFailures : Bool
  deriving DecidableEq

def resolveIdempotencyConfig (config : IdempotencyConfig) : IdempotencyConfig :=
  { config with
    headerName := if config.headerName = "" then "Idempotency-Key" else config.headerName
    ttl := if config.ttl ≤ 0 then 86400000000000 else config.ttl
    maxBodyBytes := if config.maxBodyBytes ≤ 0 then 1048576 else config.maxBodyBytes }

-- header is what Header.Get returns; readErr is the error of reading the body, if any
structure Request where
  method : Bytes
  path : Bytes
  rawQuery : Bytes
  header : String → Bytes
  body : Bytes
  readErr : Option String

-- the UTF-8 encodings of the characters that unicode.IsSpace accepts
def spaces : List Bytes :=
  [[9],[10],[11],[12],[13],[32],[0xC2,0x85],[0xC2,0xA0],[0xE1,0x9A,0x80],[0xE2,0x80,0x80],
    [0xE2,0x80,0x81],[0xE2,0x80,0x82],[0xE2,0x80,0x83],[0xE2,0x80,0x84],[0xE2,0x80,0x85],
    [0xE2,0x80,0x86],[0xE2,0x80,0x87],[0xE2,0x80,0x88],[0xE2,0x80,0x89],[0xE2,0x80,0x8A],
    [0xE2,0x80,0xA8],[0xE2,0x80,0xA9],[0xE2,0x80,0xAF],[0xE2,0x81,0x9F],[0xE3,0x80,0x80]]

def dropSpaces (spaces : List Bytes) : Nat → Bytes → Bytes
  | 0,s => s
  | n + 1,s =>
    match spaces.find? fun space => space.isPrefixOf s with
    | some space => dropSpaces spaces n (s.drop space.length)
    | none => s

def trimSpace (s : Bytes) : Bytes :=
  let left := dropSpaces spaces s.length s
  (dropSpaces (spaces.map List.reverse) left.length left.reverse).reverse

def isSafeMethod (method : Bytes) : Bool :=
  method = bytes "GET" || method = bytes "HEAD" || method = bytes "OPTIONS" || method = bytes "TRACE"

inductive Code where
  | resourceExhausted | unavailable | alreadyExists
  deriving DecidableEq

structure StoredResponse where
  status : Int
  header : List (String × List String)
  body : Bytes
  deriving DecidableEq

structure Captured where
  origin : Nat
  resp : StoredResponse
  deriving DecidableEq

inductive Reply where
  | passed
  | failed (status : Nat) (code : Code) (message : String)
  | replayed (origin : Nat) (written : StoredResponse)
  | served (resp : StoredResponse)
  deriving DecidableEq

def storeUnavailable : Reply := .failed 503 .unavailable "idempotency store is unavailable"
def conflicts : Reply := .failed 409 .alreadyExists "idempotency key conflicts with a different request"
def responseUnavailable : Reply := .failed 503 .unavailable "idempotent response is unavailable"

def replayResponse (resp : StoredResponse) : StoredResponse :=
  { resp with
    header := resp.header.filter (fun h => h.1 ≠ "X-Idempotency-Replayed") ++ [("X-Idempotency-Replayed",["true"])] }

def replay : Option Captured → Reply
  | none => responseUnavailable
  | some c => .replayed c.origin (replayResponse c.resp)

-- max + 1 is an int64: the limit wraps below zero at its maximum, and nothing is read then
def readIdempotencyBody (r : Request) (max : Int64) : Except String Bytes :=
  let limit := (max + 1).toInt.toNat
  match if limit = 0 then none else r.readErr with
  | some err => .error err
  | none =>
    let body := r.body.take limit
    if max.toInt < body.length then .error "idempotency request body exceeds maximum size" else .ok body

theorem wholeBody {max : Int64} (bounded : max < Int64.maxValue) (ok : readIdempotencyBody r max = .ok body) : body = r.body := by
  have below : max.toInt < 2 ^ 63 - 1 := Int64.lt_iff_toInt_lt.mp bounded
  have above : -2 ^ 63 ≤ max.toInt := Int64.le_toInt max
  have limit : (max + 1).toInt = max.toInt + 1 := by
    rw [Int64.toInt_add]
    exact Int.bmod_eq_of_le (by simp; omega) (by simp; omega)
  unfold readIdempotencyBody at ok
  simp only [limit] at ok
  split at ok
  · cases ok
  split at ok <;> cases ok
  rename_i fits
  rw [List.length_take] at fits
  exact List.take_of_length_le (by omega)

def hexDigits : List UInt8 := bytes "0123456789abcdef"
def encodeToString (hash : Bytes) : Bytes :=
  hash.flatMap fun b => [hexDigits.getD (b.toNat / 16) 0,hexDigits.getD (b.toNat % 16) 0]

section
variable (sha256 : Bytes → Bytes) (config : IdempotencyConfig)

def idempotencyFingerprint (r : Request) : Bytes :=
  encodeToString (sha256 (r.method ++ bytes "\n" ++ r.path ++ bytes "\n" ++ r.body))

def Request.key (r : Request) : Bytes := trimSpace (r.header config.headerName)
def entryKey (r : Request) : Bytes := r.method ++ bytes " " ++ r.path ++ bytes " " ++ r.key config

def bypass (r : Request) : Except Reply Bytes :=
  if isSafeMethod r.method then .error .passed
  else if r.key config = [] then .error .passed
  else (readIdempotencyBody r config.maxBodyBytes).mapError (.failed 413 .resourceExhausted)

inductive Handled where
  | panicked
  | returned (status : Int) (header : List (String × List String)) (body : Bytes)
  deriving DecidableEq

def stored (status : Int) (header : List (String × List String)) (body : Bytes) : StoredResponse :=
  ⟨if status = 0 then 200 else status,header,body⟩

def keeps (resp : StoredResponse) : Bool := config.storeFailures || resp.status < 500
end

inductive Phase where
  | reserving
  | waiting (done : Nat)
  | checking
  | running
  | panicked
  | returned (reply : Reply) (kept : Option Nat)
  deriving DecidableEq

-- request is what the handler gets, with the body that was read of the one sent
structure Session where
  request : Request
  sent : Bytes
  cancelled : Bool
  phase : Phase

def arrive (config : IdempotencyConfig) (r : Request) : Session :=
  match bypass config r with
  | .error reply => ⟨r,r.body,false,.returned reply none⟩
  | .ok body => ⟨{ r with body },r.body,false,.reserving⟩

def inPhase (sessions : List Session) (i : Nat) (phase : Phase) : Option Session :=
  sessions[i]?.filter (·.phase = phase)

theorem inPhaseSome : inPhase sessions i phase = some s ↔ sessions[i]? = some s ∧ s.phase = phase := by
  simp [inPhase,Option.filter_eq_some_iff]

section
variable (sha256 : Bytes → Bytes) (config : IdempotencyConfig)

structure Recorded (sessions : List Session) (s : Session) (origin : Nat) (written : StoredResponse) (q : Session) : Prop where
  listed : sessions[origin]? = some q
  captured : ∃ resp kept, q.phase = .returned (.served resp) kept ∧ written = replayResponse resp
  key : entryKey config q.request = entryKey config s.request
  fingerprint : idempotencyFingerprint sha256 q.request = idempotencyFingerprint sha256 s.request

def Replays (sessions : List Session) : Prop :=
  ∀ (i : Nat) (s : Session) (origin : Nat) (written : StoredResponse) (kept : Option Nat), sessions[i]? = some s →
    s.phase = .returned (.replayed origin written) kept → ∃ q, Recorded sha256 config sessions s origin written q

variable {sha256 config} {i : Nat} {s t : Session}

theorem bypassed (ended : bypass config r = .error reply) :
    reply = .passed ∨ ∃ err, reply = .failed 413 .resourceExhausted err := by
  unfold bypass at ended
  split at ended
  · cases ended; exact .inl rfl
  split at ended
  · cases ended; exact .inl rfl
  obtain ⟨err,eq⟩ := Outcome.mappedError ended
  exact .inr ⟨err,eq.symm⟩

theorem arriveQuiet (config r) : (arrive config r).phase = .reserving ∨
      (arrive config r).phase = .returned .passed none ∨
      ∃ err, (arrive config r).phase = .returned (.failed 413 .resourceExhausted err) none := by
  unfold arrive
  split
  · rename_i ended
    rcases bypassed ended with rfl | ⟨err,rfl⟩
    · exact .inr (.inl rfl)
    · exact .inr (.inr ⟨err,rfl⟩)
  exact .inl rfl

theorem arriveWhole (bounded : config.maxBodyBytes < Int64.maxValue) (r) :
    (arrive config r).request = r ∧ (arrive config r).sent = r.body := by
  unfold arrive
  split
  · exact ⟨rfl,rfl⟩
  rename_i read
  unfold bypass at read
  split at read
  · cases read
  split at read
  · cases read
  cases wholeBody bounded (Outcome.mapErrorOk.mp read)
  exact ⟨rfl,rfl⟩

theorem unanswered (now : s.phase = phase) (other : ∀ reply kept, phase ≠ .returned reply kept)
    (reply kept) (wrong : s.phase = .returned reply kept) : t.phase = .returned reply kept :=
  absurd (now.symm.trans wrong) (other reply kept)

theorem replaysNone : Replays sha256 config [] := by
  intro i s origin wrote kept ith
  simp at ith

theorem Replays.turned (o : Replays sha256 config sessions) (ith : sessions[i]? = some s) (eq : t.request = s.request)
    (final : ∀ reply kept, s.phase = .returned reply kept → t.phase = .returned reply kept)
    (new : ∀ origin wrote kept, t.phase = .returned (.replayed origin wrote) kept →
      ∃ q, Recorded sha256 config sessions s origin wrote q) : Replays sha256 config (sessions.set i t) := by
  have later {u v : Session} {origin : Nat} {wrote : StoredResponse} (request : v.request = u.request)
      (recorded : ∃ q, Recorded sha256 config sessions u origin wrote q) :
      ∃ q, Recorded sha256 config (sessions.set i t) v origin wrote q := by
    obtain ⟨q,isAt,⟨resp,kept,phase,isWritten⟩,key,fingerprint⟩ := recorded
    by_cases here : i = origin
    · subst here
      rw [ith] at isAt
      cases isAt
      exact ⟨t,List.getElem?_set_self (List.getElem_of_getElem? ith).1,⟨resp,kept,final _ _ phase,isWritten⟩,
        by rw [eq,request,key],by rw [eq,request,fingerprint]⟩
    exact ⟨q,(List.getElem?_set_ne here).trans isAt,⟨resp,kept,phase,isWritten⟩,by rw [request,key],
      by rw [request,fingerprint]⟩
  intro j u origin wrote kept isAt now
  rcases atSet ith isAt with ⟨_,rfl⟩ | ⟨_,was⟩
  · exact later eq (new origin wrote kept now)
  exact later rfl (o j u origin wrote kept was now)

theorem Replays.arrived (o : Replays sha256 config sessions) (r) :
    Replays sha256 config (sessions ++ [arrive config r]) := by
  intro j u origin wrote kept isAt now
  rcases (Roster.addSeen isAt).symm with was | ⟨_,rfl⟩
  · obtain ⟨q,ith,captured,key,fingerprint⟩ := o j u origin wrote kept was now
    exact ⟨q,Roster.addBehind ith,captured,key,fingerprint⟩
  rcases arriveQuiet config r with isNow | isNow | ⟨err,isNow⟩ <;> rw [isNow] at now <;> cases now
end

theorem hexDistinct : ∀ a < 16, ∀ b < 16, hexDigits.getD a 0 = hexDigits.getD b 0 → a = b := by decide

theorem encodeExact (eq : encodeToString left = encodeToString right) : left = right := by
  induction left generalizing right with
  | nil =>
    cases right with
    | nil => rfl
    | cons => simp [encodeToString] at eq
  | cons a rest ih =>
    cases right with
    | nil => simp [encodeToString] at eq
    | cons b =>
      simp only [encodeToString,List.flatMap_cons,List.cons_append,List.cons.injEq] at eq
      obtain ⟨high,low,later⟩ := eq
      have bound := b.toNat_lt
      have bound' := a.toNat_lt
      have sameHigh := hexDistinct _ (by omega) _ (by omega) high
      have sameLow := hexDistinct _ (by omega) _ (by omega) low
      have sameByte : a = b := UInt8.toNat_inj.mp (by omega)
      rw [sameByte,ih later]

theorem sameSplit (spaced : m ++ bytes " " ++ p = n ++ bytes " " ++ q)
    (lined : m ++ bytes "\n" ++ p ++ bytes "\n" ++ b = n ++ bytes "\n" ++ q ++ bytes "\n" ++ c) : m = n := by
  induction m generalizing n with
  | nil =>
    cases n with
    | nil => rfl
    | cons =>
      have blank := (List.cons.inj spaced).1
      have line := (List.cons.inj lined).1
      rw [← blank] at line
      exact absurd line (by decide)
  | cons x rest ih =>
    cases n with
    | nil =>
      have blank := (List.cons.inj spaced).1
      have line := (List.cons.inj lined).1
      rw [blank] at line
      exact absurd line (by decide)
    | cons =>
      obtain ⟨eq,spacedRest⟩ := List.cons.inj spaced
      rw [eq,ih spacedRest (List.cons.inj lined).2]

theorem sameRequest (injective : ∀ x y, sha256 x = sha256 y → x = y) (key : r.key config = q.key config) (entry : entryKey config r = entryKey config q)
    (fingerprint : idempotencyFingerprint sha256 r = idempotencyFingerprint sha256 q) :
    r.method = q.method ∧ r.path = q.path ∧ r.body = q.body := by
  have lined := injective _ _ (encodeExact fingerprint)
  have spaced : r.method ++ bytes " " ++ r.path = q.method ++ bytes " " ++ q.path := by
    rw [entryKey,key] at entry
    exact List.append_cancel_right (List.append_cancel_right entry)
  have method := sameSplit spaced lined
  have path : r.path = q.path := by
    rw [method] at spaced
    exact List.append_cancel_left spaced
  refine ⟨method,path,?_⟩
  rw [method,path] at lined
  exact List.append_cancel_left lined

end Gofly.Idempotency
