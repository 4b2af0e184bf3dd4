import Gofly.KVStore
import Gofly.Transition

/-! The locker over a key-value store. -/
namespace Gofly.KVLocker
open KVStore

structure Locker where
  defaultTTL : Int
  deriving DecidableEq

inductive Error where
  | locked | notHeld | leaseExpired
  deriving DecidableEq

def Locker.ttl (l : Locker) (ttl : Int) : Nat :=
  if 0 < ttl then ttl.toNat else if l.defaultTTL ≤ 0 then 30000000000 else l.defaultTTL.toNat

def tryLock (l : Locker) (s : Store String String) (now : Nat) (key token : String) (ttl : Int) :
    Except Error Nat × Store String String :=
  if key = "" then (.error .notHeld,s)
  else
    match setNX s now key token (l.ttl ttl) with
    | (true,s) => (.ok (l.ttl ttl),s)
    | (false,s) => (.error .locked,s)

-- the Get of Unlock and of Refresh; they differ in the error for an absent key
def getOwned (absent : Error) (s : Store String String) (now : Nat) (key token : String) : Except Error Unit × Store String String :=
  if key = "" ∨ token = "" then (.error .notHeld,s)
  else
    match get s now key with
    | (none,s) => (.error absent,s)
    | (some value,s) => if value ≠ token then (.error .notHeld,s) else (.ok (),s)

def unlock := getOwned .notHeld
def refresh := getOwned .leaseExpired

inductive Section where
  | stamp (ttl : Nat)
  | delete
  | set (ttl : Nat)
  deriving DecidableEq

structure Call where
  token : String
  rest : Section
  deadline : Option Nat
  deriving DecidableEq

structure Holding where
  client : Nat
  key : String
  storedUntil : Nat
  expiresAt : Option Nat
  released : Bool
  deriving DecidableEq

structure World where
  now : Nat
  store : Store String String
  holdings : String → Option Holding
  issued : List String
  calls : List Call

def start (now : Nat) : World := ⟨now,fun _ => none,fun _ => none,[],[]⟩

inductive Act where
  | tick (d : Nat)
  | tryLock (client : Nat) (key token : String) (ttl : Int)
  | unlock (token : String)
  | refresh (token : String) (ttl : Int)
  | proceed (i : Nat)
  | fail (i : Nat)
  deriving DecidableEq

def keep (w : World) (token : String) (h : Holding) : World :=
  { w with holdings := Function.update w.holdings token (some h) }
def deadline (w : World) (key : String) : Option Nat := (find w.store w.now key).bind Entry.expiresAt

def acquire (l : Locker) (w : World) (client : Nat) (key token : String) (ttl : Int) : World :=
  match tryLock l w.store w.now key token ttl with
  | (.error _,s) => { w with store := s }
  | (.ok ttl,s) =>
    { keep w token ⟨client,key,w.now + ttl,none,false⟩ with
      store := s
      issued := w.issued ++ [token]
      calls := w.calls ++ [⟨token,.stamp ttl,some (w.now + ttl)⟩] }

def enter (w : World) (key token : String) (rest : Section) : Except Error Unit × Store String String → World
  | (.error _,s) => { w with store := s }
  | (.ok _,s) => { w with store := s,calls := w.calls ++ [⟨token,rest,deadline w key⟩] }

def finish (w : World) (i : Nat) (token : String) (h : Holding) : Section → World
  | .stamp ttl =>
    { keep w token { h with expiresAt := some (w.now + ttl),released := false } with calls := w.calls.eraseIdx i }
  | .delete =>
    { keep w token { h with released := true } with
      store := (delete w.store h.key).2
      calls := w.calls.eraseIdx i }
  | .set ttl =>
    { keep w token { h with storedUntil := w.now + ttl } with
      store := set w.store w.now h.key token ttl
      calls := w.calls.set i ⟨token,.stamp ttl,some (w.now + ttl)⟩ }

def step (l : Locker) (w : World) : Act → Option World
  | .tick d => some { w with now := w.now + d }
  | .tryLock client key token ttl =>
    match w.holdings token with
    | some _ => none
    | none => some (acquire l w client key token ttl)
  | .unlock token =>
    match w.holdings token with
    | none => none
    | some h =>
      if h.expiresAt.isSome then some (enter w h.key token .delete (unlock w.store w.now h.key token)) else none
  | .refresh token ttl =>
    match w.holdings token with
    | none => none
    | some h =>
      if h.expiresAt.isSome then
        some (enter w h.key token (.set (l.ttl ttl)) (refresh w.store w.now h.key token))
      else none
  | .proceed i =>
    match w.calls[i]? with
    | none => none
    | some call =>
      match w.holdings call.token with
      | none => none
      | some h => some (finish w i call.token h call.rest)
  | .fail i =>
    match w.calls[i]? with
    | none => none
    | some ⟨_,.stamp _,_⟩ => none
    | some _ => some { w with calls := w.calls.eraseIdx i }

theorem ttlPositive (l : Locker) (ttl) : 0 < l.ttl ttl := by
  unfold Locker.ttl
  split
  · omega
  split <;> omega

structure Same (w next : World) : Prop where
  now : next.now = w.now
  found : find next.store w.now = find w.store w.now
  holdings : next.holdings = w.holdings
  issued : next.issued = w.issued

inductive Acquired (l : Locker) (w : World) (client : Nat) (key token : String) : World → Prop where
  | refused (same : Same w next) (calls : next.calls = w.calls) : Acquired l w client key token next
  | locked {ttl : Nat} {s : Store String String} (free : find w.store w.now key = none) (lasts : 0 < ttl)
      (found : find s w.now = find (set w.store w.now key token ttl) w.now) :
      Acquired l w client key token
        { keep w token ⟨client,key,w.now + ttl,none,false⟩ with
          store := s
          issued := w.issued ++ [token]
          calls := w.calls ++ [⟨token,.stamp ttl,some (w.now + ttl)⟩] }

theorem acquiredOf (l w client key token ttl) : Acquired l w client key token (acquire l w client key token ttl) := by
  unfold acquire tryLock
  by_cases empty : key = ""
  · simp only [empty]
    exact .refused ⟨rfl,rfl,rfl,rfl⟩ rfl
  simp only [empty,if_false]
  cases held : find w.store w.now key with
  | some e =>
    obtain ⟨no,kept⟩ := setNXHeld token (l.ttl ttl : Int) held
    split <;> rename_i answer
    all_goals split at answer <;> rename_i asked
    all_goals rw [asked] at no kept
    all_goals simp at no
    · cases answer
      exact .refused ⟨rfl,kept,rfl,rfl⟩ rfl
    cases answer
  | none =>
    obtain ⟨yes,got⟩ := setNXFree token (l.ttl ttl : Int) held
    split <;> rename_i answer
    all_goals split at answer <;> rename_i asked
    all_goals rw [asked] at yes got
    all_goals simp at yes
    · cases answer
    cases answer
    exact .locked held (ttlPositive l ttl) got

inductive Entered (w : World) (key token : String) (rest : Section) : World → Prop where
  | refused (same : Same w next) (calls : next.calls = w.calls) : Entered w key token rest next
  | owned (found : find w.store w.now key = some e) (value : e.value = token)
      (same : Same w next) (calls : next.calls = w.calls ++ [⟨token,rest,e.expiresAt⟩]) :
      Entered w key token rest next

theorem enteredOf (gone w key token rest) :
    Entered w key token rest (enter w key token rest (getOwned gone w.store w.now key token)) := by
  obtain ⟨answer,kept⟩ := getExact w.store w.now key
  unfold getOwned
  split
  · exact .refused ⟨rfl,rfl,rfl,rfl⟩ rfl
  split
  · rename_i got
    rw [got] at kept
    exact .refused ⟨rfl,kept,rfl,rfl⟩ rfl
  rename_i got
  rw [got] at answer kept
  split
  · exact .refused ⟨rfl,kept,rfl,rfl⟩ rfl
  rename_i eq
  obtain ⟨e,found,isValue⟩ := Option.map_eq_some_iff.mp answer.symm
  refine .owned found (isValue.trans (not_not.mp eq)) ⟨rfl,kept,rfl,rfl⟩ ?_
  simp only [enter,deadline,found,Option.bind_some]

inductive Stepped (l : Locker) (w : World) : Act → World → Prop where
  | tick (d : Nat) : Stepped l w (.tick d) { w with now := w.now + d }
  | tryLock {client : Nat} {key token : String} {ttl : Int} {next : World} (fresh : w.holdings token = none)
      (h : Acquired l w client key token next) : Stepped l w (.tryLock client key token ttl) next
  | unlock (holds : w.holdings token = some h)
      (entered : Entered w h.key token .delete next) : Stepped l w (.unlock token) next
  | refresh (holds : w.holdings token = some h)
      (entered : Entered w h.key token (.set (l.ttl ttl)) next) : Stepped l w (.refresh token ttl) next
  | proceed (calls : w.calls[i]? = some call)
      (holds : w.holdings call.token = some h) :
      Stepped l w (.proceed i) (finish w i call.token h call.rest)
  | fail (calls : w.calls[i]? = some call) :
      Stepped l w (.fail i) { w with calls := w.calls.eraseIdx i }

theorem steppedOf (h : step l w a = some next) : Stepped l w a next := by
  cases a with
  | tick d => cases h; exact .tick d
  | tryLock client key token ttl =>
    simp only [step] at h
    split at h <;> cases h
    exact .tryLock ‹_› (acquiredOf l w client key token ttl)
  | unlock token =>
    simp only [step] at h
    split at h <;> try contradiction
    rename_i held holds
    split at h <;> cases h
    exact .unlock holds (enteredOf .notHeld w held.key token .delete)
  | refresh token ttl =>
    simp only [step] at h
    split at h <;> try contradiction
    rename_i held holds
    split at h <;> cases h
    exact .refresh holds (enteredOf .leaseExpired w held.key token (.set (l.ttl ttl)))
  | proceed i =>
    simp only [step] at h
    split at h <;> try contradiction
    rename_i calls
    split at h <;> cases h
    exact .proceed calls ‹_›
  | fail i =>
    simp only [step] at h
    split at h <;> cases h
    exact .fail ‹_›

end Gofly.KVLocker
