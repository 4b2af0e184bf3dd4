import Mathlib.Data.List.Sort

/-! The outbox: its two stores and what the relay computes. Records stand under their own id.
-/
namespace Gofly.Outbox

inductive Status where
  | pending | delivered | dead
  deriving DecidableEq

structure Message where
  topic : String
  key : String
  body : List UInt8
  headers : List (String × String)
  deriving DecidableEq

structure Record where
  id : String
  message : Message
  status : Status
  attempts : Nat
  createdAt : Nat
  availableAt : Nat
  deliveredAt : Option Nat
  lastError : String
  deriving DecidableEq

structure Table where
  ids : List String
  records : String → Option Record
  keyed : ∀ id rec, records id = some rec → rec.id = id

def Table.empty : Table := ⟨[],fun _ => none,fun _ _ found => by cases found⟩

def Table.put (t : Table) (rec : Record) : Table where
  ids := if (t.records rec.id).isSome then t.ids else t.ids ++ [rec.id]
  records := Function.update t.records rec.id (some rec)
  keyed id r found := by
    by_cases here : id = rec.id
    · subst here
      rw [Function.update_self] at found
      cases found
      rfl
    · rw [Function.update_of_ne here] at found
      exact t.keyed id r found

def Table.update (t : Table) (id : String) (f : Record → Record) : Table :=
  match t.records id with
  | none => t
  | some rec => t.put (f rec)

def validateMessage (msg : Message) : Except String Unit :=
  if msg.topic = "" then .error "outbox: message topic is empty" else .ok ()
def newRecord (id : String) (msg : Message) (now : Nat) : Record := ⟨id,msg,.pending,0,now,now,none,""⟩
def attempt (rec : Record) : Record := { rec with attempts := rec.attempts + 1 }
def push (leaseUntil : Nat) (rec : Record) : Record := { rec with attempts := rec.attempts + 1,availableAt := leaseUntil }

def setDelivered (now : Nat) (rec : Record) : Record :=
  { rec with status := .delivered,deliveredAt := some now,lastError := "" }

def setRetry (availableAt : Nat) (lastErr : String) (rec : Record) : Record :=
  { rec with availableAt := availableAt,lastError := lastErr }
def setDead (lastErr : String) (rec : Record) : Record := { rec with status := .dead,lastError := lastErr }

def leaseAll (grant : Record → Record) (t : Table) : List String → List Record × Table
  | [] => ([],t)
  | id :: rest =>
    match t.records id with
    | none => leaseAll grant t rest
    | some rec =>
      match leaseAll grant (t.put (grant rec)) rest with
      | (out,t) => (grant rec :: out,t)

theorem putAt (t : Table) (rec k) : (t.put rec).records k = if k = rec.id then some rec else t.records k :=
  Function.update_apply ..

theorem updateAt (t : Table) (id) (keeps : ∀ rec, (f rec).id = rec.id) (k) :
    (t.update id f).records k = if k = id then (t.records k).map f else t.records k := by
  unfold Table.update
  split
  · rename_i gone
    split
    · rename_i here
      rw [here,gone]
      rfl
    rfl
  rename_i rec got
  rw [putAt,keeps,t.keyed id rec got]
  split
  · rename_i here
    rw [here,got]
    rfl
  rfl

section
variable {grant : Record → Record}

section
variable (keeps : ∀ rec, (grant rec).id = rec.id)
include keeps

theorem leasedNext {t : Table} {id : String}
    (got : t.records id = some rec) (other : k ≠ id) : (t.put (grant rec)).records k = t.records k := by
  rw [putAt,keeps,t.keyed id rec got,if_neg other]

theorem leasedRecords (nodup : ids.Nodup) (t) :
    (leaseAll grant t ids).1 = ids.filterMap fun id => (t.records id).map grant := by
  induction ids generalizing t with
  | nil => rfl
  | cons id _ ih =>
    obtain ⟨outside,restNodup⟩ := List.nodup_cons.mp nodup
    simp only [leaseAll]
    cases got : t.records id with
    | none => simp only [List.filterMap_cons,got,Option.map_none,ih restNodup]
    | some =>
      simp only [List.filterMap_cons,got,ih restNodup]
      refine congrArg _ (List.filterMap_congr fun k mem => ?_)
      rw [leasedNext keeps got fun eq => outside (eq ▸ mem)]

theorem leasedAt (nodup : ids.Nodup) (t k) :
    (leaseAll grant t ids).2.records k = if k ∈ ids then (t.records k).map grant else t.records k := by
  induction ids generalizing t with
  | nil => simp [leaseAll]
  | cons id _ ih =>
    obtain ⟨outside,restNodup⟩ := List.nodup_cons.mp nodup
    simp only [leaseAll]
    cases got : t.records id with
    | none =>
      simp only [ih restNodup]
      by_cases here : k = id
      · subst here
        simp [got]
      simp [here]
    | some rec =>
      simp only [ih restNodup,List.mem_cons]
      by_cases here : k = id
      · subst here
        simp [outside,putAt,keeps,t.keyed k rec got,got]
      simp only [here,false_or,leasedNext keeps got here]
end
end

structure MemoryStore where
  table : Table
  leases : String → Option Nat
  closed : Bool

namespace MemoryStore

def enqueue (s : MemoryStore) (now : Nat) (id : String) (msg : Message) : MemoryStore :=
  match validateMessage msg with
  | .error _ => s
  | .ok _ => if s.closed then s else { s with table := s.table.put (newRecord id msg now) }

def due (s : MemoryStore) (now : Nat) (id : String) : Bool :=
  match s.table.records id with
  | none => false
  | some rec =>
    rec.status = .pending && rec.availableAt ≤ now && !(s.leases id).any fun lease => decide (now < lease)

def before (s : MemoryStore) (i j : String) : Bool :=
  match s.table.records i, s.table.records j with
  | some ri,some rj =>
    if ri.availableAt = rj.availableAt then ri.createdAt ≤ rj.createdAt else ri.availableAt ≤ rj.availableAt
  | _,_ => true

def chosen (s : MemoryStore) (now : Nat) (order : List String) (limit : Int) : List String :=
  ((order.filter (s.due now)).insertionSort fun i j => s.before i j = true).take limit.toNat

def fetch (s : MemoryStore) (now : Nat) (order : List String) (limit visibility : Int) :
    Option (List Record × MemoryStore) :=
  if limit ≤ 0 then some ([],s)
  else if s.closed then some ([],s)
  else if order.Nodup ∧ order.isPerm s.table.ids = true then
    let ids := s.chosen now order limit
    match leaseAll attempt s.table ids with
    | (out,table) =>
      some (out,{ s with
        table := table
        leases := fun id => if id ∈ ids then some (now + visibility.toNat) else s.leases id })
  else none

-- MarkDelivered, Retry and MarkDead: a change of the record, and its lease goes
def amend (s : MemoryStore) (id : String) (f : Record → Record) : MemoryStore :=
  if s.closed then s
  else if (s.table.records id).isSome then
    { s with table := s.table.update id f,leases := Function.update s.leases id none }
  else s

def markDelivered (s : MemoryStore) (now : Nat) (id : String) : MemoryStore :=
  s.amend id (setDelivered now)

def retry (s : MemoryStore) (id : String) (availableAt : Nat) (lastErr : String) : MemoryStore :=
  s.amend id (setRetry availableAt lastErr)

def markDead (s : MemoryStore) (id lastErr : String) : MemoryStore :=
  s.amend id (setDead lastErr)

def close (s : MemoryStore) : MemoryStore := { s with closed := true }
end MemoryStore

structure SQLStore where
  table : Table

namespace SQLStore

-- the id is the primary key: an insert of a known one fails
def enqueue (s : SQLStore) (now : Nat) (id : String) (msg : Message) : SQLStore :=
  match validateMessage msg with
  | .error _ => s
  | .ok _ => if (s.table.records id).isSome then s else ⟨s.table.put (newRecord id msg now)⟩

def due (s : SQLStore) (now : Nat) (id : String) : Bool :=
  match s.table.records id with
  | none => false
  | some rec => rec.status = .pending && rec.availableAt ≤ now

def before (s : SQLStore) (i j : String) : Bool :=
  match s.table.records i, s.table.records j with
  | some ri,some rj => ri.availableAt ≤ rj.availableAt
  | _,_ => true

def chosen (s : SQLStore) (now : Nat) (order : List String) (limit : Int) : List String :=
  ((order.filter (s.due now)).insertionSort fun i j => s.before i j = true).take limit.toNat

def fetch (s : SQLStore) (now : Nat) (order : List String) (limit visibility : Int) : Option (List Record × SQLStore) :=
  if limit ≤ 0 then some ([],s)
  else if order.Nodup ∧ ∀ id ∈ order, id ∈ s.table.ids then
    match leaseAll (push (now + visibility.toNat)) s.table (s.chosen now order limit) with
    | (out,table) => some (out.map fun rec => { rec with deliveredAt := none,lastError := "" },⟨table⟩)
  else none

def markDelivered (s : SQLStore) (now : Nat) (id : String) : SQLStore :=
  ⟨s.table.update id (setDelivered now)⟩

def retry (s : SQLStore) (id : String) (availableAt : Nat) (lastErr : String) : SQLStore :=
  ⟨s.table.update id (setRetry availableAt lastErr)⟩

def markDead (s : SQLStore) (id lastErr : String) : SQLStore :=
  ⟨s.table.update id (setDead lastErr)⟩

end SQLStore

structure RelayConfig where
  batchSize : Int
  pollInterval : Int
  visibility : Int
  maxAttempts : Int
  baseBackoff : Int
  maxBackoff : Int
  deriving DecidableEq

def withDefaults (c : RelayConfig) : RelayConfig where
  batchSize := if c.batchSize ≤ 0 then 100 else c.batchSize
  pollInterval := if c.pollInterval ≤ 0 then 1000000000 else c.pollInterval
  visibility := if c.visibility ≤ 0 then 30000000000 else c.visibility
  maxAttempts := if c.maxAttempts ≤ 0 then 5 else c.maxAttempts
  baseBackoff := if c.baseBackoff ≤ 0 then 1000000000 else c.baseBackoff
  maxBackoff := if c.maxBackoff ≤ 0 then 60000000000 else c.maxBackoff

def backoffLoop (maxBackoff : Int) : Nat → Int → Int
  | 0,delay => if maxBackoff < delay then maxBackoff else delay
  | n + 1,delay =>
    let delay := (delay * 2).bmod 18446744073709551616
    if maxBackoff ≤ delay then maxBackoff else backoffLoop maxBackoff n delay

def backoff (c : RelayConfig) (attempts : Nat) : Int := backoffLoop c.maxBackoff (attempts - 1) c.baseBackoff

inductive Outcome where
  | delivered
  | dead (lastErr : String)
  | retry (availableAt : Nat) (lastErr : String)
  deriving DecidableEq

def deliver (c : RelayConfig) (now : Nat) (rec : Record) : Option String → Outcome
  | none => .delivered
  | some err =>
    if c.maxAttempts ≤ rec.attempts then .dead err else .retry ((now : Int) + backoff c rec.attempts).toNat err

end Gofly.Outbox
