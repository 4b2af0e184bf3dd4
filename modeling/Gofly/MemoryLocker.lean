import Gofly.Transition
import Mathlib.Data.List.AList
/-! The locker in memory. -/
namespace Gofly.MemoryLocker
open Function (update update_of_ne)
open Option (filter_some)

inductive Error where
  | locked | notHeld | leaseExpired
  | context (err : String)
  | token (err : String)
  deriving DecidableEq

structure Lease where
  key : String
  token : String
  expiresAt : Int
  deriving DecidableEq

structure MemoryStats where
  active : Int64
  acquired : Int64
  contended : Int64
  released : Int64
  refreshed : Int64
  expired : Int64
  failed : Int64
  deriving DecidableEq

structure LockState where
  token : String
  expiresAt : Int
  deriving DecidableEq

abbrev Locks := AList fun _ : String => LockState

structure Locker where
  locks : Locks
  defaultTTL : Int
  stats : MemoryStats

def newMemoryLocker (defaultTTL : Int) : Locker :=
  ⟨∅,if 0 < defaultTTL then defaultTTL else 30000000000,⟨0,0,0,0,0,0,0⟩⟩

namespace Locker

def ttl (l : Locker) (ttl : Int) : Int := if 0 < ttl then ttl else l.defaultTTL
def contend (l : Locker) : Locker :=
  { l with stats := { l.stats with contended := l.stats.contended + 1 } }

def fail (l : Locker) : Locker :=
  { l with stats := { l.stats with failed := l.stats.failed + 1 } }

def expire (l : Locker) (key : String) : Locker :=
  { l with locks := l.locks.erase key,stats := { l.stats with expired := l.stats.expired + 1 } }

def release (l : Locker) (key : String) : Locker :=
  { l with locks := l.locks.erase key,stats := { l.stats with released := l.stats.released + 1 } }

def acquire (l : Locker) (key : String) (state : LockState) : Locker :=
  { l with locks := l.locks.insert key state,stats := { l.stats with acquired := l.stats.acquired + 1 } }

def extend (l : Locker) (key : String) (state : LockState) : Locker :=
  { l with locks := l.locks.insert key state,stats := { l.stats with refreshed := l.stats.refreshed + 1 } }

def sweep (now : Int) (l : Locker) (row : (_ : String) × LockState) : Locker :=
  if now < row.2.expiresAt then l else l.expire row.1

def cleanupExpiredLocked (l : Locker) (now : Int) : Locker :=
  l.locks.entries.foldl (sweep now) l

def tryLockAt (l : Locker) (key token : String) (ttl now : Int) : Except Error Lease × Locker :=
  let l := l.cleanupExpiredLocked now
  if (l.locks.lookup key).any fun state => now < state.expiresAt then (.error .locked,l.contend)
  else
    let lease : Lease := ⟨key,token,now + l.ttl ttl⟩
    (.ok lease,l.acquire key ⟨token,lease.expiresAt⟩)

-- the checks that Unlock and Refresh share, and what the owner of the lease then does
def owned {α : Type} (l : Locker) (lease : Lease) (now : Int)
    (act : Locker → α × Locker) : Except Error α × Locker :=
  let l := l.cleanupExpiredLocked now
  match l.locks.lookup lease.key with
  | none => (.error .notHeld,l.fail)
  | some state =>
    if state.token ≠ lease.token then (.error .notHeld,l.fail)
    else if now < state.expiresAt then (.ok (act l).1,(act l).2)
    else (.error .leaseExpired,l.expire lease.key)

def unlock (l : Locker) (ctx : Option String) (lease : Lease) (now : Int) :
    Except Error Unit × Locker :=
  match ctx with
  | some err => (.error (.context err),l)
  | none => l.owned lease now fun l => ((),l.release lease.key)

def refresh (l : Locker) (ctx : Option String) (lease : Lease) (ttl now : Int) :
    Except Error Lease × Locker :=
  match ctx with
  | some err => (.error (.context err),l)
  | none =>
    l.owned lease now fun l =>
      let next : Lease := ⟨lease.key,lease.token,now + l.ttl ttl⟩
      (next,l.extend lease.key ⟨lease.token,next.expiresAt⟩)

def snapshot (l : Locker) (now : Int) : MemoryStats × Locker :=
  let l := l.cleanupExpiredLocked now
  ({ l.stats with active := Int64.ofNat l.locks.keys.length },l)

end Locker

structure Waiting where
  key : String
  token : String
  ttl : Int
  now : Int
  deriving DecidableEq

structure World where
  now : Int
  locker : Locker
  waiting : List Waiting
  leases : List Lease

def start (defaultTTL now : Int) : World := ⟨now,newMemoryLocker defaultTTL,[],[]⟩

inductive Act where
  | tick (d : Nat)
  | tryLock (ctx : Option String) (key : String) (ttl : Int) (newToken : Except String String)
  | enter (i : Nat)
  | unlock (ctx : Option String) (lease : Lease)
  | refresh (ctx : Option String) (lease : Lease) (ttl : Int)
  | snapshot

def tryLock (now : Int) (ctx : Option String) (key : String) (ttl : Int) (newToken : Except String String) :
    Except Error Waiting :=
  match ctx with
  | some err => .error (.context err)
  | none =>
    if key = "" then .error .notHeld
    else
      match newToken with
      | .error err => .error (.token err)
      | .ok token => .ok ⟨key,token,ttl,now⟩

def ended (lease : Lease) (leases : List Lease) : List Lease :=
  leases.filter fun x => !(x.key == lease.key && x.token == lease.token)

def step (w : World) : Act → Option World
  | .tick d => some { w with now := w.now + d }
  | .tryLock ctx key ttl newToken =>
    match tryLock w.now ctx key ttl newToken with
    | .error _ => some w
    | .ok call => some { w with waiting := w.waiting ++ [call] }
  | .enter i =>
    match w.waiting[i]? with
    | none => none
    | some call =>
      match w.locker.tryLockAt call.key call.token call.ttl call.now with
      | (.error _,l) => some { w with locker := l,waiting := w.waiting.eraseIdx i }
      | (.ok lease,l) => some { w with locker := l,waiting := w.waiting.eraseIdx i,leases := w.leases ++ [lease] }
  | .unlock ctx lease =>
    match w.locker.unlock ctx lease w.now with
    | (.error _,l) => some { w with locker := l }
    | (.ok _,l) => some { w with locker := l,leases := ended lease w.leases }
  | .refresh ctx lease ttl =>
    match w.locker.refresh ctx lease ttl w.now with
    | (.error _,l) => some { w with locker := l }
    | (.ok next,l) => some { w with locker := l,leases := ended lease w.leases ++ [next] }
  | .snapshot => some { w with locker := (w.locker.snapshot w.now).2 }

open Locker

def live (l : Locker) (now : Int) (key : String) : Option LockState :=
  (l.locks.lookup key).filter fun state => now < state.expiresAt

def Balanced (l : Locker) : Prop :=
  l.stats.acquired = Int64.ofNat l.locks.keys.length + l.stats.released + l.stats.expired

section
variable {l : Locker} {now : Int}
  {row : (_ : String) × LockState} {rows : List ((_ : String) × LockState)}

theorem keysErased (got : l.locks.lookup key = some state) :
    (l.locks.erase key).keys.length + 1 = l.locks.keys.length := by
  have mem : key ∈ l.locks.keys := AList.mem_keys.mp (AList.lookup_isSome.mp (by rw [got]; rfl))
  rw [AList.keys_erase,List.length_erase_of_mem mem]
  have some := List.length_pos_of_mem mem
  omega

theorem erasedBalanced {stats} (got : l.locks.lookup key = some state) (even : Balanced l)
    (acquired : stats.acquired = l.stats.acquired)
    (gone : stats.released + stats.expired = l.stats.released + l.stats.expired + 1) :
    Balanced { l with locks := l.locks.erase key,stats := stats } := by
  have count := keysErased got
  unfold Balanced at *
  simp only [acquired]
  rw [even,← count,Int64.ofNat_add]
  grind

theorem expireBalanced (got : l.locks.lookup key = some state) (even : Balanced l) : Balanced (l.expire key) :=
  erasedBalanced got even rfl (by grind)

theorem releaseBalanced (got : l.locks.lookup key = some state) (even : Balanced l) : Balanced (l.release key) :=
  erasedBalanced got even rfl (by grind)

theorem acquireBalanced (gone : l.locks.lookup key = none) (even : Balanced l) :
    Balanced (l.acquire key state) := by
  have new : key ∉ l.locks.keys := fun mem => AList.lookup_eq_none.mp gone (AList.mem_keys.mpr mem)
  unfold Balanced at *
  simp only [acquire]
  rw [AList.keys_insert,List.length_cons,Int64.ofNat_add]
  grind

theorem extendBalanced (got : l.locks.lookup key = some old) (even : Balanced l) :
    Balanced (l.extend key state) := by
  have count := keysErased got
  rw [AList.keys_erase] at count
  unfold Balanced at *
  simp only [extend]
  rw [even,AList.keys_insert,List.length_cons,count]

theorem expireKeeps (new : row.1 ∉ rows.keys) (got : ∀ r ∈ rows, l.locks.lookup r.1 = some r.2) :
    ∀ r ∈ rows, (l.expire row.1).locks.lookup r.1 = some r.2 := by
  intro r mem
  have ne : r.1 ≠ row.1 := fun eq => new (eq ▸ List.mem_keys_of_mem mem)
  rw [expire,AList.lookup_erase_ne ne,got r mem]

theorem sweptFinds (nodup : rows.NodupKeys) (got : ∀ r ∈ rows, l.locks.lookup r.1 = some r.2) (key) :
    (rows.foldl (sweep now) l).locks.lookup key =
      if key ∈ rows.keys then live l now key else l.locks.lookup key := by
  induction rows generalizing l with
  | nil => rfl
  | cons row rest ih =>
    obtain ⟨new,nodup⟩ := List.nodupKeys_cons.mp nodup
    have here := got row List.mem_cons_self
    have later := fun r mem => got r (List.mem_cons_of_mem _ mem)
    rw [List.foldl_cons]
    by_cases lives : now < row.2.expiresAt
    · rw [sweep,if_pos lives,ih nodup later]
      by_cases eq : key = row.1
      · subst eq
        simp [live,here,filter_some,lives]
      simp [eq]
    rw [sweep,if_neg lives,ih nodup (expireKeeps new later)]
    by_cases eq : key = row.1
    · subst eq
      simp [live,here,filter_some,lives,expire]
    simp [eq,live,expire]

theorem sweptBalanced (nodup : rows.NodupKeys) (got : ∀ r ∈ rows, l.locks.lookup r.1 = some r.2)
    (even : Balanced l) : Balanced (rows.foldl (sweep now) l) := by
  induction rows generalizing l with
  | nil => exact even
  | cons row rest ih =>
    obtain ⟨new,nodup⟩ := List.nodupKeys_cons.mp nodup
    have here := got row List.mem_cons_self
    have later := fun r mem => got r (List.mem_cons_of_mem _ mem)
    rw [List.foldl_cons]
    by_cases lives : now < row.2.expiresAt
    · rw [sweep,if_pos lives]
      exact ih nodup later even
    rw [sweep,if_neg lives]
    exact ih nodup (expireKeeps new later) (expireBalanced here even)

theorem rowFound (l : Locker) (r) (mem : r ∈ l.locks.entries) : l.locks.lookup r.1 = some r.2 :=
  AList.mem_lookup_iff.mpr mem

theorem cleanupFinds (l now key) : (l.cleanupExpiredLocked now).locks.lookup key = live l now key := by
  rw [cleanupExpiredLocked,sweptFinds l.locks.nodupKeys (rowFound l)]
  split
  · rfl
  rename_i gone
  have none : l.locks.lookup key = none := AList.lookup_eq_none.mpr fun mem => gone (AList.mem_keys.mp mem)
  simp [live,none]

theorem cleanupBalanced (now) (even : Balanced l) : Balanced (l.cleanupExpiredLocked now) :=
  sweptBalanced l.locks.nodupKeys (rowFound l) even
end

structure Turn (l : Locker) (now : Int) (found : String → Option LockState) (next : Locker) : Prop where
  sees : ∀ later key, now ≤ later → live next later key = (found key).filter fun state => later < state.expiresAt
  balanced : Balanced l → Balanced next

theorem liveLasts (got : live l now key = some state) : now < state.expiresAt := by
  simpa using (Option.filter_eq_some_iff.mp got).2

theorem liveLater (l key) (order : now ≤ later) :
    (live l now key).filter (fun state => later < state.expiresAt) = live l later key := by
  unfold live
  cases l.locks.lookup key with
  | none => rfl
  | some =>
    simp only [filter_some]
    split_ifs <;> simp_all
    omega

theorem quietTurn (l now) : Turn l now (live l now) l := ⟨fun _ key order => (liveLater l key order).symm,id⟩

theorem foundTurn (finds : ∀ key, next.locks.lookup key = got key) (even : Balanced l → Balanced next) :
    Turn l now got next :=
  ⟨fun _ key _ => by rw [live,finds],even⟩

theorem tryLockAtExact (l key token ttl now) :
    (∃ next, l.tryLockAt key token ttl now = (.error .locked,next) ∧ Turn l now (live l now) next) ∨
    ∃ expiry next, live l now key = none ∧ l.tryLockAt key token ttl now = (.ok ⟨key,token,expiry⟩,next) ∧
      Turn l now (update (live l now) key (some ⟨token,expiry⟩)) next := by
  unfold tryLockAt
  simp only [cleanupFinds]
  cases got : live l now key with
  | some =>
    have lasts := liveLasts got
    exact .inl ⟨(l.cleanupExpiredLocked now).contend,by simp [lasts],
      foundTurn (cleanupFinds l now) (cleanupBalanced now)⟩
  | none =>
    refine .inr ⟨_,_,rfl,by simp; exact ⟨rfl,rfl⟩,foundTurn (fun other => ?_) fun even => ?_⟩
    · by_cases eq : other = key
      · subst eq
        simp [acquire]
      · simp [acquire,AList.lookup_insert_ne eq,update_of_ne eq,cleanupFinds]
    exact acquireBalanced (by rw [cleanupFinds,got]) (cleanupBalanced now even)

theorem ownedExact {α : Type} (l lease now) (act : Locker → α × Locker) :
    (∃ err next, (∀ state, live l now lease.key = some state → state.token ≠ lease.token) ∧
      l.owned lease now act = (.error err,next) ∧ Turn l now (live l now) next) ∨
    ∃ state swept, live l now lease.key = some state ∧ state.token = lease.token ∧
      (∀ key, swept.locks.lookup key = live l now key) ∧ (Balanced l → Balanced swept) ∧
      l.owned lease now act = (.ok (act swept).1,(act swept).2) := by
  unfold owned
  simp only [cleanupFinds]
  cases got : live l now lease.key with
  | none => exact .inl ⟨.notHeld,_,by simp,rfl,foundTurn (cleanupFinds l now) (cleanupBalanced now)⟩
  | some state =>
    by_cases eq : state.token = lease.token
    · exact .inr ⟨state,_,rfl,eq,cleanupFinds l now,cleanupBalanced now,by simp [eq,liveLasts got]⟩
    exact .inl ⟨.notHeld,(l.cleanupExpiredLocked now).fail,by simpa using eq,by simp [eq],
      foundTurn (cleanupFinds l now) (cleanupBalanced now)⟩

theorem unlockExact (l ctx lease now) :
    (∃ err next, (ctx = none → ∀ state, live l now lease.key = some state → state.token ≠ lease.token) ∧
      l.unlock ctx lease now = (.error err,next) ∧ Turn l now (live l now) next) ∨
    ∃ state next, ctx = none ∧ live l now lease.key = some state ∧ state.token = lease.token ∧
      l.unlock ctx lease now = (.ok (),next) ∧ Turn l now (update (live l now) lease.key none) next := by
  cases ctx with
  | some err => exact .inl ⟨.context err,l,nofun,rfl,quietTurn l now⟩
  | none =>
    rcases ownedExact l lease now fun l => ((),l.release lease.key) with
      ⟨err,next,other,eq,turn⟩ | ⟨state,swept,got,token,finds,even,eq⟩
    · exact .inl ⟨err,next,fun _ => other,eq,turn⟩
    refine .inr ⟨state,_,rfl,got,token,eq,foundTurn (fun key => ?_) fun old => ?_⟩
    · by_cases here : key = lease.key
      · subst here
        simp [release]
      · simp [release,AList.lookup_erase_ne here,update_of_ne here,finds]
    exact releaseBalanced ((finds _).trans got) (even old)

theorem refreshExact (l ctx lease ttl now) :
    (∃ err next, (ctx = none → ∀ state, live l now lease.key = some state → state.token ≠ lease.token) ∧
      l.refresh ctx lease ttl now = (.error err,next) ∧ Turn l now (live l now) next) ∨
    ∃ state expiry next, ctx = none ∧ live l now lease.key = some state ∧ state.token = lease.token ∧
      l.refresh ctx lease ttl now = (.ok ⟨lease.key,lease.token,expiry⟩,next) ∧
      Turn l now (update (live l now) lease.key (some ⟨lease.token,expiry⟩)) next := by
  cases ctx with
  | some err => exact .inl ⟨.context err,l,nofun,rfl,quietTurn l now⟩
  | none =>
    rcases ownedExact l lease now fun l =>
        ((⟨lease.key,lease.token,now + l.ttl ttl⟩ : Lease),l.extend lease.key ⟨lease.token,now + l.ttl ttl⟩) with
      ⟨err,next,other,eq,turn⟩ | ⟨state,swept,got,token,finds,even,eq⟩
    · exact .inl ⟨err,next,fun _ => other,eq,turn⟩
    refine .inr ⟨state,now + swept.ttl ttl,_,rfl,got,token,eq,foundTurn (fun key => ?_) fun old => ?_⟩
    · by_cases here : key = lease.key
      · subst here
        simp [extend]
      · simp [extend,AList.lookup_insert_ne here,update_of_ne here,finds]
    exact extendBalanced ((finds _).trans got) (even old)

section
open Transition
open Function (update_self)
def Lease.state (x : Lease) : LockState := ⟨x.token,x.expiresAt⟩
def unexpired (now : Int) (leases : List Lease) (key : String) : List Lease :=
  leases.filter fun x => x.key == key && decide (now < x.expiresAt)

structure Held (w : World) : Prop where
  balanced : Balanced w.locker
  read : ∀ call ∈ w.waiting, call.now ≤ w.now
  current : ∀ key, (unexpired w.now w.leases key).map Lease.state = (live w.locker w.now key).toList

theorem unexpiredAdd (now leases x key) : unexpired now (leases ++ [x]) key =
      unexpired now leases key ++ if x.key = key ∧ now < x.expiresAt then [x] else [] := by
  unfold unexpired
  simp [List.filter_cons]

theorem unexpiredEnded (now leases lease key) :
    unexpired now (ended lease leases) key = ended lease (unexpired now leases key) := by
  unfold unexpired ended
  rw [List.filter_filter,List.filter_filter]
  exact List.filter_congr fun x _ => Bool.and_comm _ _

theorem unexpiredLater (order : now ≤ later) (leases key) : (unexpired later leases key).map Lease.state =
      ((unexpired now leases key).map Lease.state).filter fun state => later < state.expiresAt := by
  unfold unexpired
  rw [List.filter_map,List.filter_filter]
  congr 1
  refine List.filter_congr fun x _ => ?_
  simp only [Function.comp,Lease.state]
  by_cases lasts : later < x.expiresAt
  · have now : now < x.expiresAt := by omega
    simp [lasts,now]
  simp [lasts]

theorem memUnexpired : x ∈ unexpired now leases key ↔ x ∈ leases ∧ x.key = key ∧ now < x.expiresAt := by
  simp [unexpired]

theorem endedElsewhere (ne : key ≠ lease.key) : ended lease (unexpired now leases key) = unexpired now leases key := by
  refine List.filter_eq_self.mpr fun x mem => ?_
  have eq : x.key = key := (memUnexpired.mp mem).2.1
  simp [eq,ne]

theorem endedHere (current : (unexpired now leases lease.key).map Lease.state = [state])
    (owner : state.token = lease.token) : ended lease (unexpired now leases lease.key) = [] := by
  refine List.filter_eq_nil_iff.mpr fun x mem => ?_
  have eq : x.key = lease.key := (memUnexpired.mp mem).2.1
  have token : Lease.state x = state := List.mem_singleton.mp (current ▸ List.mem_map_of_mem mem)
  simp [eq,← owner,← token,Lease.state]

theorem heldTurn (held : Held w) (turn : Turn w.locker now got l)
    (order : now ≤ w.now) (waiting : ∀ call ∈ next.waiting, call ∈ w.waiting) (clock : next.now = w.now)
    (locker : next.locker = l) (current : ∀ key, (unexpired w.now next.leases key).map Lease.state =
      ((got key).filter fun state => w.now < state.expiresAt).toList) : Held next := by
  refine ⟨locker ▸ turn.balanced held.balanced,fun call mem => clock ▸ held.read call (waiting call mem),?_⟩
  intro key
  rw [clock,locker,turn.sees _ key order,current]

theorem heldQuiet (held : Held w) (turn : Turn w.locker now (live w.locker now) l) (order : now ≤ w.now)
    (waiting : ∀ call ∈ next.waiting, call ∈ w.waiting) (clock : next.now = w.now) (locker : next.locker = l)
    (leases : next.leases = w.leases) : Held next := by
  refine heldTurn held turn order waiting clock locker fun key => ?_
  rw [leases,liveLater _ _ order,held.current]

theorem addedCurrent {got : String → Option LockState} (current : ∀ key, (unexpired now leases key).map Lease.state =
      ((got key).filter fun state => now < state.expiresAt).toList)
    (free : (got x.key).filter (fun state => now < state.expiresAt) = none) (key) :
    (unexpired now (leases ++ [x]) key).map Lease.state =
      ((update got x.key (some x.state) key).filter fun state => now < state.expiresAt).toList := by
  rw [unexpiredAdd,List.map_append,current]
  by_cases here : key = x.key
  · subst here
    rw [free,update_self,filter_some]
    by_cases lasts : now < x.expiresAt <;> simp [lasts,Lease.state]
  have other : x.key ≠ key := fun eq => here eq.symm
  rw [update_of_ne here]
  simp [other]

theorem endedCurrent (held : Held w) (got : live w.locker w.now lease.key = some state)
    (owner : state.token = lease.token) (key) : (unexpired w.now (ended lease w.leases) key).map Lease.state =
      ((update (live w.locker w.now) lease.key none key).filter
        fun state => w.now < state.expiresAt).toList := by
  rw [unexpiredEnded]
  by_cases here : key = lease.key
  · subst here
    have one := held.current lease.key
    rw [got] at one
    rw [endedHere one owner,update_self]
    rfl
  rw [endedElsewhere here,held.current,update_of_ne here,liveLater _ _ (Int.le_refl _)]

theorem enterHeld (held : Held w) (got : w.waiting[i]? = some call)
    (ran : step w (.enter i) = some next) : Held next := by
  have order := held.read call (List.mem_of_getElem? got)
  have fewer : ∀ c ∈ w.waiting.eraseIdx i, c ∈ w.waiting := fun c mem => List.mem_of_mem_eraseIdx mem
  simp only [step,got] at ran
  rcases tryLockAtExact w.locker call.key call.token call.ttl call.now with
    ⟨l,eq,turn⟩ | ⟨expiry,l,free,eq,turn⟩
  · rw [eq] at ran
    cases ran
    exact heldQuiet held turn order fewer rfl rfl rfl
  rw [eq] at ran
  cases ran
  refine heldTurn held turn order fewer rfl rfl (addedCurrent (fun key => ?_) (by rw [free]; rfl))
  rw [held.current,liveLater _ _ order]

theorem stepHeld (w a next) (held : Held w) (_ : Free w a) (ran : step w a = some next) : Held next := by
  cases a with
  | tick d =>
    cases ran
    have order : w.now ≤ w.now + d := by omega
    refine ⟨held.balanced,fun call mem => Int.le_trans (held.read call mem) order,fun key => ?_⟩
    rw [unexpiredLater order,held.current,← liveLater _ _ order]
    cases live w.locker w.now key <;> simp [filter_some,List.filter_cons]
    split <;> rfl
  | tryLock =>
    simp only [step] at ran
    split at ran <;> cases ran
    · exact held
    rename_i entered
    refine { held with read := fun c mem => ?_ }
    rcases List.mem_append.mp mem with old | new
    · exact held.read c old
    rw [List.mem_singleton.mp new]
    unfold tryLock at entered
    split at entered <;> try contradiction
    split at entered <;> try contradiction
    split at entered <;> cases entered
    exact Int.le_refl _
  | enter i =>
    cases got : w.waiting[i]? with
    | none => simp [step,got] at ran
    | some => exact enterHeld held got ran
  | unlock ctx lease =>
    simp only [step] at ran
    rcases unlockExact w.locker ctx lease w.now with
      ⟨err,l,_,eq,turn⟩ | ⟨state,l,_,got,owner,eq,turn⟩
    · rw [eq] at ran
      cases ran
      exact heldQuiet held turn (Int.le_refl _) (fun _ => id) rfl rfl rfl
    rw [eq] at ran
    cases ran
    exact heldTurn held turn (Int.le_refl _) (fun _ => id) rfl rfl (endedCurrent held got owner)
  | refresh ctx lease ttl =>
    simp only [step] at ran
    rcases refreshExact w.locker ctx lease ttl w.now with
      ⟨err,l,_,eq,turn⟩ | ⟨state,expiry,l,_,got,owner,eq,turn⟩
    · rw [eq] at ran
      cases ran
      exact heldQuiet held turn (Int.le_refl _) (fun _ => id) rfl rfl rfl
    rw [eq] at ran
    cases ran
    refine heldTurn held turn (Int.le_refl _) (fun _ => id) rfl rfl fun key => ?_
    have added := addedCurrent (x := ⟨lease.key,lease.token,expiry⟩) (endedCurrent held got owner)
      (by rw [update_self]; rfl) key
    rwa [Function.update_idem] at added
  | snapshot =>
    cases ran
    exact heldQuiet held (foundTurn (cleanupFinds _ _) (cleanupBalanced _)) (Int.le_refl _) (fun _ => id) rfl rfl rfl

theorem startHeld (defaultTTL now) : Held (start defaultTTL now) := by
  refine ⟨rfl,nofun,fun key => ?_⟩
  rfl

theorem runHeld {defaultTTL} (ran : Trace step Free (start defaultTTL now) as w) : Held w :=
  traceInvariant stepHeld ran (startHeld defaultTTL now)

theorem heldSingle (held : Held w) (key) : (unexpired w.now w.leases key).length ≤ 1 := by
  have count := congrArg List.length (held.current key)
  rw [List.length_map] at count
  rw [count]
  cases live w.locker w.now key <;> simp

theorem heldLive (held : Held w) :
    live w.locker w.now key = some state ↔ ∃ x ∈ unexpired w.now w.leases key, x.state = state := by
  have eq := held.current key
  rw [← Option.mem_toList,← eq,List.mem_map]

theorem heldOwner (held : Held w) (key token) :
    (∃ state, live w.locker w.now key = some state ∧ state.token = token) ↔
      ∃ x ∈ unexpired w.now w.leases key, x.token = token := by
  constructor
  · rintro ⟨state,got,owner⟩
    obtain ⟨x,mem,rfl⟩ := (heldLive held).mp got
    exact ⟨x,mem,owner⟩
  rintro ⟨x,mem,owner⟩
  exact ⟨x.state,(heldLive held).mpr ⟨x,mem,rfl⟩,owner⟩

def bearer : Act → Option (String × String)
  | .unlock _ lease | .refresh _ lease _ => some (lease.key,lease.token)
  | _ => none

theorem stepKeeps (ran : step w a = some next) (mem : x ∈ w.leases) :
    x ∈ next.leases ∨ bearer a = some (x.key,x.token) := by
  have stays (lease : Lease) : x ∈ ended lease w.leases ∨ (lease.key,lease.token) = (x.key,x.token) := by
    by_cases eq : x.key = lease.key ∧ x.token = lease.token
    · exact .inr (by rw [eq.1,eq.2])
    exact .inl (List.mem_filter.mpr ⟨mem,by
      rw [Bool.not_eq_true']
      simpa using eq⟩)
  cases a with
  | tick | snapshot =>
    cases ran
    exact .inl mem
  | tryLock =>
    simp only [step] at ran
    split at ran <;> cases ran <;> exact .inl mem
  | enter =>
    simp only [step] at ran
    split at ran <;> try contradiction
    split at ran <;> cases ran
    · exact .inl mem
    exact .inl (List.mem_append_left _ mem)
  | unlock ctx lease =>
    simp only [step] at ran
    split at ran <;> cases ran
    · exact .inl mem
    exact (stays lease).imp id (congrArg some)
  | refresh ctx lease =>
    simp only [step] at ran
    split at ran <;> cases ran
    · exact .inl mem
    exact (stays lease).imp (List.mem_append_left _) (congrArg some)

theorem snapshotBalanced (now) (even : Balanced l) : (l.snapshot now).1.acquired =
      (l.snapshot now).1.active + (l.snapshot now).1.released + (l.snapshot now).1.expired :=
  cleanupBalanced now even

theorem unlockOwner (held : Held w) (lease) :
    (w.locker.unlock none lease w.now).1 = .ok () ↔ ∃ x ∈ unexpired w.now w.leases lease.key, x.token = lease.token := by
  rw [← heldOwner held]
  rcases unlockExact w.locker none lease w.now with ⟨err,l,other,eq,_⟩ | ⟨state,l,_,got,owner,eq,_⟩
  · simp only [eq,reduceCtorEq,false_iff]
    rintro ⟨state,got,owner⟩
    exact other rfl state got owner
  simp only [eq,true_iff]
  exact ⟨state,got,owner⟩

theorem refreshOwner (held : Held w) (lease ttl) :
    (∃ renewed, (w.locker.refresh none lease ttl w.now).1 = .ok renewed) ↔
      ∃ x ∈ unexpired w.now w.leases lease.key, x.token = lease.token := by
  rw [← heldOwner held]
  rcases refreshExact w.locker none lease ttl w.now with
    ⟨err,l,other,eq,_⟩ | ⟨state,expiry,l,_,got,owner,eq,_⟩
  · simp only [eq,reduceCtorEq,exists_false,false_iff]
    rintro ⟨state,got,owner⟩
    exact other rfl state got owner
  simp only [eq,Except.ok.injEq,exists_eq',true_iff]
  exact ⟨state,got,owner⟩

/-- At most one lease of a key is unexpired, its token alone releases and refreshes it, and the
counters balance. -/
theorem leasesExclusiveAndCounted {defaultTTL : Int} {as : List Act}
    (ran : Trace step Free (start defaultTTL now) as w) : (∀ key, (unexpired w.now w.leases key).length ≤ 1) ∧
    (∀ lease, (w.locker.unlock none lease w.now).1 = .ok () ↔
      ∃ x ∈ unexpired w.now w.leases lease.key, x.token = lease.token) ∧
    (∀ lease ttl, (∃ renewed, (w.locker.refresh none lease ttl w.now).1 = .ok renewed) ↔
      ∃ x ∈ unexpired w.now w.leases lease.key, x.token = lease.token) ∧
    (∀ a next key, step w a = some next → ∀ x ∈ unexpired w.now w.leases key, next.now < x.expiresAt →
      live next.locker next.now key = some x.state ∨ bearer a = some (key,x.token)) ∧
    (w.locker.snapshot w.now).1.acquired = (w.locker.snapshot w.now).1.active +
      (w.locker.snapshot w.now).1.released + (w.locker.snapshot w.now).1.expired := by
  have held := runHeld ran
  refine ⟨heldSingle held,unlockOwner held,refreshOwner held,?_,snapshotBalanced w.now held.balanced⟩
  intro a next key moved x member lasts
  obtain ⟨inside,rfl,_⟩ := memUnexpired.mp member
  refine (stepKeeps moved inside).imp_left fun stays => ?_
  exact (heldLive (stepHeld w a next held trivial moved)).mpr ⟨x,memUnexpired.mpr ⟨stays,rfl,lasts⟩,rfl⟩

def contested : List Act :=
  [.tryLock none "job" 10 (.ok "a"),.enter 0,.tryLock none "job" 5 (.ok "b"),.tryLock none "leader" 0 (.ok "c"),
    .enter 1,.tick 20,.tryLock none "job" 50 (.ok "d"),.enter 1,.enter 0,.snapshot]

theorem contestedExclusive : ∃ w, Transition.run step (start 0 0) contested = some w ∧
    (unexpired w.now w.leases "job").length = 1 ∧ (w.locker.unlock none ⟨"job","a",10⟩ w.now).1 ≠ .ok () ∧
    (w.locker.snapshot w.now).1 = ⟨2,3,1,0,0,1,0⟩ ∧
    (w.locker.snapshot w.now).1.acquired = (w.locker.snapshot w.now).1.active +
      (w.locker.snapshot w.now).1.released + (w.locker.snapshot w.now).1.expired := by
  have ran : (run step (start 0 0) contested).any (fun w =>
      (unexpired w.now w.leases "job").map Lease.token == ["d"] &&
      (w.locker.snapshot w.now).1 == ⟨2,3,1,0,0,1,0⟩) = true := by decide +kernel
  obtain ⟨w,ran,seen⟩ := (Option.any_eq_true _ _).mp ran
  simp only [Bool.and_eq_true,beq_iff_eq] at seen
  obtain ⟨_,owner,_,_,balanced⟩ := leasesExclusiveAndCounted (runFree ran)
  refine ⟨w,ran,?_,fun released => ?_,seen.2,balanced⟩
  · have one := congrArg List.length seen.1
    simpa using one
  obtain ⟨x,member,token⟩ := (owner _).mp released
  have other := seen.1 ▸ List.mem_map_of_mem (f := Lease.token) member
  simp [token] at other

end
end Gofly.MemoryLocker
