import Gofly.Discovery
import Gofly.Roster
import Gofly.Transition
import Gofly.Weights

/-! The connection pool of the RPC client. A PooledConn is named by its place in conns. -/
namespace Gofly.RpcPool
open Transition

structure ConnPoolConfig where
  maxIdle : Int
  maxActive : Int
  idleTimeout : Int
  maxLifetime : Int
  dialTimeout : Int
  waitInterval : Int
  mode : String
  deriving DecidableEq

def defaultConnPoolConfig : ConnPoolConfig := ⟨16,64,60000000000,1800000000000,3000000000,5000000,"pool"⟩

inductive Mode where
  | pool | long | short
  deriving DecidableEq

-- no letter outside ASCII is lowered to a letter of the three names
def normalizeConnPoolMode (mode : String) : Mode :=
  let name := (Discovery.trimSpace mode).toList.map Char.toLower
  if name = "short".toList then .short else if name = "long".toList then .long else .pool

structure PooledConn where
  created : Nat
  lastUsed : Nat
  released : Bool
  shut : Bool
  deriving DecidableEq

-- idle is listed newest first
structure ConnPool where
  conf : ConnPoolConfig
  mode : Mode
  idle : List Nat
  active : Int
  closed : Bool
  created : Nat
  reused : Nat
  closedN : Nat
  waits : Nat
  deriving DecidableEq

def newConnPoolWithDialer (conf : ConnPoolConfig) : ConnPool :=
  let defaults := defaultConnPoolConfig
  let maxIdle := if conf.maxIdle < 0 then 0 else conf.maxIdle
  let maxActive := if conf.maxActive < 0 then 0 else conf.maxActive
  let conf : ConnPoolConfig :=
    { maxIdle := if maxIdle = 0 then defaults.maxIdle else maxIdle
      maxActive := if maxActive = 0 then defaults.maxActive else maxActive
      idleTimeout := if conf.idleTimeout = 0 then defaults.idleTimeout else conf.idleTimeout
      maxLifetime := if conf.maxLifetime = 0 then defaults.maxLifetime else conf.maxLifetime
      dialTimeout := if conf.dialTimeout = 0 then defaults.dialTimeout else conf.dialTimeout
      waitInterval := if conf.waitInterval ≤ 0 then defaults.waitInterval else conf.waitInterval
      mode := conf.mode }
  ⟨conf,normalizeConnPoolMode conf.mode,[],0,false,0,0,0,0⟩

def expiredLocked (conf : ConnPoolConfig) (conn : PooledConn) (now : Nat) : Bool :=
  (0 < conf.idleTimeout && conf.idleTimeout < (now : Int) - conn.lastUsed) ||
    (0 < conf.maxLifetime && conf.maxLifetime < (now : Int) - conn.created)

structure Loan where
  conn : Nat
  returned : Bool
  deriving DecidableEq

structure Release where
  conn : Nat
  discard : Bool
  now : Option Nat
  deriving DecidableEq

structure World where
  now : Nat
  pool : ConnPool
  conns : List PooledConn
  dialing : Nat
  loans : List Loan
  releases : List Release
  deriving DecidableEq

def start (conf : ConnPoolConfig) (now : Nat) : World := ⟨now,newConnPoolWithDialer conf,[],0,[],[]⟩

inductive Act where
  | tick (d : Nat)
  | get
  | dialed
  | dialFailed
  | release (loan : Nat) (discard : Bool)
  | stamp (i : Nat)
  | put (i : Nat)
  | close
  deriving DecidableEq

def shutConn (conn : PooledConn) : PooledConn := { conn with shut := true }

def reap (w : World) (c : Nat) (rest : List Nat) : World :=
  { w with
    pool := { w.pool with idle := rest,active := w.pool.active - 1,closedN := w.pool.closedN + 1 }
    conns := w.conns.modify c shutConn }

def lend (w : World) (c : Nat) (rest : List Nat) : World :=
  { w with
    pool := { w.pool with idle := rest,reused := w.pool.reused + 1 }
    conns := w.conns.modify c fun conn => { conn with released := false }
    loans := w.loans ++ [⟨c,false⟩] }

def expiredAt (w : World) (c : Nat) : Bool := (w.conns[c]?.map fun conn => expiredLocked w.pool.conf conn w.now).getD true

def takeIdle (w : World) : List Nat → World
  | [] =>
    if 0 < w.pool.conf.maxActive ∧ w.pool.conf.maxActive ≤ w.pool.active then
      { w with pool := { w.pool with waits := w.pool.waits + 1 } }
    else { w with pool := { w.pool with active := w.pool.active + 1 },dialing := w.dialing + 1 }
  | c :: rest => if expiredAt w c then takeIdle (reap w c rest) rest else lend w c rest

def tryGetIdleOrReserve (w : World) : World := if w.pool.closed then w else takeIdle w w.pool.idle

def dialReserved (w : World) (ok : Bool) : World :=
  if ok then
    { w with
      dialing := w.dialing - 1
      pool := { w.pool with created := w.pool.created + 1 }
      conns := w.conns ++ [⟨w.now,w.now,false,false⟩]
      loans := w.loans ++ [⟨w.conns.length,false⟩] }
  else { w with dialing := w.dialing - 1,pool := { w.pool with active := w.pool.active - 1 } }

def closeConn (w : World) (i : Nat) (loan : Loan) (conn : PooledConn) (discard : Bool) : World :=
  if conn.released then { w with loans := w.loans.set i { loan with returned := true } }
  else
    { w with
      conns := w.conns.set loan.conn { conn with released := true }
      loans := w.loans.set i { loan with returned := true }
      releases := w.releases ++ [⟨loan.conn,discard,none⟩] }

def release (w : World) (i : Nat) (r : Release) (conn : PooledConn) (now : Nat) : World :=
  let shouldClose := r.discard || w.pool.closed || w.pool.mode = .short || expiredLocked w.pool.conf conn now ||
    w.pool.conf.maxIdle ≤ w.pool.idle.length
  if shouldClose then
    { w with
      pool := { w.pool with active := w.pool.active - 1,closedN := w.pool.closedN + 1 }
      conns := w.conns.set r.conn (shutConn conn)
      releases := w.releases.eraseIdx i }
  else
    { w with
      pool := { w.pool with idle := r.conn :: w.pool.idle }
      releases := w.releases.eraseIdx i }

def closeWithReason (w : World) : World :=
  if w.pool.closed then w
  else
    { w with
      pool := { w.pool with
        closed := true
        idle := []
        active := w.pool.active - w.pool.idle.length
        closedN := w.pool.closedN + w.pool.idle.length }
      conns := w.pool.idle.foldl (fun conns c => conns.modify c shutConn) w.conns }

def step (w : World) : Act → Option World
  | .tick d => some { w with now := w.now + d }
  | .get => some (tryGetIdleOrReserve w)
  | .dialed => if w.dialing = 0 then none else some (dialReserved w true)
  | .dialFailed => if w.dialing = 0 then none else some (dialReserved w false)
  | .release i discard =>
    match w.loans[i]? with
    | none => none
    | some loan =>
      match w.conns[loan.conn]? with
      | none => none
      | some conn => some (closeConn w i loan conn discard)
  | .stamp i =>
    match w.releases[i]? with
    | none => none
    | some r =>
      match w.conns[r.conn]?, r.now with
      | some conn,none =>
        some { w with
          conns := w.conns.set r.conn { conn with lastUsed := w.now }
          releases := w.releases.set i { r with now := some w.now } }
      | _,_ => none
  | .put i =>
    match w.releases[i]? with
    | none => none
    | some r =>
      match w.conns[r.conn]?, r.now with
      | some conn,some now => some (release w i r conn now)
      | _,_ => none
  | .close => some (closeWithReason w)

theorem shutEach (idle : List Nat) (conns : List PooledConn) (c) :
    (idle.foldl (fun conns c => conns.modify c shutConn) conns)[c]? =
      conns[c]?.map fun conn => if c ∈ idle then shutConn conn else conn := by
  induction idle generalizing conns with
  | nil => simp
  | cons d rest ih =>
    rw [List.foldl_cons,ih]
    by_cases here : d = c
    · subst here
      by_cases again : d ∈ rest <;> simp [Function.comp_def,shutConn]
    simp [here,Ne.symm here]

inductive Taken : World → World → Prop where
  | full (empty : w.pool.idle = []) : Taken w { w with pool := { w.pool with waits := w.pool.waits + 1 } }
  | reserved (empty : w.pool.idle = [])
      (room : 0 < w.pool.conf.maxActive → w.pool.active < w.pool.conf.maxActive) :
      Taken w { w with pool := { w.pool with active := w.pool.active + 1 },dialing := w.dialing + 1 }
  | reaped {w next : World} {c : Nat} {rest : List Nat} (top : w.pool.idle = c :: rest)
      (later : Taken (reap w c rest) next) : Taken w next
  | lent {w : World} {c : Nat} {conn : PooledConn} {rest : List Nat} (top : w.pool.idle = c :: rest)
      (found : w.conns[c]? = some conn) (fresh : expiredLocked w.pool.conf conn w.now = false) :
      Taken w (lend w c rest)

theorem takenOf (w) : Taken w (takeIdle w w.pool.idle) := by
  generalize ith : w.pool.idle = idle
  induction idle generalizing w with
  | nil =>
    rw [takeIdle]
    split
    · exact .full ith
    exact .reserved ith fun pos => by omega
  | cons c rest ih =>
    rw [takeIdle]
    split
    · exact .reaped ith (ih (reap w c rest) rfl)
    rename_i fresh
    cases got : w.conns[c]? with
    | none => simp [expiredAt,got] at fresh
    | some => exact .lent ith got (by simpa [expiredAt,got] using fresh)

inductive Stepped : World → Act → World → Prop where
  | tick (d : Nat) : Stepped w (.tick d) { w with now := w.now + d }
  | refused (closed : w.pool.closed = true) : Stepped w .get w
  | got (live : w.pool.closed = false) (taken : Taken w next) : Stepped w .get next
  | dialed (dialing : 0 < w.dialing) : Stepped w .dialed (dialReserved w true)
  | dialFailed (dialing : 0 < w.dialing) : Stepped w .dialFailed (dialReserved w false)
  | again (discard : Bool)
      (listed : w.loans[i]? = some loan) (found : w.conns[loan.conn]? = some conn) (gone : conn.released = true) :
      Stepped w (.release i discard) { w with loans := w.loans.set i { loan with returned := true } }
  | released (discard : Bool)
      (listed : w.loans[i]? = some loan) (found : w.conns[loan.conn]? = some conn) (out : conn.released = false) :
      Stepped w (.release i discard)
        { w with
          conns := w.conns.set loan.conn { conn with released := true }
          loans := w.loans.set i { loan with returned := true }
          releases := w.releases ++ [⟨loan.conn,discard,none⟩] }
  | stamped (listed : w.releases[i]? = some r)
      (found : w.conns[r.conn]? = some conn) :
      Stepped w (.stamp i)
        { w with
          conns := w.conns.set r.conn { conn with lastUsed := w.now }
          releases := w.releases.set i { r with now := some w.now } }
  | dropped (listed : w.releases[i]? = some r)
      (found : w.conns[r.conn]? = some conn) :
      Stepped w (.put i)
        { w with
          pool := { w.pool with active := w.pool.active - 1,closedN := w.pool.closedN + 1 }
          conns := w.conns.set r.conn (shutConn conn)
          releases := w.releases.eraseIdx i }
  | kept {w : World} {i : Nat} {r : Release} (listed : w.releases[i]? = some r) (live : w.pool.closed = false)
      (room : w.pool.idle.length < w.pool.conf.maxIdle) :
      Stepped w (.put i)
        { w with pool := { w.pool with idle := r.conn :: w.pool.idle },releases := w.releases.eraseIdx i }
  | closed (live : w.pool.closed = false) :
      Stepped w .close
        { w with
          pool := { w.pool with
            closed := true
            idle := []
            active := w.pool.active - w.pool.idle.length
            closedN := w.pool.closedN + w.pool.idle.length }
          conns := w.pool.idle.foldl (fun conns c => conns.modify c shutConn) w.conns }
  | closedAlready (closed : w.pool.closed = true) : Stepped w .close w

theorem steppedOf (ran : step w a = some next) : Stepped w a next := by
  cases a with
  | tick d => cases ran; exact .tick d
  | get =>
    cases ran
    cases open_ : w.pool.closed with
    | true => simpa [tryGetIdleOrReserve,open_] using Stepped.refused open_
    | false => simpa [tryGetIdleOrReserve,open_] using Stepped.got open_ (takenOf w)
  | dialed =>
    simp only [step] at ran
    split at ran <;> cases ran
    exact .dialed (by omega)
  | dialFailed =>
    simp only [step] at ran
    split at ran <;> cases ran
    exact .dialFailed (by omega)
  | release i discard =>
    simp only [step] at ran
    split at ran <;> try contradiction
    rename_i ith
    split at ran <;> cases ran
    rename_i conn found
    cases flag : conn.released with
    | true => simpa [closeConn,flag] using Stepped.again discard ith found flag
    | false => simpa [closeConn,flag] using Stepped.released discard ith found flag
  | stamp =>
    simp only [step] at ran
    split at ran <;> try contradiction
    rename_i ith
    split at ran <;> cases ran
    rename_i found unread
    exact .stamped ith found
  | put =>
    simp only [step] at ran
    split at ran <;> try contradiction
    rename_i ith
    split at ran <;> cases ran
    rename_i found read
    simp only [release]
    split
    · exact .dropped ith found
    rename_i keeps
    simp only [Bool.or_eq_true,decide_eq_true_eq,not_or] at keeps
    exact .kept ith (by simpa using keeps.1.1.1.2) (by omega)
  | close =>
    cases ran
    cases open_ : w.pool.closed with
    | true => simpa [closeWithReason,open_] using Stepped.closedAlready open_
    | false => simpa [closeWithReason,open_] using Stepped.closed open_

end Gofly.RpcPool
