import Gofly.RpcPool

/-! Who has a connection. uses counts its places: the idle list, the loans not yet given back
and the releases under way. -/
namespace Gofly.RpcPoolLoans
open Transition Weights RpcPool

def idleAt (c i : Nat) : Nat := if i = c then 1 else 0
def lentAt (c : Nat) (loan : Loan) : Nat := if loan.conn = c ∧ loan.returned = false then 1 else 0
def returningAt (c : Nat) (r : Release) : Nat := if r.conn = c then 1 else 0

def lent (w : World) (c : Nat) : Nat := weigh (lentAt c) w.loans
def uses (w : World) (c : Nat) : Nat :=
  weigh (idleAt c) w.pool.idle + lent w c + weigh (returningAt c) w.releases

structure Exclusive (w : World) : Prop where
  borrowers : ∀ (i j : Nat) (a b : Loan), w.loans[i]? = some a → w.loans[j]? = some b → a.conn = b.conn →
    a.returned = false → b.returned = false → i = j
  once : w.pool.idle.Nodup
  apart : ∀ loan ∈ w.loans, loan.returned = false → loan.conn ∉ w.pool.idle

def careful (w : World) : Act → Bool
  | .release i _ => (w.loans[i]?.map fun loan =>
      !loan.returned || (w.conns[loan.conn]?.map PooledConn.released).getD true).getD true
  | _ => true

def once (w : World) : Act → Bool
  | .release i _ => (w.loans[i]?.map fun loan => !loan.returned).getD true
  | _ => true

structure Owned (w : World) : Prop where
  alone : ∀ c, uses w c ≤ 1
  known : ∀ c, w.conns.length ≤ c → uses w c = 0
  flag : ∀ c conn, w.conns[c]? = some conn → (conn.released = false ↔ 0 < lent w c)

section
variable {c : Nat}

theorem lentUses : lent w c ≤ uses w c := by
  rw [uses]
  omega

theorem Owned.fewer (o : Owned w) (sameConns : next.conns.length = w.conns.length)
    (flags : ∀ (c : Nat) (conn : PooledConn), next.conns[c]? = some conn → ∃ old, w.conns[c]? = some old ∧ old.released = conn.released)
    (loans : next.loans = w.loans) (fewer : ∀ c, uses next c ≤ uses w c) : Owned next where
  alone c := Nat.le_trans (fewer c) (o.alone c)
  known c outside := by
    have none := o.known c (by omega)
    have less := fewer c
    omega
  flag c conn found := by
    obtain ⟨old,was,eq⟩ := flags c conn found
    rw [← eq,o.flag c old was,lent,lent,loans]

theorem shutFlags (idle : List Nat) (conns : List PooledConn)
    (got : (idle.foldl (fun conns c => conns.modify c shutConn) conns)[c]? = some conn) :
    ∃ old, conns[c]? = some old ∧ old.released = conn.released := by
  rw [shutEach] at got
  obtain ⟨old,was,rfl⟩ := Option.map_eq_some_iff.mp got
  refine ⟨old,was,?_⟩
  split <;> rfl

theorem shutLength (idle : List Nat) (conns : List PooledConn) :
    (idle.foldl (fun conns c => conns.modify c shutConn) conns).length = conns.length := by
  induction idle generalizing conns with
  | nil => rfl
  | cons _ _ ih => rw [List.foldl_cons,ih,List.length_modify]

theorem setFlags {conns : List PooledConn} (ith : conns[d]? = some x)
    (eq : y.released = x.released) (got : (conns.set d y)[c]? = some conn) :
    ∃ old, conns[c]? = some old ∧ old.released = conn.released := by
  rcases atSet ith got with ⟨rfl,rfl⟩ | ⟨_,was⟩
  · exact ⟨x,ith,eq.symm⟩
  exact ⟨conn,was,rfl⟩

theorem reapUses (top : w.pool.idle = d :: rest) (c) : uses (reap w d rest) c + idleAt c d = uses w c := by
  simp only [uses,lent,reap,top,weighCons]
  omega

theorem lendUses (top : w.pool.idle = d :: rest) (c) : uses (lend w d rest) c = uses w c := by
  have eq : lentAt c ⟨d,false⟩ = idleAt c d := by simp [lentAt,idleAt]
  simp only [uses,lent,lend,top,weighCons,weighAppend,weighNil]
  omega

theorem reapOwned (o : Owned w) (top : w.pool.idle = d :: rest) : Owned (reap w d rest) := by
  refine o.fewer (List.length_modify ..) (fun c conn got => shutFlags [d] w.conns got) rfl fun c => ?_
  have sum := reapUses top c
  omega

theorem lendOwned (o : Owned w) (top : w.pool.idle = d :: rest) : Owned (lend w d rest) where
  alone c := by rw [lendUses top]; exact o.alone c
  known c outside := by
    rw [lendUses top]
    exact o.known c (by simpa [lend] using outside)
  flag c conn found := by
    have more : lent (lend w d rest) c = lent w c + idleAt c d := by simp [lent,lend,lentAt,idleAt]
    by_cases here : d = c
    · subst here
      simp only [lend,List.getElem?_modify_eq] at found
      obtain ⟨old,_,rfl⟩ := Option.map_eq_some_iff.mp found
      simp [more,idleAt]
    simp only [lend,List.getElem?_modify_ne _ _ here] at found
    rw [more,o.flag c conn found]
    simp [idleAt,here]

theorem takenOwned (taken : Taken w next) (o : Owned w) : Owned next := by
  induction taken with
  | full | reserved => exact { o with }
  | reaped top _ ih => exact ih (reapOwned o top)
  | lent top => exact lendOwned o top

theorem dialedUses (c) : uses (dialReserved w true) c = uses w c + idleAt c w.conns.length := by
  simp only [uses,lent,dialReserved,if_true,weighAppend,weighCons,weighNil]
  simp only [lentAt,idleAt,and_true]
  omega

theorem dialedOwned (o : Owned w) : Owned (dialReserved w true) := by
  have isNew := o.known w.conns.length (Nat.le_refl _)
  refine ⟨fun c => ?_,fun c outside => ?_,fun c conn got => ?_⟩
  · rw [dialedUses]
    by_cases here : w.conns.length = c
    · subst here
      simp [isNew,idleAt]
    simpa [idleAt,here] using o.alone c
  · have beyond : w.conns.length < c := by simpa [dialReserved,Nat.succ_le_iff] using outside
    rw [dialedUses,o.known c (Nat.le_of_lt beyond)]
    simp [idleAt,Nat.ne_of_lt beyond]
  have moreLent : lent (dialReserved w true) c = lent w c + idleAt c w.conns.length := by
    simp [lent,dialReserved,lentAt,idleAt]
  rcases Roster.addSeen got with ⟨rfl,rfl⟩ | old
  · simp [moreLent,idleAt]
  have mem := (List.getElem?_eq_some_iff.mp old).1
  rw [moreLent,o.flag c conn old]
  simp [idleAt,Nat.ne_of_gt mem]

theorem returnedLent (ith : w.loans[i]? = some loan) (held : loan.returned = false) (c) :
    weigh (lentAt c) (w.loans.set i { loan with returned := true }) + idleAt c loan.conn = lent w c := by
  have sum := weighSet (w := lentAt c) (y := { loan with returned := true }) ith
  simpa [lentAt,idleAt,held,lent] using sum

theorem releasedUses (discard) (ith : w.loans[i]? = some loan) (held : loan.returned = false) (c) :
    weigh (idleAt c) w.pool.idle + weigh (lentAt c) (w.loans.set i { loan with returned := true }) +
      weigh (returningAt c) (w.releases ++ [⟨loan.conn,discard,none⟩]) = uses w c := by
  have less := returnedLent ith held c
  simp only [uses,weighAppend,weighCons,weighNil,returningAt]
  simp only [idleAt] at less ⊢
  omega

theorem releasedOwned (o : Owned w) (discard)
    (ith : w.loans[i]? = some loan) (got : w.conns[loan.conn]? = some conn) (held : loan.returned = false) :
    Owned { w with
      conns := w.conns.set loan.conn { conn with released := true }
      loans := w.loans.set i { loan with returned := true }
      releases := w.releases ++ [⟨loan.conn,discard,none⟩] } := by
  have eq := releasedUses discard ith held
  refine ⟨fun c => ?_,fun c outside => ?_,fun c other isAt => ?_⟩
  · exact Nat.le_trans (Nat.le_of_eq (eq c)) (o.alone c)
  · exact (eq c).trans (o.known c (by simpa using outside))
  rcases atSet got isAt with ⟨rfl,rfl⟩ | ⟨elsewhere,was⟩
  · have most := Nat.le_trans lentUses (o.alone loan.conn)
    have less := returnedLent ith held loan.conn
    simp only [idleAt,if_true] at less
    simp only [lent]
    constructor
    · intro wrong
      cases wrong
    omega
  have less := returnedLent ith held c
  simp only [idleAt,Ne.symm elsewhere] at less
  rw [o.flag c other was,← less]
  rfl

theorem endedLoan {i : Nat} (o : Owned w) (ith : w.loans[i]? = some loan)
    (got : w.conns[loan.conn]? = some conn) (gone : conn.released = true) : loan.returned = true := by
  by_contra held
  have one : lentAt loan.conn loan = 1 := by simp [lentAt,held]
  have mem := weighMember (w := lentAt loan.conn) ith
  have out := (o.flag loan.conn conn got).mpr (by rw [lent]; omega)
  simp [gone] at out

theorem stepOwned (fits : careful w a = true) (ran : step w a = some next) (o : Owned w) : Owned next := by
  cases steppedOf ran with
  | tick | dialFailed => exact { o with }
  | refused | closedAlready => exact o
  | got _ taken => exact takenOwned taken o
  | dialed => exact dialedOwned o
  | again discard ith found gone =>
    rename_i i loan conn
    have ended := endedLoan o ith found gone
    have eq : w.loans.set i { loan with returned := true } = w.loans := by
      obtain ⟨bound,rfl⟩ := List.getElem_of_getElem? ith
      rw [← ended]
      exact List.set_getElem_self bound
    rw [eq]
    exact o
  | released discard ith found out =>
    rename_i loan conn
    have held : loan.returned = false := by
      cases ended : loan.returned with
      | false => rfl
      | true => simp [careful,ith,found,ended,out] at fits
    exact releasedOwned o discard ith found held
  | stamped ith found =>
    rename_i conn
    refine o.fewer List.length_set (fun c other isAt => setFlags found (by rfl) isAt) rfl fun c => Nat.le_of_eq ?_
    simp only [uses,lent]
    rw [weighSame (w := returningAt c) ith (by rfl)]
  | dropped ith found =>
    refine o.fewer List.length_set (fun c other isAt => setFlags found (by rfl) isAt) rfl fun c => ?_
    have sum := weighErase (w := returningAt c) ith
    simp only [uses,lent]
    omega
  | kept ith =>
    refine o.fewer rfl (fun c conn found => ⟨conn,found,rfl⟩) rfl fun c => ?_
    have sum := weighErase (w := returningAt c) ith
    simp only [uses,lent,weighCons]
    simp only [returningAt,idleAt] at sum ⊢
    omega
  | closed =>
    refine o.fewer (shutLength ..) (fun c conn found => shutFlags _ _ found) rfl fun c => ?_
    simp only [uses,lent,weighNil]
    omega

theorem startOwned (conf now) : Owned (start conf now) where
  alone _ := Nat.zero_le _
  known _ _ := rfl
  flag c conn found := by simp [start] at found

theorem idleWeight (idle c) : weigh (idleAt c) idle = idle.count c := by
  induction idle with
  | nil => rfl
  | cons _ _ ih =>
    rw [weighCons,ih,List.count_cons,Nat.add_comm]
    simp [idleAt]

theorem ownedExclusive (o : Owned w) : Exclusive w where
  borrowers i j a b left right eq isOut isOut' := by
    by_contra differ
    have both := weighPair (w := lentAt a.conn) differ left right
    have most := Nat.le_trans lentUses (o.alone a.conn)
    simp only [lentAt,isOut,isOut',eq,and_self,if_true] at both
    rw [lent,eq] at most
    omega
  once := by
    refine List.nodup_iff_count_le_one.mpr fun c => ?_
    have most := o.alone c
    rw [uses,idleWeight] at most
    omega
  apart loan mem isOut isIdle := by
    obtain ⟨i,ith⟩ := List.getElem?_of_mem mem
    have out := weighMember (w := lentAt loan.conn) ith
    have waiting := List.count_pos_iff.mpr isIdle
    have most := o.alone loan.conn
    rw [uses,idleWeight,lent] at most
    simp only [lentAt,isOut,and_self,if_true] at out
    omega
end

theorem connExclusive (conf : ConnPoolConfig) (now : Nat) (as : List Act) (w : World)
    (ran : Trace step (fun w a => careful w a = true) (start conf now) as w) : Exclusive w :=
  ownedExclusive (traceInvariant (P := Owned) (fun _ _ _ o fits moved => stepOwned fits moved o) ran (startOwned conf now))

def closesTwice : List Act :=
  [.get,.dialed,.release 0 false,.stamp 0,.release 0 true,.put 0,.release 0 false,.get,.release 1 false,.stamp 0,.put 0]

theorem connExclusiveLentTwice : ∃ w, w.loans = [⟨0,true⟩,⟨0,true⟩] ∧ w.pool.idle = [0] ∧ Exclusive w := by
  have accepted : accepts step (fun w a => careful w a = true) (start defaultConnPoolConfig 0) closesTwice = true := by decide
  obtain ⟨w,ran,trace⟩ := acceptedTrace accepted
  have seen : ((run step (start defaultConnPoolConfig 0) closesTwice).map fun w => (w.loans,w.pool.idle)) =
      some ([⟨0,true⟩,⟨0,true⟩],[0]) := by decide
  rw [ran] at seen
  obtain ⟨loans,idle⟩ := Prod.mk.inj (Option.some.inj seen)
  exact ⟨w,loans,idle,connExclusive defaultConnPoolConfig 0 closesTwice w trace⟩

def closesLate : List Act := [.get,.dialed,.release 0 false,.stamp 0,.put 0,.get,.release 0 false,.stamp 0,.put 0]

theorem lateCloseReleasesOther : ¬ ∀ as w, Trace step Free (start defaultConnPoolConfig 0) as w → Exclusive w := by
  intro exclusive
  have seen : ((run step (start defaultConnPoolConfig 0) (closesLate ++ [.get])).map World.loans) =
      some [⟨0,true⟩,⟨0,false⟩,⟨0,false⟩] := by decide
  obtain ⟨w,ran,loans⟩ := Option.map_eq_some_iff.mp seen
  have one := (exclusive _ w (runFree ran)).borrowers 1 2 ⟨0,false⟩ ⟨0,false⟩ (by rw [loans]; rfl) (by rw [loans]; rfl) rfl rfl rfl
  cases one

end Gofly.RpcPoolLoans
