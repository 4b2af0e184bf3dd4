import Gofly.RpcPoolLoans

/-! The counters of the pool when every loan is given back once. A connection is borrowed
from the Get that hands it out to the locked section of its release. -/
namespace Gofly.RpcPoolCounts
open Transition Weights RpcPool RpcPoolLoans

def out (loan : Loan) : Nat := if loan.returned then 0 else 1
def borrowed (w : World) : Nat := weigh out w.loans + w.releases.length

def Borrowed (w : World) (c : Nat) : Prop :=
  (∃ loan ∈ w.loans, loan.conn = c ∧ loan.returned = false) ∨ ∃ r ∈ w.releases, r.conn = c

structure Accounted (w : World) : Prop where
  active : w.pool.active = w.pool.idle.length + borrowed w + w.dialing
  maxActive : 0 < w.pool.conf.maxActive → w.pool.active ≤ w.pool.conf.maxActive
  maxIdle : 0 < w.pool.conf.maxIdle → w.pool.idle.length ≤ w.pool.conf.maxIdle
  created : (w.pool.created : Int) - w.pool.closedN = w.pool.idle.length + borrowed w
  shut : w.pool.closed = true → ∀ (c : Nat) (conn : PooledConn), w.conns[c]? = some conn → conn.shut = true ∨ Borrowed w c
  drained : w.pool.closed = true → borrowed w = 0 → w.dialing = 0 → w.pool.active = 0

structure Counted (w : World) : Prop where
  active : w.pool.active = w.pool.idle.length + borrowed w + w.dialing
  maxActive : 0 < w.pool.conf.maxActive → w.pool.active ≤ w.pool.conf.maxActive
  maxIdle : 0 < w.pool.conf.maxIdle → w.pool.idle.length ≤ w.pool.conf.maxIdle
  created : w.pool.created = w.pool.closedN + w.pool.idle.length + borrowed w
  emptied : w.pool.closed = true → w.pool.idle = []
  placed : ∀ (c : Nat) (conn : PooledConn), w.conns[c]? = some conn → conn.shut = true ∨ 0 < uses w c

theorem borrowedMore (more : next.loans = w.loans ++ [⟨c,false⟩]) (eq : next.releases = w.releases) :
    borrowed next = borrowed w + 1 := by
  simp only [borrowed,more,eq,weighAppend,weighCons,out]
  simp
  omega

theorem shutAll (idle : List Nat) (conns : List PooledConn)
    (got : (idle.foldl (fun conns c => conns.modify c shutConn) conns)[c]? = some conn) :
    conn.shut = true ∨ (c ∉ idle ∧ conns[c]? = some conn) := by
  rw [shutEach] at got
  obtain ⟨old,was,rfl⟩ := Option.map_eq_some_iff.mp got
  by_cases isIdle : c ∈ idle
  · exact .inl (by simp [isIdle,shutConn])
  exact .inr ⟨isIdle,by simpa [isIdle] using was⟩

theorem reapCounted (o : Counted w) (top : w.pool.idle = d :: rest) : Counted (reap w d rest) := by
  obtain ⟨active,maxActive,maxIdle,created,emptied,placed⟩ := o
  rw [top,List.length_cons] at active maxIdle created
  refine ⟨?_,fun pos => ?_,fun pos => ?_,?_,fun closed => ?_,fun c conn got => ?_⟩
  · show w.pool.active - 1 = rest.length + borrowed w + w.dialing
    omega
  · show w.pool.active - 1 ≤ w.pool.conf.maxActive
    have most := maxActive pos
    omega
  · show (rest.length : Int) ≤ w.pool.conf.maxIdle
    have most := maxIdle pos
    omega
  · show w.pool.created = w.pool.closedN + 1 + rest.length + borrowed w
    omega
  · rw [emptied closed] at top
    cases top
  rcases shutAll [d] w.conns got with isShut | ⟨differ,was⟩
  · exact .inl isShut
  have sum := reapUses top c
  rw [idleAt,if_neg (Ne.symm (List.ne_of_not_mem_cons differ)),Nat.add_zero] at sum
  rw [sum]
  exact placed c conn was

theorem lendCounted (o : Counted w) (top : w.pool.idle = d :: rest) : Counted (lend w d rest) := by
  obtain ⟨active,maxActive,maxIdle,created,emptied,placed⟩ := o
  have more : borrowed (lend w d rest) = borrowed w + 1 := borrowedMore rfl rfl
  rw [top,List.length_cons] at active maxIdle created
  refine ⟨?_,maxActive,fun pos => ?_,?_,fun closed => ?_,fun c conn got => ?_⟩
  · show w.pool.active = rest.length + borrowed (lend w d rest) + w.dialing
    omega
  · show (rest.length : Int) ≤ w.pool.conf.maxIdle
    have most := maxIdle pos
    omega
  · show w.pool.created = w.pool.closedN + rest.length + borrowed (lend w d rest)
    omega
  · rw [emptied closed] at top
    cases top
  rw [lendUses top]
  by_cases here : d = c
  · subst here
    simp only [uses,top,weighCons,idleAt,if_true]
    omega
  simp only [lend,List.getElem?_modify_ne _ _ here] at got
  exact placed c conn got

theorem takenCounted (taken : Taken w next) (o : Counted w) : Counted next := by
  induction taken with
  | full => exact { o with }
  | reserved empty room =>
    rename_i w
    refine { o with active := ?_,maxActive := fun pos => ?_ }
    · show w.pool.active + 1 = w.pool.idle.length + borrowed w + ((w.dialing + 1 : Nat) : Int)
      have active := o.active
      omega
    exact room pos
  | reaped top _ ih => exact ih (reapCounted o top)
  | lent top => exact lendCounted o top

theorem dialedCounted (o : Counted w) (dialing : 0 < w.dialing) : Counted (dialReserved w true) := by
  have more : borrowed (dialReserved w true) = borrowed w + 1 := borrowedMore rfl rfl
  obtain ⟨active,maxActive,maxIdle,created,emptied,placed⟩ := o
  refine ⟨?_,maxActive,maxIdle,?_,emptied,fun c conn got => ?_⟩
  · show w.pool.active = w.pool.idle.length + borrowed (dialReserved w true) + ((w.dialing - 1 : Nat) : Int)
    omega
  · show w.pool.created + 1 = w.pool.closedN + w.pool.idle.length + borrowed (dialReserved w true)
    omega
  have moreUses : uses (dialReserved w true) c = uses w c + idleAt c w.conns.length := dialedUses c
  rcases Roster.addSeen got with ⟨here,_⟩ | old
  · rw [moreUses,idleAt,if_pos here.symm]
    exact .inr (Nat.succ_pos _)
  rcases placed c conn old with isShut | used
  · exact .inl isShut
  exact .inr (by omega)

theorem releasedCounted (o : Counted w) (discard)
    (ith : w.loans[i]? = some loan) (got : w.conns[loan.conn]? = some conn) (held : loan.returned = false) :
    Counted { w with
      conns := w.conns.set loan.conn { conn with released := true }
      loans := w.loans.set i { loan with returned := true }
      releases := w.releases ++ [⟨loan.conn,discard,none⟩] } := by
  obtain ⟨active,maxActive,maxIdle,created,emptied,placed⟩ := o
  have eq : weigh out (w.loans.set i { loan with returned := true }) +
      (w.releases ++ [(⟨loan.conn,discard,none⟩ : Release)]).length = borrowed w := by
    have sum := weighSet (w := out) (y := { loan with returned := true }) ith
    simp only [out,held,if_true,Bool.false_eq_true,if_false] at sum
    rw [borrowed,List.length_append,List.length_singleton]
    omega
  refine ⟨?_,maxActive,maxIdle,?_,emptied,fun c other isAt => ?_⟩
  · simp only [borrowed,eq]
    exact active
  · simp only [borrowed,eq]
    exact created
  have places := releasedUses discard ith held c
  rcases atSet got isAt with ⟨rfl,rfl⟩ | ⟨_,was⟩
  · exact (placed _ conn got).imp id fun used => Nat.lt_of_lt_of_eq used places.symm
  exact (placed c other was).imp id fun used => Nat.lt_of_lt_of_eq used places.symm

theorem stepCounted (fits : once w a = true) (ran : step w a = some next) (owned : Owned w) (o : Counted w) :
    Counted next := by
  cases steppedOf ran with
  | tick => exact { o with }
  | refused | closedAlready => exact o
  | got _ taken => exact takenCounted taken o
  | dialed dialing => exact dialedCounted o dialing
  | dialFailed dialing =>
    obtain ⟨active,maxActive,maxIdle,created,emptied,placed⟩ := o
    refine ⟨?_,fun pos => ?_,maxIdle,created,emptied,placed⟩
    · show w.pool.active - 1 = w.pool.idle.length + borrowed w + ((w.dialing - 1 : Nat) : Int)
      omega
    show w.pool.active - 1 ≤ w.pool.conf.maxActive
    have most := maxActive pos
    omega
  | again discard ith found gone =>
    rename_i loan conn
    have held : loan.returned = false := by simpa [once,ith] using fits
    have flag := endedLoan owned ith found gone
    rw [held] at flag
    cases flag
  | released discard ith found => exact releasedCounted o discard ith found (by simpa [once,ith] using fits)
  | stamped ith found =>
    rename_i i r conn
    refine ⟨?_,o.maxActive,o.maxIdle,?_,o.emptied,fun c other isAt => ?_⟩
    · simp only [borrowed,List.length_set]
      exact o.active
    · simp only [borrowed,List.length_set]
      exact o.created
    have places : weigh (returningAt c) (w.releases.set i { r with now := some w.now }) =
        weigh (returningAt c) w.releases := weighSame ith rfl
    simp only [uses,places]
    rcases atSet found isAt with ⟨rfl,rfl⟩ | ⟨_,was⟩
    · exact o.placed _ conn found
    exact o.placed c other was
  | dropped ith found =>
    obtain ⟨active,maxActive,maxIdle,created,emptied,placed⟩ := o
    have gone := List.length_eraseIdx_add_one (List.getElem?_eq_some_iff.mp ith).1
    simp only [borrowed] at active created
    refine ⟨?_,fun pos => ?_,maxIdle,?_,emptied,fun c other isAt => ?_⟩
    · simp only [borrowed]
      omega
    · have most := maxActive pos
      show w.pool.active - 1 ≤ w.pool.conf.maxActive
      omega
    · simp only [borrowed]
      omega
    rcases atSet found isAt with ⟨_,rfl⟩ | ⟨differ,was⟩
    · exact .inl rfl
    have sum := weighErase (w := returningAt c) ith
    rw [returningAt,if_neg (Ne.symm differ),Nat.add_zero] at sum
    simp only [uses,sum]
    exact placed c other was
  | kept ith live =>
    obtain ⟨active,maxActive,maxIdle,created,emptied,placed⟩ := o
    have gone := List.length_eraseIdx_add_one (List.getElem?_eq_some_iff.mp ith).1
    simp only [borrowed] at active created
    refine ⟨?_,maxActive,fun _ => ?_,?_,fun closed => ?_,fun c other isAt => ?_⟩
    · simp only [borrowed,List.length_cons]
      omega
    · simp only [List.length_cons]
      omega
    · simp only [borrowed,List.length_cons]
      omega
    · rw [live] at closed
      cases closed
    have sum := weighErase (w := returningAt c) ith
    refine (placed c other isAt).imp id fun used => ?_
    simp only [uses,lent,weighCons] at used ⊢
    simp only [idleAt,returningAt] at sum used ⊢
    omega
  | closed =>
    obtain ⟨active,maxActive,maxIdle,created,emptied,placed⟩ := o
    refine ⟨?_,fun pos => ?_,fun pos => Int.le_of_lt pos,?_,fun _ => rfl,fun c conn found => ?_⟩
    · show w.pool.active - w.pool.idle.length = ((0 : Nat) : Int) + borrowed w + w.dialing
      omega
    · have most := maxActive pos
      show w.pool.active - w.pool.idle.length ≤ w.pool.conf.maxActive
      omega
    · show w.pool.created = w.pool.closedN + w.pool.idle.length + 0 + borrowed w
      omega
    rcases shutAll _ _ found with isShut | ⟨notIdle,was⟩
    · exact .inl isShut
    refine (placed c conn was).imp id fun used => ?_
    have none : weigh (idleAt c) w.pool.idle = 0 := by rw [idleWeight]; exact List.count_eq_zero.mpr notIdle
    simp only [uses,none] at used
    exact used

theorem onceCareful (fits : once w a = true) : careful w a = true := by
  cases a with
  | release i =>
    cases ith : w.loans[i]? with
    | none => simp [careful,ith]
    | some loan =>
      have held : loan.returned = false := by simpa [once,ith] using fits
      simp [careful,ith,held]
  | _ => rfl

theorem startCounted (conf now) : Counted (start conf now) where
  active := rfl
  maxActive positive := Int.le_of_lt positive
  maxIdle positive := Int.le_of_lt positive
  created := rfl
  emptied _ := rfl
  placed c conn found := by simp [start] at found

theorem usedBorrowed (empty : w.pool.idle = []) (used : 0 < uses w c) : Borrowed w c := by
  rw [uses,empty,weighNil,Nat.zero_add] at used
  by_cases isLent : 0 < lent w c
  · obtain ⟨loan,mem,pos⟩ := weighPositive isLent
    rw [lentAt] at pos
    split at pos
    · exact .inl ⟨loan,mem,‹_›⟩
    cases pos
  have returning : 0 < weigh (returningAt c) w.releases := by omega
  obtain ⟨r,mem,pos⟩ := weighPositive returning
  rw [returningAt] at pos
  split at pos
  · exact .inr ⟨r,mem,‹_›⟩
  cases pos

theorem countedAccounted (o : Counted w) : Accounted w where
  active := o.active
  maxActive := o.maxActive
  maxIdle := o.maxIdle
  created := by
    have created := o.created
    omega
  shut closed c conn found := (o.placed c conn found).imp id (usedBorrowed (o.emptied closed))
  drained closed ended quiet := by
    have active := o.active
    rw [o.emptied closed,ended,quiet] at active
    exact active

def small : ConnPoolConfig := ⟨1,2,10,100,1,1," Long "⟩

def closesBusy : List Act :=
  [.get,.dialed,.get,.dialFailed,.get,.dialed,.get,.release 0 false,.stamp 0,.put 0,.tick 11,.get,.close,
    .dialed,.release 2 false,.stamp 0,.put 0]

end Gofly.RpcPoolCounts
