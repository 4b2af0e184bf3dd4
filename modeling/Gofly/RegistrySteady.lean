import Gofly.RegistryWatch
/-! Steady runs of the registry: every section keeps every registered watcher told, so that
a Watch never waits, and a watcher at rest has what Resolve would return. -/
namespace Gofly.MemoryRegistry
open Discovery Mailbox Tasks Transition Roster
open Instr
open Option (bind_eq_some_iff mem_unique)

section
variable {w : World} {i : Nat} {x : Instr}
variable {ch : Nat}

theorem execWatched (held : Held w) (ran : x.exec w.reg luck = some (next,pushed))
    (steady : SteadyTurn w x) (seen : w.reg.watchers[ch]? = some y) (known : y.registered = true) :
    next.services y.service = w.reg.services y.service ∨ 0 < pushed.countP (isNotify y.service) :=
  execServices ran held.placed steady.1 (List.mem_of_getElem? seen) known rfl

theorem besideTended (held : Held w) (got : w.tasks[i]? = some (x :: rest))
    (ran : x.exec w.reg luck = some (next,pushed)) (steady : SteadyTurn w x)
    (seen : w.reg.watchers[ch]? = some y) (known : y.registered = true)
    (eq : (z.service,z.options,z.chan,z.last) = (y.service,y.options,y.chan,y.last))
    (off : isOn ch x = false) (other : isGather ch x = false) : Tended ⟨next,turn w.tasks i pushed rest⟩ ch z := by
  have tended := held.tended ch y seen known
  have old : isEnter w.reg ch x = false := by
    cases x with
    | watchEnter => exact beq_eq_false_iff_ne.mpr (Nat.ne_of_lt (List.getElem_of_getElem? seen).1)
    | _ => rfl
  refine tendedBeside tended got eq off (execOn ran off other old)
    (execDue ran seen known other) ?_ (execAligned ran seen (tended.aligned x (aheadHere got)))
  refine (execWatched held ran steady seen known).imp_right fun due => ?_
  exact due.trans_le (List.countP_mono_left fun _ _ notifies => notifyDue notifies)

theorem registeredLives (kept : Kept w) (seen : w.reg.watchers[ch]? = some y)
    (known : y.registered = true) : y.chan.closed = false ∧ ahead (isClose ch) w.tasks = 0 := by
  have once := kept.once ch
  rw [markSeen seen,markSeen seen,known,isLive] at once
  cases closed : y.chan.closed <;> simp [closed] at once ⊢
  exact once

theorem firstTended (held : Held w) (got : w.tasks[i]? = some (.first ch event :: rest))
    (ran : Instr.exec w.reg luck (.first ch event) = some (next,pushed))
    (seen : w.reg.watchers[ch]? = some y) (known : y.registered = true)
    (after : next.watchers[ch]? = some z) : Tended ⟨next,turn w.tasks i pushed rest⟩ ch z := by
  have tended := held.tended ch y seen known
  have lives := (registeredLives held.toKept seen known).1
  have empty := tended.bare _ (aheadHere got) (beq_self_eq_true ch)
  obtain ⟨watcher,here,rfl,⟨_,rfl⟩ | ⟨closed,_⟩⟩ := execFirst ran
  · cases mem_unique seen here
    cases Option.some.inj (after.symm.trans (modifyHere _ seen))
    have taken := offerTaken event false lives (by rw [empty,tended.room.1]; exact Nat.one_pos)
    refine tendedOn tended got (beq_self_eq_true ch) ⟨rfl,rfl⟩ ?_ rfl (.inr ⟨rfl,event,?_,rfl⟩)
    · simp [taken,empty,tended.room.1]
    simp [taken,empty]
  cases mem_unique seen here
  rw [lives] at closed
  cases closed

theorem flightTended (held : Held w) (got : w.tasks[i]? = some (.deliver d :: rest))
    (flies : d.isFlight ch = true) (seen : w.reg.watchers[ch]? = some y) (known : y.registered = true)
    (kept : next.services = w.reg.services) :
    Tended ⟨next,turn w.tasks i ((Delivery.deliver y.chan false d).pushed.map .deliver) rest⟩ ch
      { y with chan := (Delivery.deliver y.chan false d).box } := by
  have tended := held.tended ch y seen known
  have lives := (registeredLives held.toKept seen known).1
  have capacity := tended.room.1
  have atMost := tended.room.2
  cases d with
  | close => cases flies
  | send other event =>
    rcases Nat.lt_or_ge y.chan.queue.length 1 with room | full
    · have empty := List.length_eq_zero_iff.mp (Nat.lt_one_iff.mp room)
      have taken := offerTaken event false lives (Nat.lt_of_lt_of_eq room capacity.symm)
      refine tendedOn tended got flies ⟨rfl,rfl⟩ ?_ (by rw [kept]) (.inr ⟨?_,event,?_,rfl⟩)
      · simp [Delivery.deliver,taken,empty,capacity]
      · simp [Delivery.deliver,taken]
      simp [Delivery.deliver,taken,empty]
    have refused := offerFull event lives (Nat.le_trans capacity.le full)
    refine tendedOn tended got flies ⟨rfl,rfl⟩ ?_ (by rw [kept])
      (.inl ⟨.deliver (.drain other event),?_,flies,rfl,fun bare => by cases bare⟩)
    · simpa [Delivery.deliver,refused] using tended.room
    simp [Delivery.deliver,refused]
  | drain other event =>
    have empty : y.chan.queue.tail = [] := List.length_eq_zero_iff.mp (by simp; omega)
    refine tendedOn tended got flies ⟨rfl,rfl⟩ ?_ (by rw [kept])
      (.inl ⟨.deliver (.resend other event),rfl,flies,rfl,fun _ => empty⟩)
    simp [Delivery.deliver,Box.poll,empty,capacity]
  | resend _ event =>
    have empty := tended.bare _ (aheadHere got) flies
    have taken := offerTaken event false lives (by rw [empty,capacity]; exact Nat.one_pos)
    refine tendedOn tended got flies ⟨rfl,rfl⟩ ?_ (by rw [kept]) (.inr ⟨?_,event,?_,rfl⟩)
    · simp [Delivery.deliver,taken,empty,capacity]
    · simp [Delivery.deliver,taken]
    simp [Delivery.deliver,taken,empty]

theorem announceTended (held : Held w) (got : w.tasks[i]? = some (.announce ch other instances :: rest))
    (ran : Instr.exec w.reg luck (.announce ch other instances) = some (next,pushed))
    (seen : w.reg.watchers[ch]? = some y) (known : y.registered = true) :
    Tended ⟨next,turn w.tasks i pushed rest⟩ ch y := by
  have tended := held.tended ch y seen known
  have empty := tended.bare _ (aheadHere got) (beq_self_eq_true ch)
  cases ran
  exact tendedOn tended got (beq_self_eq_true ch) ⟨rfl,rfl⟩ tended.room rfl
    (.inl ⟨_,rfl,beq_self_eq_true ch,rfl,fun _ => empty⟩)

theorem gatherTended (held : Held w) (got : w.tasks[i]? = some (.gather news ch t :: rest))
    (ran : Instr.exec w.reg luck (.gather news ch t) = some (next,pushed)) (steady : SteadyTurn w (.gather news ch t))
    (seen : w.reg.watchers[ch]? = some y) (known : y.registered = true) :
    Tended ⟨next,turn w.tasks i pushed rest⟩ ch y := by
  have tended := held.tended ch y seen known
  have about : news.service = y.service := tended.aligned _ (aheadHere got) rfl
  have fresh : Fresh t (w.reg.services news.service) := steady.1
  obtain ⟨watcher,here,done⟩ := bind_eq_some_iff.mp ran
  cases mem_unique seen here
  cases done
  refine tendedGather tended got steady.2 ?_
  rw [resolveKeeps fresh,← about]
  exact resolveListed fresh luck.order y.options

def touches (ch : Nat) : Instr → Bool
  | .first other _ | .leave other => other == ch
  | .deliver d => d.channel == ch
  | _ => false

theorem execBefore (ran : x.exec w.reg luck = some (next,pushed)) (after : next.watchers[ch]? = some z)
    (old : isEnter w.reg ch x = false) : ∃ y, w.reg.watchers[ch]? = some y ∧ z.service = y.service ∧
      (z.registered = true → y.registered = true) ∧ (touches ch x = false → z = y) := by
  cases x with
  | watchEnter =>
    cases ran
    rcases addSeen after with ⟨rfl,_⟩ | seen
    · simp [isEnter] at old
    exact ⟨z,seen,rfl,id,fun _ => rfl⟩
  | first =>
    obtain ⟨watcher,_,_,⟨_,rfl⟩ | ⟨_,rfl⟩⟩ := execFirst ran
    · obtain ⟨y,seen,rfl⟩ := modifySeen after
      refine ⟨y,seen,by split <;> rfl,?_,fun ne => if_neg (beq_eq_false_iff_ne.mp ne)⟩
      split <;> exact id
    exact ⟨z,after,rfl,id,fun _ => rfl⟩
  | leave =>
    cases ran
    obtain ⟨y,seen,rfl⟩ := modifySeen after
    refine ⟨y,seen,by split <;> rfl,?_,fun ne => if_neg (beq_eq_false_iff_ne.mp ne)⟩
    split
    · exact fun left => by cases left
    exact id
  | deliver =>
    obtain ⟨watcher,_,done⟩ := bind_eq_some_iff.mp ran
    cases done
    obtain ⟨y,seen,rfl⟩ := modifySeen after
    refine ⟨y,seen,by split <;> rfl,?_,fun ne => if_neg (beq_eq_false_iff_ne.mp ne)⟩
    split <;> exact id
  | store _ | remove _ | extend _ _ | resolve _ _ _ | snapshot _ | watchResolve _ _ _ | notify _
  | stamp | gather | announce | grant =>
    rw [(execQuiet rfl ran).1] at after
    exact ⟨z,after,rfl,id,fun _ => rfl⟩

theorem touchedTended (held : Held w) (got : w.tasks[i]? = some (x :: rest))
    (ran : x.exec w.reg luck = some (next,pushed)) (touched : touches ch x = true)
    (seen : w.reg.watchers[ch]? = some y) (was : y.registered = true)
    (after : next.watchers[ch]? = some z) (known : z.registered = true) :
    Tended ⟨next,turn w.tasks i pushed rest⟩ ch z := by
  cases x with
  | first =>
    cases beq_iff_eq.mp touched
    exact firstTended held got ran seen was after
  | leave =>
    cases beq_iff_eq.mp touched
    cases ran
    cases Option.some.inj (after.symm.trans (modifyHere _ seen))
    cases known
  | deliver d =>
    cases beq_iff_eq.mp touched
    obtain ⟨watcher,here,done⟩ := bind_eq_some_iff.mp ran
    cases mem_unique seen here
    cases done
    cases Option.some.inj (after.symm.trans (modifyHere _ seen))
    refine flightTended held got ?_ seen was rfl
    -- The close of a registered watcher is not ahead.
    have open_ := aheadNone (registeredLives held.toKept seen was).2 got List.mem_cons_self
    cases d <;> simp_all [isClose,Delivery.isClose,Delivery.isFlight,Delivery.channel]
  | _ => cases touched

theorem execTended (held : Held w) (got : w.tasks[i]? = some (x :: rest))
    (ran : x.exec w.reg luck = some (next,pushed)) (steady : SteadyTurn w x)
    (after : next.watchers[ch]? = some z) (known : z.registered = true) :
    Tended ⟨next,turn w.tasks i pushed rest⟩ ch z := by
  by_cases enters : isEnter w.reg ch x = true
  · cases x with
    | watchEnter service options _ expired =>
      have nothing : expired = [] := held.clean _ (aheadHere got)
      subst nothing
      cases beq_iff_eq.mp enters
      cases ran
      have new : z = ⟨service,options,⟨1,[],false⟩,true,false,false,none⟩ := by simpa using after.symm
      rw [new]
      exact tendedEnter held got steady.2 rfl
    | _ => cases enters
  obtain ⟨y,seen,_,was,eq⟩ := execBefore ran after (Bool.eq_false_iff.mpr enters)
  by_cases touched : touches ch x = true
  · exact touchedTended held got ran touched seen (was known) after known
  cases eq (Bool.eq_false_iff.mpr touched)
  by_cases on : isOn ch x = true
  · cases x with
    | announce =>
      cases beq_iff_eq.mp on
      exact announceTended held got ran seen known
    | first => exact absurd on touched
    | deliver => exact absurd (beq_iff_eq.mpr (flightChannel on)) touched
    | _ => cases on
  by_cases gathers : isGather ch x = true
  · cases x with
    | gather =>
      cases beq_iff_eq.mp gathers
      exact gatherTended held got ran steady seen known
    | _ => cases gathers
  exact besideTended held got ran steady seen known rfl (Bool.eq_false_iff.mpr on)
    (Bool.eq_false_iff.mpr gathers)

theorem execClean (ran : x.exec w.reg luck = some (next,pushed)) (steady : SteadyTurn w x) :
    ∀ later ∈ pushed, Clean later := by
  cases x with
  | watchResolve _ options =>
    cases ran
    intro later mem
    cases List.mem_singleton.mp mem
    exact resolveExpired steady.1 luck.order options
  | stamp | store | remove | extend | snapshot | announce | leave | grant =>
    cases ran
    simp [Clean]
  | resolve =>
    cases ran
    simp [Clean,expiry]
  | watchEnter =>
    cases ran
    intro later mem
    rcases addMem mem with old | new
    · obtain ⟨_,_,rfl⟩ := List.mem_map.mp old
      trivial
    cases new
    trivial
  | notify =>
    cases ran
    split <;> simp [Clean]
  | gather | deliver =>
    obtain ⟨watcher,_,done⟩ := bind_eq_some_iff.mp ran
    cases done
    simp [Clean]
  | first =>
    obtain ⟨watcher,_,rfl,_⟩ := execFirst ran
    simp

theorem execAimed (held : Held w) (got : w.tasks[i]? = some (x :: rest))
    (ran : x.exec w.reg luck = some (next,pushed)) (beyond : next.watchers.length ≤ ch) :
    ahead (isTarget ch) (turn w.tasks i pushed rest) = 0 := by
  have here := execPresent ran ch
  rw [markAbsent.mpr beyond] at here
  have past : w.reg.watchers.length ≤ ch := markAbsent.mp (by omega)
  have none := held.aimed ch past
  have ne : isTarget ch x = false := aheadNone none got List.mem_cons_self
  have targets := execTargets ran ne
  have unregistered : mark Watcher.registered w.reg.watchers ch = 0 := by simp [mark,List.getElem?_eq_none past]
  have count := aheadTurn (isTarget ch) pushed got
  omega

theorem execHeld (held : Held w) (got : w.tasks[i]? = some (x :: rest))
    (ran : x.exec w.reg luck = some (next,pushed)) (steady : SteadyTurn w x) :
    Held ⟨next,turn w.tasks i pushed rest⟩ := by
  refine ⟨execKept held.toKept got ran,execPlaced ran held.placed,fun later seen => ?_,
    fun ch beyond => execAimed held got ran beyond,
    fun ch z after known => execTended held got ran steady after known⟩
  rcases aheadTurned got seen with new | old
  · exact execClean ran steady later new
  exact held.clean later old
end

def isIdle (x : Instr) : Prop := ∀ ch service, isOn ch x = false ∧ Aligned ch service x

theorem openingIdle (opening : isOpening now x = true) : isIdle x := by
  cases x <;> first | exact fun _ _ => ⟨rfl,trivial⟩ | cases opening

theorem spawnTended (tended : Tended w ch y) (idle : ∀ x ∈ task, isIdle x)
    (eq : (z.service,z.options,z.chan,z.last) = (y.service,y.options,y.chan,y.last))
    (tasks : next.tasks = w.tasks ++ [task]) (services : next.reg.services = w.reg.services) : Tended next ch z := by
  simp only [Prod.mk.injEq] at eq
  obtain ⟨service,options,chan,last⟩ := eq
  have off : task.countP (isOn ch) = 0 := List.countP_eq_zero.mpr fun x mem => by simp [(idle x mem ch "").1]
  have count : ahead (isOn ch) next.tasks = ahead (isOn ch) w.tasks := by rw [tasks,aheadSpawn,off,Nat.add_zero]
  have before (x : Instr) (seen : Ahead x next.tasks) : x ∈ task ∨ Ahead x w.tasks := aheadSpawned (tasks ▸ seen)
  have old (x : Instr) (seen : Ahead x next.tasks) (on : isOn ch x = true) : Ahead x w.tasks := by
    refine (before x seen).resolve_left fun mem => ?_
    simp [(idle x mem ch "").1] at on
  refine ⟨chan ▸ tended.room,Nat.le_trans count.le tended.single,
    fun x seen bare => chan ▸ tended.bare x (old x seen (bareOn bare)) bare,fun x seen => ?_,?_⟩
  · rw [service]
    rcases before x seen with new | past
    · exact (idle x new ch y.service).2
    exact tended.aligned x past
  rw [service,options,services]
  rcases tended.told with due | told
  · refine .inl (due.trans_le ?_)
    rw [tasks,aheadSpawn]
    exact Nat.le_add_right ..
  refine .inr ⟨fun x seen on => told.flying x (old x seen on) on,fun none => ?_,fun none => ?_⟩
  · rw [chan]
    exact told.queued (count ▸ none)
  rw [chan,last]
  exact told.received (count ▸ none)

theorem receiveTended (tended : Tended w ch y) (head : y.chan.queue.head? = some event)
    (tasks : next.tasks = w.tasks) (services : next.reg.services = w.reg.services) :
    Tended next ch { y with chan := y.chan.poll,last := some event } := by
  obtain ⟨others,queue⟩ : ∃ others, y.chan.queue = event :: others := List.head?_eq_some_iff.mp head
  have atMost := tended.room.2
  have alone : others = [] := by
    rw [queue] at atMost
    exact List.length_eq_zero_iff.mp (by simpa using atMost)
  subst alone
  have empty : y.chan.poll.queue = [] := by simp [Box.poll,queue]
  refine ⟨⟨tended.room.1,by rw [empty]; exact Nat.zero_le 1⟩,tasks ▸ tended.single,
    fun _ _ _ => empty,fun x seen => tended.aligned x (tasks ▸ seen),?_⟩
  simp only [tasks,services]
  refine tended.told.imp_right fun told => ⟨told.flying,fun _ => ?_,fun none _ => ⟨event,rfl,?_⟩⟩
  · rw [empty]
    simp
  exact told.queued none event (by simp [queue])

theorem callHeld (held : Held w) (opening : ∀ x ∈ task, isOpening w.reg.now x = true)
    (kept : Kept (w.call task)) : Held (w.call task) := by
  refine ⟨kept,held.placed,fun x seen => ?_,fun ch beyond => ?_,fun ch z seen known => ?_⟩
  · rcases aheadSpawned seen with new | old
    · have opens := opening x new
      cases x <;> trivial
    · exact held.clean x old
  · refine (aheadSpawn ..).trans ?_
    rw [openingCount opening fun _ opens => (openingQuiet opens ch).2.2]
    exact held.aimed ch beyond
  exact spawnTended (held.tended ch z seen known) (fun x mem => openingIdle (opening x mem)) rfl rfl rfl

theorem cancelHeld (held : Held w)
    (kept : Kept ({ w with reg := w.reg.setWatcher ch fun x => { x with cancelled := true } }.call [.leave ch])) :
    Held ({ w with reg := w.reg.setWatcher ch fun x => { x with cancelled := true } }.call [.leave ch]) := by
  refine ⟨kept,held.placed,fun x seen => ?_,fun other beyond => ?_,fun other z seen known => ?_⟩
  · rcases aheadSpawned seen with new | old
    · cases List.mem_singleton.mp new
      trivial
    · exact held.clean x old
  · refine (aheadSpawn ..).trans (held.aimed other ?_)
    simpa [World.call,Registry.setWatcher] using beyond
  have idle : ∀ x ∈ [Instr.leave ch], isIdle x := by
    intro x mem
    cases List.mem_singleton.mp mem
    exact fun _ _ => ⟨rfl,trivial⟩
  obtain ⟨y,got,rfl⟩ := modifySeen seen
  split at known
  · rw [if_pos ‹_›]
    exact spawnTended (held.tended other y got known) idle rfl rfl rfl
  rw [if_neg ‹_›]
  exact spawnTended (held.tended other y got known) idle rfl rfl rfl

theorem receiveHeld (held : Held w) (seen : w.reg.watchers[ch]? = some y) (head : y.chan.queue.head? = some event)
    (kept : Kept { w with reg := w.reg.setWatcher ch fun x => { x with chan := x.chan.poll,last := some event } }) :
    Held { w with reg := w.reg.setWatcher ch fun x => { x with chan := x.chan.poll,last := some event } } := by
  refine ⟨kept,held.placed,held.clean,fun other beyond => held.aimed other ?_, fun other z after known => ?_⟩
  · simpa [Registry.setWatcher] using beyond
  obtain ⟨x,got,rfl⟩ := modifySeen after
  split at known
  · rename_i here
    subst here
    cases mem_unique seen got
    rw [if_pos rfl]
    exact receiveTended (held.tended ch y seen known) head rfl rfl
  rename_i ne
  rw [if_neg ne]
  have tended := held.tended other x got known
  exact { tended with }

theorem stepHeld (held : Held w) (steady : Steady w act) (moved : step w act = some next) : Held next := by
  have kept := stepKept held.toKept moved
  cases stepMoved moved with
  | call opening => exact callHeld held opening kept
  | cancel => exact cancelHeld held kept
  | receive seen head => exact receiveHeld held seen head kept
  | tick =>
    refine ⟨kept,held.placed,held.clean,held.aimed,fun ch y seen known => ?_⟩
    have tended := held.tended ch y seen known
    exact { tended with }
  | run got ran =>
    simp only [Steady,got] at steady
    exact execHeld held got ran steady

theorem heldStart (now) : Held (start now) :=
  ⟨keptStart now,by simp [start,Placed],by simp [start,Ahead],by simp [start,ahead],by simp [start]⟩

end Gofly.MemoryRegistry
