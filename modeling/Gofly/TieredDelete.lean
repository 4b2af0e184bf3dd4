import Gofly.Roster
import Gofly.Tiered
/-! Get against Delete, one layer operation at a time. -/
namespace Gofly.Tiered
open CacheStore Roster
open Transition
open Option (bind_some map_eq_some_iff)
open List (mem_of_getElem? mem_or_eq_of_mem_set)

variable {α β φ : Type}

def Reads (_ : World α β φ) : Act α → Prop
  | .call method _ => method = .get ∨ method = .delete
  | .move _ _ => True
  | .direct (.tick _) => True
  | .direct _ => False
  | .tick _ => True

def Caller.fetches (c : Caller α) (key : String) : Bool :=
  match c.phase with
  | .backfill _ => c.key == key
  | _ => false

def Caller.deletes (c : Caller α) (key : String) : Bool :=
  match c.phase with
  | .deleteRemote => c.key == key
  | _ => false

/-- No value of the key is written back between the two removals of a Delete, and none is
on its way when the second one happens. -/
def Settled (key : String) (w : World α β φ) : Act α → Prop
  | .move i _ =>
    match w.callers[i]? with
    | none => True
    | some c =>
      (c.fetches key = true → w.callers.any (·.deletes key) = false) ∧
        (c.deletes key = true → w.callers.any (·.fetches key) = false)
  | _ => True

instance [DecidableEq α] (w : World α β φ) (a : Act α) : Decidable (Reads w a) := by
  unfold Reads
  split <;> infer_instance
instance (key : String) (w : World α β φ) (a : Act α) : Decidable (Settled key w a) := by
  unfold Settled
  split
  · split <;> infer_instance
  · infer_instance

def Plain (t : TieredCache α β φ) (c : Caller α) : Prop :=
  match c.phase with
  | .readLocal => c.method = .get ∧ c.key ≠ "" ∧ t.localEnabled = true
  | .readRemote => c.method = .get ∧ c.key ≠ "" ∧ t.remoteEnabled = true
  | .backfill _ => c.method = .get ∧ c.key ≠ "" ∧ t.remoteEnabled = true
  | .deleteLocal => c.method = .delete ∧ c.key ≠ ""
  | .deleteRemote => c.method = .delete ∧ c.key ≠ ""
  | .returned (.found _) => c.method = .get ∧ c.key ≠ ""
  | .returned _ => True
  | _ => False

variable {t : TieredCache α β φ}

theorem enterPlain (key) (reads : method = .get ∨ method = .delete) : Plain t ⟨method,key,enter t key method⟩ := by
  by_cases empty : key = ""
  · rcases reads with rfl | rfl <;> simp [enter,empty,Plain]
  rcases reads with rfl | rfl
  · simp only [enter,pastLocal]
    cases near : t.localEnabled
    · cases remote : t.remoteEnabled <;> simp [Plain,missed,empty,remote]
    simp [Plain,empty,near]
  simp only [enter,pastDelete]
  cases t.localEnabled
  · cases t.remoteEnabled <;> simp [Plain,empty]
  simp [Plain,empty]

def Absent (key : String) (w : World α β φ) : Prop := Rows (fun k _ => k ≠ key) w.l1.cache.items

theorem absentMisses {w : World α β φ} (gone : Absent key w) :
    (w.l1.cache.get wrapping t.l1 w.l1.now key).2 = none := by
  unfold Cache.get
  split
  · rfl
  split
  · rfl
  exact absurd rfl (rowsHeld gone ‹_›)

section
variable [Inhabited α]

inductive Turned (t : TieredCache α β φ) (w : World α β φ) (c : Caller α) :
    World α β φ → Phase α → Prop where
  | hit {l1 : CacheStore.World UInt64 α φ} {v : α} (phase : c.phase = .readLocal)
      (moved : CacheStore.step wrapping t.l1 w.l1 (.get c.key) = some l1)
      (read : (w.l1.cache.get wrapping t.l1 w.l1.now c.key).2 = some v) :
      Turned t w c { w with l1 := l1 } (.returned (.found v))
  | miss {l1 : CacheStore.World UInt64 α φ} (phase : c.phase = .readLocal)
      (moved : CacheStore.step wrapping t.l1 w.l1 (.get c.key) = some l1) :
      Turned t w c { w with l1 := l1 } (pastLocal t .get)
  | refused (phase : c.phase = .readRemote) : Turned t w c w (.returned .missing)
  | absent (phase : c.phase = .readRemote) :
      Turned t w c { w with l2 := (KVStore.get w.l2 w.clock (t.l2Key c.key)).2 } (.returned .missing)
  | fetched {data : β} {v : α} (phase : c.phase = .readRemote)
      (read : (KVStore.get w.l2 w.clock (t.l2Key c.key)).1 = some data) :
      Turned t w c { w with l2 := (KVStore.get w.l2 w.clock (t.l2Key c.key)).2 } (fetched t v)
  | filled {l1 : CacheStore.World UInt64 α φ} {v : α} {rand gap : Nat} (phase : c.phase = .backfill v)
      (moved : CacheStore.step wrapping t.l1 w.l1 (.set c.key v none rand gap) = some l1) :
      Turned t w c { w with l1 := l1 } (.returned (.found v))
  | removed {l1 : CacheStore.World UInt64 α φ} (phase : c.phase = .deleteLocal)
      (moved : CacheStore.step wrapping t.l1 w.l1 (.delete c.key) = some l1) :
      Turned t w c { w with l1 := l1 } (pastDelete t)
  | failed (phase : c.phase = .deleteRemote) : Turned t w c w (.returned .failed)
  | deleted (phase : c.phase = .deleteRemote) :
      Turned t w c { w with l2 := (KVStore.delete w.l2 (t.l2Key c.key)).2 } (.returned .done)

theorem turned (plain : Plain t c) (ran : w.turn t c outside = some after) : Turned t w c after.1 after.2 := by
  unfold Plain at plain
  unfold World.turn World.onLocal at ran
  split at plain <;> rename_i phase <;> simp only [phase] at ran <;> try contradiction
  · obtain ⟨l1,stepped,rfl⟩ := map_eq_some_iff.mp ran
    rw [plain.1]
    cases read : (w.l1.cache.get wrapping t.l1 w.l1.now c.key).2 with
    | none => exact .miss phase stepped
    | some => exact .hit phase stepped read
  · rw [plain.1] at ran
    split at ran
    · cases ran
      exact .refused phase
    cases ran
    cases read : (KVStore.get w.l2 w.clock (t.l2Key c.key)).1 with
    | none => exact .absent phase
    | some data =>
      simp only [bind_some]
      cases t.codec.unmarshal data with
      | none => exact .absent phase
      | some => exact .fetched phase read
  · obtain ⟨l1,stepped,rfl⟩ := map_eq_some_iff.mp ran
    exact .filled phase stepped
  · obtain ⟨l1,stepped,rfl⟩ := map_eq_some_iff.mp ran
    exact .removed phase stepped
  split at ran
  · cases ran
    exact .failed phase
  cases ran
  exact .deleted phase


theorem turnedPlain (plain : Plain t c) (turned : Turned t w c next phase) : Plain t { c with phase := phase } := by
  cases turned with
  | hit stood | filled stood =>
    simp only [Plain,stood] at plain
    exact ⟨plain.1,plain.2.1⟩
  | miss stood =>
    simp only [Plain,stood] at plain
    unfold pastLocal
    cases remote : t.remoteEnabled with
    | false => exact trivial
    | true => exact ⟨plain.1,plain.2.1,remote⟩
  | refused | absent | failed | deleted => exact trivial
  | fetched stood =>
    simp only [Plain,stood] at plain
    unfold fetched
    cases t.localEnabled with
    | false => exact ⟨plain.1,plain.2.1⟩
    | true => exact plain
  | removed stood =>
    simp only [Plain,stood] at plain
    unfold pastDelete
    cases t.remoteEnabled with
    | false => exact trivial
    | true => exact plain

theorem turnedAbsent (gone : Absent key w) (elsewhere : c.fetches key = false)
    (turned : Turned t w c next phase) : Absent key next := by
  cases turned with
  | hit _ ran | miss _ ran | removed _ ran =>
    obtain ⟨_,changed,_⟩ := stepChanged ran
    cases ran
    exact quietRows wrappingPreserves gone changed
  | filled stood ran =>
    cases ran
    have other : c.key ≠ key := by simpa [Caller.fetches,stood] using elsewhere
    exact rowsSet wrappingPreserves gone fun _ _ => other
  | _ => exact gone

theorem turnedVanished (vanished : w.l2 k = none) (turned : Turned t w c next phase) : next.l2 k = none := by
  have getNothing (key : String) : (KVStore.get w.l2 w.clock key).2 k = none := by
    refine Option.eq_none_iff_forall_ne_some.mpr fun e still => ?_
    rw [KVStore.getLockedFewer still] at vanished
    contradiction
  have deleteNothing (key : String) : (KVStore.delete w.l2 key).2 k = none := by
    refine Option.eq_none_iff_forall_ne_some.mpr fun e still => ?_
    rw [KVStore.deleteFewer still] at vanished
    contradiction
  cases turned with
  | absent | fetched => exact getNothing _
  | deleted => exact deleteNothing _
  | _ => exact vanished

theorem turnedMisses (plain : Plain t c) (near : t.localEnabled = true → Absent key w)
    (far : t.remoteEnabled = true → w.l2 (t.l2Key key) = none) (named : c.key = key)
    (idle : c.fetches key = false) (turned : Turned t w c next phase) :
    (∀ v, phase ≠ .backfill v) ∧ ∀ v, phase ≠ .returned (.found v) := by
  subst named
  cases turned with
  | hit stood _ read =>
    simp only [Plain,stood] at plain
    rw [absentMisses (near plain.2.2)] at read
    contradiction
  | miss =>
    unfold pastLocal missed
    split <;> simp
  | fetched stood read =>
    simp only [Plain,stood] at plain
    simp [KVStore.get,KVStore.getLocked,far plain.2.2] at read
  | filled stood => simp [Caller.fetches,stood] at idle
  | removed =>
    unfold pastDelete
    split <;> simp
  | _ => simp

theorem turnedRemoves (plain : Plain t c) (turned : Turned t w c next phase)
    (stood : c.phase = .deleteLocal) (named : c.key = key) : Absent key next := by
  simp only [Plain,stood] at plain
  subst named
  cases turned with
  | removed _ ran =>
    cases ran
    simp only [Cache.delete,if_neg plain.2]
    exact fun row mem => otherRow w.l1.cache.items.nodupKeys mem
  | _ => simp_all

theorem turnedOpen (turned : Turned t w c next phase) (r) : c.phase ≠ .returned r := by
  cases turned <;> simp_all

theorem turnedNamed (plain : Plain t c) (turned : Turned t w c next phase) : c.key ≠ "" := by
  cases turned <;> simp_all [Plain]

theorem reachesRemote (turned : Turned t w c next phase) (met : phase = .deleteRemote) :
    c.phase = .deleteLocal := by
  cases turned with
  | removed stood => exact stood
  | miss =>
    unfold pastLocal missed at met
    split at met <;> contradiction
  | fetched =>
    unfold fetched at met
    split at met <;> contradiction
  | _ => contradiction

theorem reachesDone (turned : Turned t w c next phase) (met : phase = .returned .done) :
    (c.phase = .deleteLocal ∧ t.remoteEnabled = false) ∨
      (c.phase = .deleteRemote ∧ next = { w with l2 := (KVStore.delete w.l2 (t.l2Key c.key)).2 }) := by
  cases turned with
  | removed stood =>
    unfold pastDelete at met
    split at met <;> try contradiction
    exact .inl ⟨stood,Bool.eq_false_iff.mpr ‹_›⟩
  | deleted stood => exact .inr ⟨stood,rfl⟩
  | miss =>
    unfold pastLocal missed at met
    split at met <;> simp at met
  | fetched =>
    unfold fetched at met
    split at met <;> simp at met
  | _ => simp at met
end

def Deleted (key : String) (w : World α β φ) : Prop :=
  ∃ c ∈ w.callers, c.method = .delete ∧ c.key = key ∧ c.phase = .returned .done

structure Gone (t : TieredCache α β φ) (key : String) (w : World α β φ) : Prop where
  near : t.localEnabled = true → Absent key w
  far : t.remoteEnabled = true → w.l2 (t.l2Key key) = none
  idle : ∀ c ∈ w.callers, c.fetches key = false

structure Sound (t : TieredCache α β φ) (key : String) (w : World α β φ) : Prop where
  plain : ∀ c ∈ w.callers, Plain t c
  between : ∀ c ∈ w.callers, c.deletes key = true → t.localEnabled = true → Absent key w
  gone : key ≠ "" → Deleted key w → Gone t key w

section

variable [Inhabited α] {w : World α β φ} {i : Nat}
  {phase : Phase α}

omit [Inhabited α] in
theorem fetchingRemote (plain : Plain t c) (fetches : c.fetches key = true) : t.remoteEnabled = true := by
  unfold Caller.fetches at fetches
  split at fetches <;> try contradiction
  rename_i v stood
  simp only [Plain,stood] at plain
  exact plain.2.2

omit [Inhabited α] in
theorem enterIdle {method} (name : String) (reads : method = .get ∨ method = .delete) :
    Caller.fetches ⟨method,name,enter t name method⟩ key = false := by
  rcases reads with rfl | rfl
  · simp only [enter,pastLocal,missed]
    split_ifs <;> rfl
  · simp only [enter,pastDelete]
    split_ifs <;> rfl

omit [Inhabited α] in
theorem enterUnfound (name : String) (v : α) : enter t name .get ≠ .returned (.found v) := by
  simp only [enter,pastLocal,missed]
  split_ifs <;> simp

omit [Inhabited α] in
theorem enterDelete {name} (named : name ≠ "") (near : t.localEnabled = true) :
    enter t name .delete = .deleteLocal := by
  simp only [enter,if_neg named,near,if_true]

omit [Inhabited α] in
theorem callSound {method} (name : String) (sound : Sound t key w) (reads : method = .get ∨ method = .delete) :
    Sound t key { w with callers := w.callers ++ [⟨method,name,enter t name method⟩] } := by
  have idleNew : Caller.fetches ⟨method,name,enter t name method⟩ key = false := enterIdle name reads
  refine ⟨fun c mem => ?_,fun c mem deletes near => ?_,fun named deleted => ?_⟩
  · rcases Roster.addMem mem with old | rfl
    · exact sound.plain c old
    · exact enterPlain name reads
  · rcases Roster.addMem mem with old | rfl
    · exact sound.between c old deletes near
    · exfalso
      by_cases empty : name = ""
      · rcases reads with rfl | rfl <;> simp [Caller.deletes,enter,empty] at deletes
      rcases reads with rfl | rfl
      · simp [Caller.deletes,enter,near,empty] at deletes
      · simp [Caller.deletes,enterDelete empty near] at deletes
  · have idle (before : ∀ c ∈ w.callers, c.fetches key = false) :
        ∀ c ∈ w.callers ++ [⟨method,name,enter t name method⟩], c.fetches key = false :=
      List.forall_mem_append.mpr ⟨before,List.forall_mem_singleton.mpr idleNew⟩
    obtain ⟨c,mem,isDelete,hasKey,stood⟩ := deleted
    rcases Roster.addMem mem with old | rfl
    · have gone := sound.gone named ⟨c,old,isDelete,hasKey,stood⟩
      exact ⟨gone.near,gone.far,idle gone.idle⟩
    cases isDelete
    cases hasKey
    have near : ¬ t.localEnabled = true := fun near => by simp [enterDelete named near] at stood
    have far : ¬ t.remoteEnabled = true := fun far => by simp [enter,named,near,pastDelete,far] at stood
    refine ⟨fun enabled => absurd enabled near,fun enabled => absurd enabled far,idle fun c old => ?_⟩
    exact Bool.eq_false_iff.mpr fun fetches => far (fetchingRemote (sound.plain c old) fetches)

section
variable (sound : Sound t key w)
include sound

theorem goneTurned (gone : Gone t key w) (got : w.callers[i]? = some c)
    (turned : Turned t w c next phase) :
    Gone t key { next with callers := w.callers.set i { c with phase := phase } } := by
  have mem := mem_of_getElem? got
  have plain := sound.plain c mem
  have idle := gone.idle c mem
  have near (enabled : t.localEnabled = true) := turnedAbsent (gone.near enabled) idle turned
  have far (enabled : t.remoteEnabled = true) := turnedVanished (gone.far enabled) turned
  refine ⟨near,far,fun d inside => ?_⟩
  rcases mem_or_eq_of_mem_set inside with old | rfl
  · exact gone.idle d old
  by_cases named : c.key = key
  · have missed := (turnedMisses plain gone.near gone.far named idle turned).1
    cases phase <;> simp_all [Caller.fetches]
  cases phase <;> simp [Caller.fetches,named]

theorem turnGone (got : w.callers[i]? = some c)
    (settled : c.deletes key = true → w.callers.any (·.fetches key) = false)
    (turned : Turned t w c next phase) (named : c.key = key) (met : phase = .returned .done) :
    Gone t key { next with callers := w.callers.set i { c with phase := phase } } := by
  have mem := mem_of_getElem? got
  have plain := sound.plain c mem
  have idle (before : ∀ d ∈ w.callers, d.fetches key = false) :
      ∀ d ∈ w.callers.set i { c with phase := phase }, d.fetches key = false := by
    intro d inside
    rcases mem_or_eq_of_mem_set inside with old | rfl
    · exact before d old
    simp [Caller.fetches,met]
  rcases reachesDone turned met with ⟨stood,far⟩ | ⟨stood,rfl⟩
  · have near := turnedRemoves plain turned stood named
    refine ⟨fun _ => near,fun enabled => by simp [far] at enabled,idle fun d old => ?_⟩
    refine Bool.eq_false_iff.mpr fun fetches => ?_
    rw [fetchingRemote (sound.plain d old) fetches] at far
    contradiction
  have deletes : c.deletes key = true := by simp [Caller.deletes,stood,named]
  refine ⟨sound.between c mem deletes,fun _ => ?_,idle ?_⟩
  · simp only [KVStore.delete]
    split <;> simp_all
  simpa using settled deletes

theorem turnSound (got : w.callers[i]? = some c)
    (done : (c.fetches key = true → w.callers.any (·.deletes key) = false) ∧
      (c.deletes key = true → w.callers.any (·.fetches key) = false)) (turned : Turned t w c next phase) :
    Sound t key { next with callers := w.callers.set i { c with phase := phase } } := by
  have mem := mem_of_getElem? got
  have plain := sound.plain c mem
  refine ⟨fun d inside => ?_,fun d inside deletes near => ?_,fun named deleted => ?_⟩
  · rcases mem_or_eq_of_mem_set inside with old | rfl
    · exact sound.plain d old
    · exact turnedPlain plain turned
  · rcases mem_or_eq_of_mem_set inside with old | rfl
    · have elsewhere : c.fetches key = false := by
        refine Bool.eq_false_iff.mpr fun fetches => ?_
        have none := done.1 fetches
        rw [List.any_eq_false] at none
        exact none d old deletes
      have absent := turnedAbsent (sound.between d old deletes near) elsewhere turned
      exact absent
    · unfold Caller.deletes at deletes
      split at deletes <;> try contradiction
      rename_i met
      have absent := turnedRemoves plain turned (reachesRemote turned met) (by simpa using deletes)
      exact absent
  obtain ⟨d,inside,isDelete,hasKey,stood⟩ := deleted
  rcases mem_or_eq_of_mem_set inside with old | rfl
  · exact goneTurned sound (sound.gone named ⟨d,old,isDelete,hasKey,stood⟩) got turned
  exact turnGone sound got done.2 turned hasKey stood

theorem stepSound (reads : Reads w a) (done : Settled key w a)
    (ran : step t w a = some next) : Sound t key next := by
  cases a with
  | call _ name =>
    cases ran
    exact callSound name sound reads
  | move =>
    simp only [step] at ran
    simp only [Settled] at done
    split at ran <;> try contradiction
    rename_i c got
    simp only [got] at done
    obtain ⟨after,turned_,rfl⟩ := map_eq_some_iff.mp ran
    exact turnSound sound got done (turned (sound.plain c (mem_of_getElem? got)) turned_)
  | direct a =>
    cases a with
    | tick =>
      cases ran
      exact { sound with gone := fun named deleted =>
        have gone := sound.gone named deleted
        ⟨gone.near,gone.far,gone.idle⟩ }
    | _ => exact absurd reads id
  | tick =>
    cases ran
    exact { sound with gone := fun named deleted =>
      have gone := sound.gone named deleted
      ⟨gone.near,gone.far,gone.idle⟩ }
end

def Unfound (n : Nat) (key : String) (w : World α β φ) : Prop :=
  ∀ (i : Nat) (c : Caller α), n ≤ i → w.callers[i]? = some c → c.method = .get → c.key = key →
    ∀ v, c.phase ≠ .returned (.found v)

theorem stepUnfound (sound : Sound t key w) (deleted : Deleted key w)
    (unfound : Unfound n key w) (moved : step t w a = some next) : Unfound n key next ∧ Deleted key next := by
  obtain ⟨d,mem,isDelete,hasKey,done⟩ := deleted
  cases a with
  | call _ name =>
    cases moved
    refine ⟨fun i c later got isGet named v => ?_,d,List.mem_append_left _ mem,isDelete,hasKey,done⟩
    rcases addSeen got with ⟨_,rfl⟩ | old
    · cases isGet
      exact enterUnfound name v
    exact unfound i c later old isGet named v
  | move =>
    simp only [step] at moved
    split at moved <;> try contradiction
    rename_i caller got
    obtain ⟨after,ran,rfl⟩ := map_eq_some_iff.mp moved
    have plain := sound.plain caller (mem_of_getElem? got)
    have turned := turned plain ran
    refine ⟨fun i c later seen isGet named v => ?_,?_⟩
    · rcases setSeen seen with ⟨_,rfl⟩ | ⟨_,old⟩
      · have named : caller.key = key := named
        have gone := sound.gone (named ▸ turnedNamed plain turned) ⟨d,mem,isDelete,hasKey,done⟩
        have idle := gone.idle caller (mem_of_getElem? got)
        exact (turnedMisses plain gone.near gone.far named idle turned).2 v
      · exact unfound i c later old isGet named v
    obtain ⟨k,stands⟩ := List.getElem?_of_mem mem
    have differs : caller.phase ≠ d.phase := done ▸ turnedOpen turned .done
    exact ⟨d,mem_of_getElem? (setBeside Caller.phase got stands differs),isDelete,hasKey,done⟩
  | direct =>
    obtain ⟨l1,-,rfl⟩ := map_eq_some_iff.mp moved
    exact ⟨unfound,d,mem,isDelete,hasKey,done⟩
  | tick =>
    cases moved
    exact ⟨unfound,d,mem,isDelete,hasKey,done⟩
end

def DeleteHolds (key : String) (w u : World α β φ) : Prop :=
  Deleted key w → Unfound w.callers.length key u

theorem settledDeleteHolds [Inhabited α] (t : TieredCache α β φ) (key : String)
    (l1 : CacheStore.World UInt64 α φ) (l2 : KVStore.Store String β) (clock : Nat)
    (as bs : List (Act α)) (w u : World α β φ)
    (h : Trace (step t) (fun w a => Reads w a ∧ Settled key w a) (start l1 l2 clock) as w)
    (later : Trace (step t) (fun w a => Reads w a ∧ Settled key w a) w bs u) : DeleteHolds key w u := by
  intro deleted
  have sound : Sound t key w := traceInvariant (P := Sound t key)
    (fun _ _ _ sound allowed moved => stepSound sound allowed.1 allowed.2 moved) h
    ⟨by simp [start],by simp [start],by simp [start,Deleted]⟩
  have fresh : Unfound w.callers.length key w := by
    intro i c later found
    rw [List.getElem?_eq_none later] at found
    contradiction
  have held := traceInvariant
    (P := fun u => Sound t key u ∧ Unfound w.callers.length key u ∧ Deleted key u)
    (fun _ _ _ held allowed moved => ⟨stepSound held.1 allowed.1 allowed.2 moved,
      stepUnfound held.1 held.2.2 held.2.1 moved⟩) later ⟨sound,fresh,deleted⟩
  exact held.2.1

def plainly : TieredCache Nat Nat Unit := newTiered false ⟨some,some⟩ []
def stocked : World Nat Nat Unit :=
  start (CacheStore.start wrapping () 0) (Function.update (fun _ => none) "k" (some ⟨7,none⟩)) 0

def go (i : Nat) : Act Nat := .move i ⟨false,0,0,none⟩
def orderly : List (Act Nat) := [.call .get "k",go 0,go 0,go 0,.call .delete "k",go 1,go 1]
def crossed : List (Act Nat) := [.call .get "k",go 0,go 0,.call .delete "k",go 1,go 1]

theorem orderlyDeleteHolds : ∃ w u, Trace (step plainly) (fun w a => Reads w a ∧ Settled "k" w a) stocked orderly w ∧
      Trace (step plainly) (fun w a => Reads w a ∧ Settled "k" w a) w [.call .get "k",go 2,go 2] u ∧
      Deleted "k" w ∧ u.callers[2]? = some ⟨.get,"k",.returned .missing⟩ ∧ DeleteHolds "k" w u := by
  have first : accepts (step plainly) (fun w a => Reads w a ∧ Settled "k" w a) stocked orderly = true := by
    decide +kernel
  have second : (run (step plainly) stocked orderly).all (fun w =>
      accepts (step plainly) (fun w a => Reads w a ∧ Settled "k" w a) w [.call .get "k",go 2,go 2]) = true := by
    decide +kernel
  have calls : ((run (step plainly) stocked orderly).bind fun w =>
      (run (step plainly) w [.call .get "k",go 2,go 2]).map fun u => (w.callers[1]?,u.callers[2]?)) =
      some (some ⟨.delete,"k",.returned .done⟩,some ⟨.get,"k",.returned .missing⟩) := by decide +kernel
  obtain ⟨w,ran,trace⟩ := acceptedTrace first
  rw [ran] at second calls
  obtain ⟨u,ran',later⟩ := acceptedTrace second
  rw [bind_some,ran'] at calls
  obtain ⟨deleted,missing⟩ := Prod.mk.inj (Option.some.inj calls)
  exact ⟨w,u,trace,later,⟨_,mem_of_getElem? deleted,rfl,rfl,rfl⟩,missing,
    settledDeleteHolds plainly "k" _ _ 0 orderly _ w u trace later⟩

theorem backfillOutlivesDelete : ¬ ∀ (as bs : List (Act Nat)) (w u : World Nat Nat Unit),
    Trace (step plainly) Reads stocked as w → Trace (step plainly) Reads w bs u → DeleteHolds "k" w u := by
  intro claim
  have first : accepts (step plainly) Reads stocked crossed = true := by decide +kernel
  have second : (run (step plainly) stocked crossed).all (fun w =>
      accepts (step plainly) Reads w [go 0,.call .get "k",go 2]) = true := by decide +kernel
  have calls : ((run (step plainly) stocked crossed).bind fun w =>
      (run (step plainly) w [go 0,.call .get "k",go 2]).map fun u => (w.callers,u.callers[2]?)) =
      some ([⟨.get,"k",.backfill 7⟩,⟨.delete,"k",.returned .done⟩], some ⟨.get,"k",.returned (.found 7)⟩) := by
    decide +kernel
  obtain ⟨w,ran,trace⟩ := acceptedTrace first
  rw [ran] at second calls
  obtain ⟨u,ran',later⟩ := acceptedTrace second
  rw [bind_some,ran'] at calls
  obtain ⟨callers,found⟩ := Prod.mk.inj (Option.some.inj calls)
  have deleted : Deleted "k" w := ⟨⟨.delete,"k",.returned .done⟩,by simp [callers],rfl,rfl,rfl⟩
  exact claim crossed _ w u trace later deleted 2 _ (by simp [callers]) found rfl rfl 7 rfl

end Gofly.Tiered
