import Gofly.Migration
import Gofly.Transition
/-! What the migration history is good for: while the stored version is clean the checksum rows
are those of the migrations applied, and SQL runs only where the local files are those recorded. -/
namespace Gofly.Migration
open Transition Governance
open ByteReader
open Ascending
open Option (map_eq_some_iff map_none map_some)

variable {hash : Bytes → Str}

structure Loaded (hash : Bytes → Str) (entries : List Entry) : Prop where
  ascends : Ascends Entry.version entries
  positive : ∀ e ∈ entries, 0 < e.version
  hashed : ∀ e ∈ entries, e.upSHA256 = hash e.upSQL ∧ e.downSHA256 = hash e.downSQL

structure Distinct (pairs : List Pair) : Prop where
  versions : (pairs.map Pair.version).Nodup
  positive : ∀ pair ∈ pairs, 0 < pair.version

theorem putDistinct (nodup : Distinct pairs) (pos : 0 < pair.version) : Distinct (putPair pairs pair) := by
  constructor
  · refine List.nodup_cons.mpr ⟨?_,nodup.versions.sublist (List.filter_sublist.map _)⟩
    simp
  intro other mem
  rcases List.mem_cons.mp mem with rfl | old
  · exact pos
  exact nodup.positive other (List.mem_filter.mp old).1

theorem addDistinct (nodup : Distinct pairs)
    (pos : 0 < file.version) (ok : addFile pairs file data = .ok more) : Distinct more := by
  simp only [addFile] at ok
  split at ok <;> try contradiction
  split at ok
  · split at ok <;> cases ok
    exact putDistinct nodup pos
  split at ok <;> cases ok
  exact putDistinct nodup pos

theorem readDistinct (nodup : Distinct pairs) (ok : readFiles files total pairs = .ok more) : Distinct more := by
  induction files generalizing total pairs with
  | nil => cases ok; exact nodup
  | cons file rest ih =>
    simp only [readFiles] at ok
    split at ok <;> try contradiction
    rename_i name _
    split at ok <;> try contradiction
    split at ok <;> try contradiction
    split at ok <;> try contradiction
    cases added : addFile pairs name file.data with
    | error => simp [added,Except.bind] at ok
    | ok =>
      simp only [added] at ok
      exact ih (addDistinct nodup (by omega) added) ok

theorem entriesMade {pairs : List Pair} (ok : pairs.mapM (Pair.entry hash) = .ok entries) :
    entries.map Entry.version = pairs.map (fun pair => (pair.version : Int)) ∧
      ∀ e ∈ entries, e.upSHA256 = hash e.upSQL ∧ e.downSHA256 = hash e.downSQL := by
  induction pairs generalizing entries with
  | nil => cases ok; simp
  | cons pair rest ih =>
    rw [List.mapM_cons] at ok
    cases head : pair.entry hash with
    | error => simp [head,bind,Except.bind] at ok
    | ok entry =>
      cases tail : rest.mapM (Pair.entry hash) with
      | error => simp [head,tail,bind,Except.bind] at ok
      | ok =>
        simp only [head,tail,bind,Except.bind,pure,Except.pure,Except.ok.injEq] at ok
        subst ok
        obtain ⟨versions,hashed⟩ := ih tail
        unfold Pair.entry at head
        split at head <;> cases head
        exact ⟨by simp [versions],by simpa using hashed⟩

theorem rootLoaded (ok : loadRoot hash files = .ok entries) : Loaded hash entries := by
  unfold loadRoot at ok
  cases files : readFiles files 0 [] with
  | error => simp [files,Except.bind] at ok
  | ok pairs =>
    cases made : pairs.mapM (Pair.entry hash) with
    | error => simp [files,made,Except.bind,Except.map] at ok
    | ok =>
      simp only [files,made,Except.bind,Except.map,Except.ok.injEq] at ok
      subst ok
      have nodup : Distinct pairs := readDistinct ⟨by simp,by simp⟩ files
      obtain ⟨versions,hashed⟩ := entriesMade made
      refine ⟨Ascending.sortAscends ?_,fun e mem => ?_,fun e mem => hashed e ((List.mem_insertionSort _).mp mem)⟩
      · rw [versions]
        have cast : (fun pair : Pair => (pair.version : Int)) = (Nat.cast ∘ Pair.version) := rfl
        rw [cast,← List.map_map]
        exact nodup.versions.map Nat.cast_injective
      have ith : e.version ∈ pairs.map fun pair => (pair.version : Int) := by
        rw [← versions]
        exact List.mem_map_of_mem ((List.mem_insertionSort _).mp mem)
      obtain ⟨pair,known,eq⟩ := List.mem_map.mp ith
      have := nodup.positive pair known
      omega

def Matched (entries : List Entry) (rows : List HistoryRow) (version : Int) : Prop :=
  rows = (upTo Entry.version entries version).map Entry.row
def Applied.row (hash : Bytes → Str) (a : Applied) : HistoryRow := ⟨a.version,a.name,hash a.upSQL,hash a.downSQL⟩

structure Stored (hash : Bytes → Str) (version : Int) (rows : List HistoryRow) (applied : List Applied) : Prop where
  recorded : rows = applied.map (Applied.row hash)
  ascends : Ascends HistoryRow.version rows
  last : version = (rows.getLast?.map HistoryRow.version).getD (-1)


section
variable (loaded : Loaded hash entries)
include loaded

theorem upToDistinct (version) : ((upTo Entry.version entries version).map Entry.version).Nodup :=
  Ascending.ascendsDistinct (loaded.ascends.sublist List.filter_sublist)

theorem rowsAscend (version) : Ascends HistoryRow.version ((upTo Entry.version entries version).map Entry.row) :=
  List.pairwise_map.mpr (loaded.ascends.sublist List.filter_sublist)

theorem historyMatched (ascends : Ascends HistoryRow.version rows)
    (ok : checkHistory entries rows version = none) : Matched entries rows version := by
  simp only [checkHistory] at ok
  split at ok <;> try contradiction
  split at ok <;> try contradiction
  rename_i length
  have nodup := upToDistinct loaded version
  have sizes : rows.length = (upTo Entry.version entries version).length := by
    have whole := congrArg List.length (LastWins.tableDistinct nodup)
    rw [List.length_reverse] at whole
    exact (not_not.mp length).symm.trans whole
  have ith : rows ⊆ (upTo Entry.version entries version).map Entry.row := by
    intro row mem
    have got := List.find?_eq_none.mp (Option.map_eq_none_iff.mp ok) row mem
    simp only [decide_not,Bool.not_eq_eq_eq_not,Bool.not_true,decide_eq_false_iff_not,not_not,
      map_eq_some_iff] at got
    obtain ⟨e,got,eq⟩ := got
    exact List.mem_map.mpr ⟨e,LastWins.lookupMem got,eq⟩
  have unique : rows.Nodup := (Ascending.ascendsDistinct ascends).of_map
  refine Ascending.ascendsSame ascends (rowsAscend loaded version) ?_
  exact (List.subperm_of_subset unique ith).perm_of_length_le (by simp [sizes])

theorem entrySame (first : e ∈ entries) (second : d ∈ entries) (eq : e.version = d.version) : e = d :=
  List.inj_on_of_nodup_map (Ascending.ascendsDistinct loaded.ascends) first second eq

theorem entryFound (mem : e ∈ entries) : entries.find? (·.version = e.version) = some e := by
  obtain ⟨d,got⟩ := Option.isSome_iff_exists.mp
    (List.find?_isSome.mpr ⟨e,mem,by simp⟩ : (entries.find? (·.version = e.version)).isSome)
  rw [got,entrySame loaded (List.mem_of_find?_eq_some got) mem (by simpa using List.find?_some got)]

theorem readEntry (mem : e ∈ entries)
    (ok : read ready entries e.version up = some sql) : sql = if up then e.upSQL else e.downSQL := by
  simp only [read,entryFound loaded mem] at ok
  split at ok <;> try contradiction
  exact (Option.some.inj ok).symm
end

structure Rises (entries : List Entry) (version : Int) (plan : Plan) (e : Entry) : Prop where
  member : e ∈ entries
  plan : plan = ⟨e.version,e.upSQL⟩
  above : version < e.version
  grown : upTo Entry.version entries e.version = upTo Entry.version entries version ++ [e]

structure Falls (entries : List Entry) (version : Int) (plan : Plan) (e : Entry) : Prop where
  member : e ∈ entries
  current : e.version = version
  sql : plan.sql = e.downSQL
  shrunk : upTo Entry.version entries version = upTo Entry.version entries plan.target ++ [e]
  last : plan.target = ((upTo Entry.version entries plan.target).getLast?.map Entry.version).getD (-1)

section
variable (loaded : Loaded hash entries)
include loaded

theorem nextRises (got : Ascending.next Entry.version entries version = some e)
    (readable : read ready entries e.version true = some plan.sql) (target : plan.target = e.version) :
    Rises entries version plan e := by
  have mem := List.mem_of_find?_eq_some got
  obtain ⟨above,grown⟩ := Ascending.upToNext loaded.ascends got
  refine ⟨mem,?_,above,grown⟩
  have sql := readEntry loaded mem readable
  cases plan
  simp_all

theorem firstNext (negative : version < 0) : entries.head? = Ascending.next Entry.version entries version := by
  cases entries with
  | nil => rfl
  | cons e =>
    have := loaded.positive e (by simp)
    simp [Ascending.next,show version < e.version by omega]

theorem planRises (planned : enginePlan ready entries .up version = some plan) :
    ∃ e, Rises entries version plan e := by
  simp only [enginePlan,Option.bind_eq_some_iff,map_eq_some_iff] at planned
  obtain ⟨target,got,sql,readable,rfl⟩ := planned
  have step : (Ascending.next Entry.version entries version).map Entry.version = some target := by
    split at got
    · rename_i negative
      rwa [← firstNext loaded negative]
    exact got
  obtain ⟨e,after,rfl⟩ := map_eq_some_iff.mp step
  exact ⟨e,nextRises loaded after readable rfl⟩

theorem upToNone : upTo Entry.version entries (-1) = [] := by
  refine List.filter_eq_nil_iff.mpr fun e mem => ?_
  have := loaded.positive e mem
  simp only [decide_eq_true_eq]
  omega

theorem headFirst (mem : e ∈ entries)
    (least : Ascending.prev Entry.version entries e.version = none) : entries.head? = some e := by
  obtain ⟨old,after,rfl⟩ := List.append_of_mem mem
  rw [Ascending.prevAt loaded.ascends,List.getLast?_eq_none_iff] at least
  simp [least]

theorem planFalls (mem : e ∈ entries)
    (planned : enginePlan ready entries .down e.version = some plan) : Falls entries e.version plan e := by
  have grown := Ascending.upToPrev loaded.ascends mem
  simp only [enginePlan,prev] at planned
  split at planned <;> try contradiction
  cases got : Ascending.prev Entry.version entries e.version with
  | some d =>
    have lower : d ∈ entries := List.mem_reverse.mp (List.mem_of_find?_eq_some got)
    simp only [got,map_some,map_eq_some_iff] at planned
    obtain ⟨sql,readable,rfl⟩ := planned
    refine ⟨mem,rfl,by simpa using readEntry loaded mem readable,by simpa [got] using grown,?_⟩
    simp [Ascending.upToPrev loaded.ascends lower]
  | none =>
    simp only [got,map_none,first,headFirst loaded mem got,map_some,Option.bind_some,
      map_eq_some_iff] at planned
    obtain ⟨sql,readable,rfl⟩ := planned
    refine ⟨mem,rfl,by simpa using readEntry loaded mem readable,?_,by simp [upToNone loaded]⟩
    simpa [got,upToNone loaded] using grown
end

theorem raisedMatched (matched : Matched entries rows version) (rises : Rises entries version plan e) :
    Matched entries (rows ++ [e.row]) plan.target := by
  unfold Matched at *
  simp [rises.plan,rises.grown,← matched]

section
variable (loaded : Loaded hash entries)
include loaded

theorem raisedStored (stored : Stored hash version rows applied)
    (matched : Matched entries rows version) (rises : Rises entries version plan e) :
    Stored hash plan.target (rows ++ [e.row]) (applied ++ [⟨e.version,e.name,plan.sql,e.downSQL⟩]) := by
  obtain ⟨up,down⟩ := loaded.hashed e rises.member
  have ascends := rowsAscend loaded plan.target
  rw [← raisedMatched matched rises] at ascends
  refine ⟨?_,ascends,?_⟩
  · rw [List.map_append,← stored.recorded]
    simp [Entry.row,Applied.row,rises.plan,up,down]
  simp [rises.plan,Entry.row]

theorem loweredRows (matched : Matched entries rows version)
    (falls : Falls entries version plan e) :
    rows.filter (·.version ≠ version) = (upTo Entry.version entries plan.target).map Entry.row := by
  have ascends := rowsAscend loaded version
  rw [Matched,falls.shrunk,List.map_append] at matched
  rw [falls.shrunk,List.map_append] at ascends
  have below := (List.pairwise_append.mp ascends).2.2
  have kept : ∀ row ∈ (upTo Entry.version entries plan.target).map Entry.row, row.version ≠ version := by
    intro row mem
    have less := below row mem e.row (by simp)
    have current : e.row.version = version := falls.current
    omega
  rw [matched,List.filter_append,List.filter_eq_self.mpr (by simpa using kept)]
  simp [Entry.row,falls.current]

theorem loweredStored (stored : Stored hash version rows applied)
    (matched : Matched entries rows version) (falls : Falls entries version plan e) :
    Stored hash plan.target (rows.filter (·.version ≠ version)) (applied.filter (·.version ≠ version)) := by
  refine ⟨?_,stored.ascends.sublist List.filter_sublist,?_⟩
  · rw [stored.recorded,List.filter_map]
    rfl
  rw [loweredRows loaded matched falls,List.getLast?_map,Option.map_map]
  exact falls.last
end

theorem currentEntry (stored : Stored hash version rows applied) (matched : Matched entries rows version)
    (some : 0 ≤ version) : ∃ e ∈ entries, e.version = version := by
  have last := stored.last
  rw [matched,List.getLast?_map] at last
  cases got : (upTo Entry.version entries version).getLast? with
  | none =>
    rw [got] at last
    simp only [map_none,Option.getD_none] at last
    omega
  | some e =>
    rw [got] at last
    exact ⟨e,(Ascending.upToMember (List.mem_of_getLast? got)).1,last.symm⟩

theorem downFalls (loaded : Loaded hash entries) (stored : Stored hash version rows applied)
    (matched : Matched entries rows version) (planned : enginePlan ready entries .down version = some plan) :
    ∃ e, Falls entries version plan e := by
  have some : 0 ≤ version := by
    by_contra negative
    simp [enginePlan,show version < 0 by omega] at planned
  obtain ⟨e,mem,rfl⟩ := currentEntry stored matched some
  exact ⟨e,planFalls loaded mem planned⟩

/-- What an execution of SQL rests on: rows of the migrations applied, up SQL of the next local
file, or down SQL as recorded. -/
structure Lawful (hash : Bytes → Str) (x : Execution) : Prop where
  recorded : x.rows = x.applied.map (Applied.row hash)
  matched : Matched x.entries x.rows x.previous
  moves : x.action = .up ∧
        (∃ e, Rises x.entries x.previous x.plan e ∧ ∀ a ∈ x.applied, a.version < e.version) ∨
      x.action = .down ∧
        ∃ a, x.applied.getLast? = some a ∧ a.version = x.previous ∧ hash x.plan.sql = hash a.downSQL

theorem appliedBelow (stored : Stored hash version rows applied) (matched : Matched entries rows version)
    (mem : a ∈ applied) : a.version ≤ version := by
  have ith : a.row hash ∈ rows := by
    rw [stored.recorded]
    exact List.mem_map_of_mem mem
  rw [matched] at ith
  obtain ⟨e,below,eq⟩ := List.mem_map.mp ith
  have agrees : e.version = a.version := congrArg HistoryRow.version eq
  exact agrees ▸ (Ascending.upToMember below).2

theorem fallsLast (loaded : Loaded hash entries) (stored : Stored hash version rows applied)
    (matched : Matched entries rows version) (falls : Falls entries version plan e) :
    ∃ a, applied.getLast? = some a ∧ a.version = version ∧ hash plan.sql = hash a.downSQL := by
  have last : (applied.map (Applied.row hash)).getLast? = some e.row := by
    rw [← stored.recorded,matched,falls.shrunk]
    simp
  rw [List.getLast?_map,map_eq_some_iff] at last
  obtain ⟨a,got,eq⟩ := last
  have version := congrArg HistoryRow.version eq
  have down := congrArg HistoryRow.down eq
  refine ⟨a,got,version.trans falls.current,?_⟩
  rw [falls.sql,← (loaded.hashed e falls.member).2]
  exact down.symm

theorem planLawful (loaded : Loaded hash entries) (stored : Stored hash version rows applied)
    (matched : Matched entries rows version) (planned : enginePlan ready entries action version = some plan) :
    Lawful hash ⟨action,plan,version,entries,rows,applied⟩ := by
  refine ⟨stored.recorded,matched,?_⟩
  cases action with
  | up =>
    obtain ⟨e,rises⟩ := planRises loaded planned
    exact .inl ⟨rfl,e,rises,fun a mem => lt_of_le_of_lt (appliedBelow stored matched mem) rises.above⟩
  | down =>
    obtain ⟨e,falls⟩ := downFalls loaded stored matched planned
    exact .inr ⟨rfl,fallsLast loaded stored matched falls⟩
  | status => simp [enginePlan] at planned

variable {p : Proc}

theorem planSettles (loaded : Loaded hash p.entries) (stored : Stored hash version rows applied)
    (matched : Matched p.entries rows version) (planned : enginePlan ready p.entries p.action version = some plan) :
    ∃ after, ledgerRows p version plan rows = some after ∧
      Stored hash plan.target after (afterRun p version plan applied) ∧ Matched p.entries after plan.target := by
  cases action : p.action with
  | up =>
    rw [action] at planned
    obtain ⟨e,rises⟩ := planRises loaded planned
    have got : p.entries.find? (·.version = plan.target) = some e := by
      rw [rises.plan]
      exact entryFound loaded rises.member
    have fresh : ∀ row ∈ rows, row.version ≠ e.version := by
      rw [matched]
      intro row mem
      obtain ⟨d,below,rfl⟩ := List.mem_map.mp mem
      exact ne_of_lt (lt_of_le_of_lt (Ascending.upToMember below).2 rises.above)
    refine ⟨rows ++ [e.row],?_,?_,raisedMatched matched rises⟩
    · simpa [ledgerRows,action,got] using fresh
    simpa [afterRun,action,got] using raisedStored loaded stored matched rises
  | down =>
    rw [action] at planned
    obtain ⟨e,falls⟩ := downFalls loaded stored matched planned
    refine ⟨rows.filter (·.version ≠ version),?_,?_,loweredRows loaded matched falls⟩
    · simp [ledgerRows,action]
    simpa [afterRun,action] using loweredStored loaded stored matched falls
  | status => simp [action,enginePlan] at planned

structure Poised (hash : Bytes → Str) (ready : Bytes → Bool) (entries : List Entry) (action : Action) (version : Int)
    (rows : List HistoryRow) (applied : List Applied) (plan : Plan) : Prop where
  stored : Stored hash version rows applied
  matched : Matched entries rows version
  planned : enginePlan ready entries action version = some plan

def Holds (hash : Bytes → Str) (ready : Bytes → Bool) (w : World) (p : Proc) : Prop :=
  match p.phase with
  | .lock => True
  | .ensure => True
  | .inspect => True
  | .list version => w.db.dirty = false ∧ version = w.db.version
  | .opened => w.db.dirty = false → Matched p.entries w.db.rows w.db.version
  | .mark plan => w.db.dirty = false ∧ Poised hash ready p.entries p.action w.db.version w.db.rows w.applied plan
  | .setDirty previous plan =>
    w.db.dirty = false ∧ previous = w.db.version ∧ Poised hash ready p.entries p.action previous w.db.rows w.applied plan
  | .run previous plan => w.db.dirty = true ∧ Poised hash ready p.entries p.action previous w.db.rows w.applied plan
  | .ledger previous plan =>
    w.db.dirty = true ∧ ∃ before, w.applied = afterRun p previous plan before ∧
      Poised hash ready p.entries p.action previous w.db.rows before plan
  | .setClean plan =>
    w.db.dirty = true ∧ Stored hash plan.target w.db.rows w.applied ∧ Matched p.entries w.db.rows plan.target

structure Sound (hash : Bytes → Str) (ready : Bytes → Bool) (w : World) : Prop where
  stored : w.db.dirty = false → Stored hash w.db.version w.db.rows w.applied
  lawful : ∀ x ∈ w.log, Lawful hash x
  proc : ∀ p, w.proc = some p → Loaded hash p.entries ∧ Holds hash ready w p

variable {w next : World}

theorem stopSound (sound : Sound hash ready w) : Sound hash ready w.stop :=
  { sound with proc := by simp [World.stop] }

theorem goOnSound (stored : w.db.dirty = false → Stored hash w.db.version w.db.rows w.applied)
    (lawful : ∀ x ∈ w.log, Lawful hash x) (loaded : Loaded hash p.entries)
    (holds : o = .ok → Holds hash ready w { p with phase }) : Sound hash ready (w.goOn p o phase) := by
  unfold World.goOn
  split
  · rename_i ok
    refine ⟨stored,lawful,fun q eq => ?_⟩
    cases eq
    exact ⟨loaded,holds ok⟩
  exact ⟨stored,lawful,by simp [World.stop]⟩

theorem advanceSound (dirty : w.db.dirty = false) (stored : Stored hash w.db.version w.db.rows w.applied)
    (lawful : ∀ x ∈ w.log, Lawful hash x) (loaded : Loaded hash p.entries)
    (matched : Matched p.entries w.db.rows w.db.version) :
    Sound hash ready { w with proc := advance ready p w.db.version } := by
  refine ⟨fun _ => stored,lawful,fun q eq => ?_⟩
  unfold advance at eq
  split at eq <;> try contradiction
  obtain ⟨plan,planned,rfl⟩ := map_eq_some_iff.mp eq
  exact ⟨loaded,dirty,stored,matched,planned⟩

theorem dirtySound (dirty : w.db.dirty = true) (lawful : ∀ x ∈ w.log, Lawful hash x)
    (loaded : Loaded hash p.entries) (holds : o = .ok → Holds hash ready w { p with phase }) :
    Sound hash ready (w.goOn p o phase) :=
  goOnSound (by simp [dirty]) lawful loaded holds

theorem callSound (sound : Sound hash ready w) (runs : w.proc = some p) : Sound hash ready (call ready w p o) := by
  obtain ⟨loaded,holds⟩ := sound.proc p runs
  have keep (phase : Phase) (holds : o = .ok → Holds hash ready w { p with phase }) :
      Sound hash ready (w.goOn p o phase) := goOnSound sound.stored sound.lawful loaded holds
  obtain ⟨action,steps,entries,left,phase⟩ := p
  cases phase with
  | lock => exact keep .ensure fun _ => trivial
  | ensure => exact keep .inspect fun _ => trivial
  | inspect =>
    refine keep _ fun _ => ?_
    cases dirty : w.db.dirty with
    | true | false => simp [Holds,dirty]
  | list =>
    obtain ⟨clean,rfl⟩ := holds
    simp only [call]
    split
    · rename_i checked
      exact keep .opened fun _ _ => historyMatched loaded (sound.stored clean).ascends checked.1
    exact stopSound sound
  | opened =>
    simp only [call]
    split
    · rename_i clean
      exact advanceSound clean.2 (sound.stored clean.2) sound.lawful loaded (holds clean.2)
    exact stopSound sound
  | mark => exact keep _ fun _ => ⟨holds.1,rfl,holds.2⟩
  | setDirty =>
    obtain ⟨clean,rfl,poised⟩ := holds
    cases done : o.done with
    | true =>
      simp only [call,done]
      exact dirtySound rfl sound.lawful loaded fun _ => ⟨rfl,poised⟩
    | false =>
      simp only [call,done]
      refine keep _ fun ok => ?_
      simp [ok,Outcome.done] at done
  | run =>
    obtain ⟨dirty,poised⟩ := holds
    refine dirtySound dirty ?_ loaded fun ok => ⟨dirty,w.applied,by subst ok; rfl,poised⟩
    intro x mem
    rcases Roster.addMem mem with old | new
    · exact sound.lawful x old
    rw [new]
    exact planLawful loaded poised.stored poised.matched poised.planned
  | ledger =>
    obtain ⟨dirty,before,applied,poised⟩ := holds
    obtain ⟨rows,ledger,stored,matched⟩ := planSettles loaded poised.stored poised.matched poised.planned
    simp only [call,ledger]
    cases done : o.done with
    | true => exact dirtySound dirty sound.lawful loaded fun _ => ⟨dirty,applied ▸ stored,matched⟩
    | false =>
      refine dirtySound dirty sound.lawful loaded fun ok => ?_
      simp [ok,Outcome.done] at done
  | setClean =>
    obtain ⟨dirty,stored,matched⟩ := holds
    cases o with
    | ok => exact advanceSound rfl stored sound.lawful loaded matched
    | failed done =>
      refine ⟨?_,?_,by simp [call,World.stop]⟩
      · cases done with
        | true => exact fun _ => stored
        | false => exact sound.stored
      cases done <;> exact sound.lawful

theorem invokeSound (sound : Sound hash ready w) : Sound hash ready (invoke hash w action steps files) := by
  unfold invoke
  split
  · exact sound
  split
  · exact sound
  rename_i ok
  refine { sound with proc := fun p eq => ?_ }
  cases eq
  exact ⟨rootLoaded ok,trivial⟩

theorem stepSound (sound : Sound hash ready w) (ran : step hash ready w act = some next) : Sound hash ready next := by
  cases act with
  | invoke =>
    simp only [step] at ran
    split at ran <;> cases ran
    exact invokeSound sound
  | call =>
    obtain ⟨p,runs,rfl⟩ := map_eq_some_iff.mp ran
    exact callSound sound runs
  | crash =>
    cases ran
    exact stopSound sound

theorem initialSound : Sound hash ready initial := ⟨fun _ => ⟨rfl,.nil,rfl⟩,by simp [initial],by simp [initial]⟩

/-- While the version is clean the rows are those of the migrations applied, and every execution
of SQL was lawful. -/
theorem historyTrusted (hash : Bytes → Str) (ready : Bytes → Bool) (acts : List Act) (w : World)
    (ran : Transition.run (step hash ready) initial acts = some w) :
    (w.db.dirty = false → Stored hash w.db.version w.db.rows w.applied) ∧ ∀ x ∈ w.log, Lawful hash x := by
  have sound : Sound hash ready w :=
    traceInvariant (fun _ _ _ sound _ moved => stepSound sound moved) (runFree ran) initialSound
  exact ⟨sound.stored,sound.lawful⟩

def spelled (data : Bytes) : Str := data.map fun b => Char.ofNat b.toNat
def sampleFiles : List File :=
  [⟨some ⟨2,['b'],true⟩,[66]⟩,⟨some ⟨1,['a'],true⟩,[65]⟩,⟨some ⟨1,['a'],false⟩,[97]⟩,⟨some ⟨2,['b'],false⟩,[98]⟩]

def upAndDown : List Act :=
  [Act.invoke .up 0 sampleFiles] ++ List.replicate 15 (Act.call .ok) ++
    [Act.invoke .down 1 sampleFiles] ++ List.replicate 6 (Act.call .ok) ++ [Act.crash] ++
    [Act.invoke .down 1 sampleFiles] ++ List.replicate 10 (Act.call .ok)

theorem upAndDownTrusted : ∃ w, Transition.run (step spelled fun _ => true) initial upAndDown = some w ∧
      (w.db.version,w.db.dirty,w.applied.length,w.log.length) = (1,false,1,3) ∧
      (w.db.dirty = false → Stored spelled w.db.version w.db.rows w.applied) ∧ ∀ x ∈ w.log, Lawful spelled x := by
  have ends : (run (step spelled fun _ => true) initial upAndDown).map
      (fun w => (w.db.version,w.db.dirty,w.applied.length,w.log.length)) = some (1,false,1,3) := by decide +kernel
  obtain ⟨w,ran,shape⟩ := Option.map_eq_some_iff.mp ends
  exact ⟨w,ran,shape,historyTrusted spelled (fun _ => true) upAndDown w ran⟩

end Gofly.Migration
