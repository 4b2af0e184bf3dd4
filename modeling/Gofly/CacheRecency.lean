import Gofly.CacheStore
import Mathlib.Algebra.Order.Group.Nat
/-! The size of the cache, the choice of its victims, and what holds of every entry whatever
stamps are drawn. -/
namespace Gofly.CacheStore
open Recency Transition
open List (kerase_sublist mem_cons mem_filter mem_map)
open UInt64 (lt_iff_toNat_lt ofNat ofNat_add toNat_ofNat')

variable {ω ω' α φ : Type}

def Entry.data (e : Entry ω α) : Entry Unit α := ⟨e.value,e.expiresAt,e.staleUntil,(),e.negative⟩
def forget (row : (_ : String) × Entry ω α) : (_ : String) × Entry Unit α := ⟨row.1,row.2.data⟩

@[simp] theorem dataExpired (e : Entry ω α) (now) : e.data.expired now = e.expired now := rfl

section
variable [LT ω]

structure Drawn (before after : Items ω α) (order : ω) : Prop where
  descending : Descending Entry.accessOrder after.entries
  newest : ∀ row ∈ after.entries, row.2.accessOrder < order
  same : after.entries.map forget = before.entries.map forget

structure Stamped (items : Items ω α) (last : ω) : Prop where
  descending : Descending Entry.accessOrder items.entries
  below : ∀ row ∈ items.entries, row.2.accessOrder = last ∨ row.2.accessOrder < last

/-- A counter that draws lawful stamps as long as there are at most size entries. -/
def Lawful (counter : Counter ω) (size : Nat) : Prop :=
  ∀ (α : Type) (items : Items ω α) (last : ω), Stamped items last → items.entries.length ≤ size →
    Drawn items (counter.next items last).1 (counter.next items last).2
end

theorem unboundedLawful (size) : Lawful unbounded size := by
  intro α items last stamped fits
  refine ⟨stamped.descending,fun row mem => ?_,rfl⟩
  show row.2.accessOrder < last + 1
  rcases stamped.below row mem with eq | less <;> omega

def renumbered : List ((_ : String) × Entry UInt64 α) → List ((_ : String) × Entry UInt64 α)
  | [] => []
  | row :: rest =>
    ⟨row.1,{ row.2 with accessOrder := ofNat (rest.length + 1) }⟩ :: renumbered rest

theorem renumberedForget (rows : List ((_ : String) × Entry UInt64 α)) :
    (renumbered rows).map forget = rows.map forget := by
  induction rows with
  | nil => rfl
  | cons _ _ ih => simp [renumbered,forget,Entry.data,ih]

theorem renumberedStamps (mem : row ∈ renumbered rows) :
    ∃ n, 0 < n ∧ n ≤ rows.length ∧ row.2.accessOrder = ofNat n := by
  induction rows with
  | nil => simp [renumbered] at mem
  | cons _ rest ih =>
    rcases mem_cons.mp mem with rfl | later
    · exact ⟨rest.length + 1,by omega,by simp,rfl⟩
    obtain ⟨n,pos,within,eq⟩ := ih later
    exact ⟨n,pos,by simp; omega,eq⟩

theorem ofNatLess (less : m < n) (small : n < 2 ^ 64) : ofNat m < ofNat n := by
  rw [lt_iff_toNat_lt,toNat_ofNat',toNat_ofNat',
    Nat.mod_eq_of_lt (by omega),Nat.mod_eq_of_lt small]
  exact less

theorem renumberedDescending (small : rows.length < 2 ^ 64) : Descending Entry.accessOrder (renumbered rows) := by
  induction rows with
  | nil => exact List.Pairwise.nil
  | cons _ _ ih =>
    rw [List.length_cons] at small
    refine List.pairwise_cons.mpr ⟨fun later mem => ?_,ih (by omega)⟩
    obtain ⟨n,-,within,eq⟩ := renumberedStamps mem
    rw [eq]
    exact ofNatLess (by omega) small

theorem restampRows (entries : items.entries = old ++ rows) :
    (rows.keys.reverse.foldl restamp (items,0)).1.entries = old ++ renumbered rows ∧
      (rows.keys.reverse.foldl restamp (items,0)).2 = ofNat rows.length := by
  induction rows generalizing old with
  | nil => exact ⟨entries,rfl⟩
  | cons row rest ih =>
    have later := ih (entries.trans (List.append_cons old row rest))
    generalize done : rest.keys.reverse.foldl restamp (items,0) = acc at later
    obtain ⟨table,count⟩ := acc
    obtain ⟨rows,rfl⟩ := later
    rw [List.append_assoc] at rows
    have held : table.lookup row.1 = some row.2 :=
      AList.mem_lookup_iff.mpr (rows ▸ List.mem_append_right _ List.mem_cons_self)
    have gone : row.1 ∉ old.keys := by
      have nodup := table.nodupKeys
      rw [rows] at nodup
      exact absentBefore nodup
    have replaced : ∀ ent, (table.replace row.1 ent).entries = old ++ ⟨row.1,ent⟩ :: renumbered rest := fun ent => by
        show List.kreplace row.1 ent table.entries = _
        rw [rows]
        exact kreplaceMiddle gone
    simp only [List.keys,List.map_cons,List.reverse_cons,List.foldl_append,List.foldl_cons,List.foldl_nil] at done ⊢
    rw [done]
    simp only [restamp,held,replaced,renumbered,List.length_cons,ofNat_add]
    exact ⟨rfl,rfl⟩

theorem rebaseRows (desc : Descending Entry.accessOrder items.entries) :
    (rebase items).1.entries = renumbered items.entries ∧ (rebase items).2 = ofNat items.entries.length := by
  have sorted : items.entries.insertionSort (fun a b => a.2.accessOrder ≤ b.2.accessOrder) = items.entries.reverse :=
    descendingSorted desc UInt64.le_total UInt64.le_antisymm UInt64.ne_of_lt
      UInt64.le_trans UInt64.le_of_lt
  simp only [rebase,sorted,List.map_reverse]
  exact restampRows (List.nil_append items.entries).symm

theorem wrappingLawful (small : size + 1 < 2 ^ 64) : Lawful wrapping size := by
  intro α items last stamped fits
  show Drawn items (nextAccessOrderLocked items last).1 (nextAccessOrderLocked items last).2
  unfold nextAccessOrderLocked
  split
  · obtain ⟨rows,count⟩ := rebaseRows stamped.descending
    simp only [count]
    refine ⟨rows ▸ renumberedDescending (by omega),fun row mem => ?_,by rw [rows,renumberedForget]⟩
    rw [rows] at mem
    obtain ⟨n,-,within,eq⟩ := renumberedStamps mem
    rw [eq,← UInt64.ofNat_one,← ofNat_add]
    exact ofNatLess (by omega) (by omega)
  rename_i room
  refine ⟨stamped.descending,fun row mem => ?_,rfl⟩
  have next : (last + 1).toNat = last.toNat + 1 := by
    have bound := last.toNat_lt
    have ne : last.toNat ≠ 18446744073709551615 := fun eq => room (UInt64.toNat_inj.mp eq)
    simp
    omega
  rw [lt_iff_toNat_lt,next]
  rcases stamped.below row mem with eq | less
  · rw [eq]; omega
  rw [lt_iff_toNat_lt] at less; omega

section
variable {items : Items ω α} {other : Items ω' α}

theorem forgetLookup (rows : List ((_ : String) × Entry ω α)) :
    (rows.map forget).dlookup key = (rows.dlookup key).map Entry.data := by
  induction rows with
  | nil => rfl
  | cons row _ ih =>
    by_cases eq : key = row.1
    · obtain ⟨name,ent⟩ := row
      subst eq
      simp [forget]
    rw [List.map_cons,List.dlookup_cons_ne _ (forget row) eq,List.dlookup_cons_ne _ row eq,ih]

theorem alikeLookup (eq : items.entries.map forget = other.entries.map forget) (key) :
    (items.lookup key).map Entry.data = (other.lookup key).map Entry.data := by
  simp only [AList.lookup,← forgetLookup,eq]

theorem forgetKeys (rows : List ((_ : String) × Entry ω α)) : (rows.map forget).keys = rows.keys := by
  simp [List.keys,forget]

theorem alikeKeys (eq : items.entries.map forget = other.entries.map forget) : items.keys = other.keys := by
  have keys := congrArg List.keys eq
  rwa [forgetKeys,forgetKeys] at keys

theorem forgetErase (rows : List ((_ : String) × Entry ω α)) :
    (List.kerase key rows).map forget = List.kerase key (rows.map forget) := by
  simp only [List.kerase,List.eraseP_map]
  rfl

theorem otherRow {rows : List ((_ : String) × Entry ω α)} (nodup : rows.NodupKeys) (mem : row ∈ List.kerase key rows) : row.1 ≠ key := by
  rintro rfl
  exact List.notMem_keys_kerase row.1 nodup (List.mem_keys_of_mem mem)

theorem keptRow {rows : List ((_ : String) × Entry ω α)}
    (mem : row ∈ rows) (other : row.1 ≠ key) : row ∈ List.kerase key rows :=
  (List.mem_eraseP_of_neg (by simpa using other.symm)).mpr mem
end
section
variable [LT ω]

structure Recent (touched : List String) (c : Cache ω α φ) : Prop where
  stamped : Stamped c.items c.nextAccessOrder
  aged : Aged touched c.items.keys

theorem recentSublist {c : Cache ω α φ} (recent : Recent touched c)
    (fewer : items.entries.Sublist c.items.entries) : Recent touched { c with items := items } :=
  ⟨⟨recent.stamped.descending.sublist fewer,fun row member => recent.stamped.below row (fewer.mem member)⟩,
    recent.aged.sublist (fewer.map Sigma.fst)⟩

theorem stampRecent {c : Cache ω α φ} (lawful : Lawful counter size) (recent : Recent touched c)
    (fits : c.items.entries.length ≤ size) (own : ∀ order, (ent order).accessOrder = order) :
    Recent (key :: touched) (c.stamp counter key ent) := by
  have drawn := lawful α c.items c.nextAccessOrder recent.stamped fits
  refine ⟨⟨?_,?_⟩,?_⟩
  · refine descendingInsert drawn.descending fun row member => ?_
    rw [own]
    exact drawn.newest row member
  · intro row member
    rcases mem_cons.mp member with rfl | old
    · exact .inl (own _)
    exact .inr (drawn.newest row ((kerase_sublist _ _).mem old))
  show Aged (key :: touched) ((counter.next c.items c.nextAccessOrder).1.insert key _).keys
  rw [AList.keys_insert,alikeKeys drawn.same]
  exact agedTouch recent.aged c.items.keys_nodup

theorem drawnLookup (now) {before : Items ω α} (drew : Drawn before drawn order) (mem : row ∈ drawn.entries) :
    ∃ old, before.lookup row.1 = some old ∧ old.expired now = row.2.expired now := by
  have held : drawn.lookup row.1 = some row.2 := AList.mem_lookup_iff.mpr mem
  have eq := alikeLookup drew.same row.1
  rw [held] at eq
  obtain ⟨old,got,data⟩ := Option.map_eq_some_iff.mp eq.symm
  exact ⟨old,got,by rw [← dataExpired,data,dataExpired]⟩
end
section
variable [LT ω] [DecidableLT ω]

theorem evictExact {items : Items ω α} (now)
    (desc : Descending Entry.accessOrder items.entries) (capped : 0 < cfg.maxEntries) :
    (evictLocked cfg items now).1.entries = (sweep items now).entries.take cfg.maxEntries.toInt.toNat ∧
      (evictLocked cfg items now).2.oldest =
        ((sweep items now).entries.drop cfg.maxEntries.toInt.toNat).keys.reverse ∧
      (evictLocked cfg items now).2.expired = (items.entries.filter fun row => row.2.expired now).keys := by
  have swept : Descending Entry.accessOrder (sweep items now).entries := desc.sublist List.filter_sublist
  unfold evictLocked
  rw [if_neg (Int64.not_le.mpr capped)]
  obtain ⟨left,gone⟩ := trimTakes swept le_rfl
  exact ⟨left,gone,rfl⟩

structure Exact (now : Int) (touched : List String) (late : Prop) (before after : Cache ω α φ) (key : String)
    (evicted : Evicted) : Prop where
  written : key ∈ after.items ∨ late
  accounted : ∀ k ∈ before.items, k ∉ after.items → k ∈ evicted.expired ∨ k ∈ evicted.oldest
  expired : ∀ k ∈ evicted.expired,
    (∃ ent, before.items.lookup k = some ent ∧ ent.expired now = true) ∨ k = key ∧ late
  oldest : ∀ k ∈ evicted.oldest, k ≠ key ∧
    (∃ ent, before.items.lookup k = some ent ∧ ent.expired now = false) ∧
    ∀ kept ∈ after.items, touched.idxOf kept < touched.idxOf k
  ordered : evicted.oldest.Pairwise fun first second => touched.idxOf second < touched.idxOf first

section

variable {cfg : Config φ} {now : Int} {c : Cache ω α φ}
  {ent : ω → Entry ω α} {size : Nat} {touched : List String}

theorem cappedPositive (capped : 0 < cfg.maxEntries) : ∃ max, cfg.maxEntries.toInt.toNat = max + 1 := by
  have pos : 0 < cfg.maxEntries.toInt := by simpa using Int64.lt_iff_toInt_lt.mp capped
  exact ⟨cfg.maxEntries.toInt.toNat - 1,by omega⟩

/-- How the rows after a write, the new one first, come out of the eviction. -/
structure Divided (now : Int) (touched : List String) (rows : List ((_ : String) × Entry ω α)) (after : Items ω α)
    (evicted : Evicted) : Prop where
  newest : ∀ row ∈ rows.head?, row.2.expired now = false → row.1 ∈ after
  placed : ∀ row ∈ rows, row.1 ∉ after → row.1 ∈ evicted.expired ∨ row.1 ∈ evicted.oldest
  expired : ∀ k ∈ evicted.expired, ∃ row ∈ rows, row.1 = k ∧ row.2.expired now = true
  oldest : ∀ k ∈ evicted.oldest, (∃ row ∈ rows.tail, row.1 = k ∧ row.2.expired now = false) ∧
    ∀ kept ∈ after, touched.idxOf kept < touched.idxOf k
  ordered : evicted.oldest.Pairwise fun first second => touched.idxOf second < touched.idxOf first

theorem evictDivided {items : Items ω α} (desc : Descending Entry.accessOrder items.entries)
    (capped : 0 < cfg.maxEntries) (aged : Aged touched items.keys) :
    Divided now touched items.entries (evictLocked cfg items now).1 (evictLocked cfg items now).2 := by
  obtain ⟨left,gone,dead⟩ := evictExact now desc capped
  obtain ⟨max,more⟩ := cappedPositive capped
  rw [more] at left gone
  have rest : Aged touched (sweep items now).entries.keys := aged.sublist (List.filter_sublist.map Sigma.fst)
  have whole := List.take_append_drop (max + 1) (sweep items now).entries
  have keys : (evictLocked cfg items now).1.keys = ((sweep items now).entries.take (max + 1)).keys :=
    congrArg List.keys left
  rw [← whole,List.keys,List.map_append] at rest
  obtain ⟨-,older,ne⟩ := List.pairwise_append.mp rest
  refine ⟨fun row first alive => ?_,fun row mem lost => ?_,fun k mem => ?_,fun k mem => ?_,?_⟩
  · obtain ⟨rest,rows⟩ := List.head?_eq_some_iff.mp first
    have swept : (sweep items now).entries = row :: rest.filter fun row => !row.2.expired now := by
      show items.entries.filter _ = _
      rw [rows,List.filter_cons_of_pos (by simp [alive])]
    rw [AList.mem_keys,keys,swept,List.take_succ_cons]
    exact List.mem_cons_self
  · cases due : row.2.expired now with
    | true =>
      rw [dead]
      exact .inl (List.mem_map_of_mem (mem_filter.mpr ⟨mem,due⟩))
    | false =>
      have live : row ∈ (sweep items now).entries := mem_filter.mpr ⟨mem,by simp [due]⟩
      rw [← whole,List.mem_append] at live
      rw [AList.mem_keys,keys] at lost
      rw [gone,List.mem_reverse]
      exact .inr (List.mem_map_of_mem (live.resolve_left fun kept => lost (List.mem_map_of_mem kept)))
  · rw [dead] at mem
    obtain ⟨row,met,rfl⟩ := mem_map.mp mem
    obtain ⟨inside,due⟩ := mem_filter.mp met
    exact ⟨row,inside,rfl,due⟩
  · rw [gone,List.mem_reverse] at mem
    obtain ⟨row,cut,rfl⟩ := mem_map.mp mem
    have alive : row.2.expired now = false := by simpa using (mem_filter.mp (List.mem_of_mem_drop cut)).2
    refine ⟨⟨row,?_,rfl,alive⟩,fun kept inside => ?_⟩
    · -- what is dropped comes after a row that is kept, so it is not the first
      have fewer : (sweep items now).entries.tail.Sublist items.entries.tail := List.filter_sublist.tail
      rw [← List.drop_tail] at cut
      exact fewer.mem (List.mem_of_mem_drop cut)
    rw [AList.mem_keys,keys] at inside
    exact ne kept inside row.1 mem
  rw [gone,List.pairwise_reverse]
  exact older

theorem storeExact (key) (lawful : Lawful counter size) (recent : Recent touched c)
    (fits : c.items.entries.length ≤ size) (fitting : Fitting cfg now late ent) (capped : 0 < cfg.maxEntries) :
    ∃ evicted, (c.store counter cfg now key ent).2 = some evicted ∧
      Recent (key :: touched) (c.store counter cfg now key ent).1 ∧
      (c.store counter cfg now key ent).1.items.entries.length ≤ cfg.maxEntries.toInt.toNat ∧
      Exact now (key :: touched) late c (c.store counter cfg now key ent).1 key evicted := by
  have drew := lawful α c.items c.nextAccessOrder recent.stamped fits
  have stamped : Recent (key :: touched) (c.stamp counter key ent) := stampRecent lawful recent fits fitting.own
  obtain ⟨left,-,-⟩ := evictExact now stamped.stamped.descending capped
  have divided : Divided now (key :: touched) (⟨key,_⟩ :: List.kerase key _) (c.store counter cfg now key ent).1.items _ :=
    evictDivided stamped.stamped.descending capped stamped.aged
  have old {row : (_ : String) × Entry ω α} (inside : row ∈ List.kerase key (counter.next c.items c.nextAccessOrder).1.entries) :
      row.1 ≠ key ∧ ∃ ent, c.items.lookup row.1 = some ent ∧ ent.expired now = row.2.expired now :=
    ⟨otherRow (counter.next c.items c.nextAccessOrder).1.nodupKeys inside,
      drawnLookup now drew ((kerase_sublist _ _).mem inside)⟩
  refine ⟨_,rfl,recentSublist stamped (?_ : List.Sublist (evictLocked cfg _ now).1.entries _),?_,?_,
    fun k known lost => ?_,fun k mem => ?_,fun k mem => ?_,divided.ordered⟩
  · rw [left]
    exact (List.take_sublist _ _).trans List.filter_sublist
  · show (evictLocked cfg _ now).1.entries.length ≤ _
    rw [left]
    exact List.length_take_le _ _
  · cases due : (ent (counter.next c.items c.nextAccessOrder).2).expired now with
    | true => exact .inr (fitting.lives _ due)
    | false => exact .inl (divided.newest _ rfl due)
  · by_cases same : k = key
    · subst same
      exact divided.placed _ List.mem_cons_self lost
    rw [AList.mem_keys,← alikeKeys drew.same] at known
    obtain ⟨row,mem,rfl⟩ := mem_map.mp known
    exact divided.placed row (List.mem_cons_of_mem _ (keptRow mem same)) lost
  · obtain ⟨row,inside,rfl,due⟩ := divided.expired k mem
    rcases mem_cons.mp inside with rfl | behind
    · exact .inr ⟨rfl,fitting.lives _ due⟩
    obtain ⟨_,ent,got,eq⟩ := old behind
    exact .inl ⟨ent,got,eq.trans due⟩
  obtain ⟨⟨row,behind,rfl,alive⟩,older⟩ := divided.oldest k mem
  obtain ⟨other,ent,got,eq⟩ := old behind
  exact ⟨other,⟨ent,got,eq.trans alive⟩,older⟩

structure Kept (cfg : Config φ) (touched : List String) (c : Cache ω α φ) : Prop where
  recent : Recent touched c
  fits : c.items.entries.length ≤ cfg.maxEntries.toInt.toNat

omit [DecidableLT ω] in
theorem touchLength {held order} (drew : Drawn c.items (counter.next c.items c.nextAccessOrder).1 order)
    (got : c.items.lookup key = some held) :
    (c.touch counter key held).items.entries.length = c.items.entries.length := by
  have mem : key ∈ c.items.keys := AList.mem_keys.mp (AList.lookup_isSome.mp (by rw [got]; rfl))
  have length : ∀ items : Items ω α, items.entries.length = items.keys.length := fun items => by
    simp [AList.keys,List.keys]
  have pos := List.length_pos_of_mem mem
  rw [length,length]
  show ((counter.next c.items c.nextAccessOrder).1.insert key _).keys.length = _
  rw [AList.keys_insert,alikeKeys drew.same,List.length_cons,List.length_erase_of_mem mem]
  omega

theorem changedKept (lawful : Lawful counter cfg.maxEntries.toInt.toNat) (capped : 0 < cfg.maxEntries)
    (kept : Kept cfg touched c) (changed : Changed counter cfg now late c after wrote used) :
    Kept cfg (used.toList ++ touched) after ∧
      ∀ key evicted, wrote = some (key,evicted) → Exact now (used.toList ++ touched) late c after key evicted := by
  cases changed with
  | same => exact ⟨⟨⟨kept.recent.stamped,kept.recent.aged⟩,kept.fits⟩,by simp⟩
  | erased key =>
    have fewer : (c.items.erase key).entries.Sublist c.items.entries := kerase_sublist _ _
    exact ⟨⟨recentSublist kept.recent fewer,fewer.length_le.trans kept.fits⟩,by simp⟩
  | emptied =>
    have fewer : (∅ : Items ω α).entries.Sublist c.items.entries := List.nil_sublist _
    exact ⟨⟨recentSublist kept.recent fewer,Nat.zero_le _⟩,by simp⟩
  | touched held =>
    have drew := lawful α c.items c.nextAccessOrder kept.recent.stamped kept.fits
    refine ⟨⟨stampRecent lawful kept.recent kept.fits fun _ => rfl,?_⟩,by simp⟩
    rw [touchLength drew held]
    exact kept.fits
  | @stored filter key _ fitting =>
    have recent : Recent touched { c with filter := filter } := ⟨kept.recent.stamped,kept.recent.aged⟩
    obtain ⟨evicted,done,later,fits,exactly⟩ := storeExact key lawful recent kept.fits fitting capped
    refine ⟨⟨later,fits⟩,fun key' evicted' same => ?_⟩
    rw [done] at same
    cases same
    exact { exactly with }
end
end

variable {ω α φ : Type}

def Rows (P : String → Entry Unit α → Prop) (items : Items ω α) : Prop :=
  ∀ row ∈ items.entries, P row.1 row.2.data

def Preserves (counter : Counter ω) : Prop :=
  ∀ (α : Type) (items : Items ω α) (last : ω),
    (counter.next items last).1.entries.map forget = items.entries.map forget

theorem replaceForget {new : Entry ω α} (held : rows.dlookup key = some ent) (data : new.data = ent.data) :
    (List.kreplace key new rows).map forget = rows.map forget := by
  induction rows with
  | nil => rfl
  | cons row _ ih =>
    unfold List.kreplace at ih ⊢
    by_cases eq : key = row.1
    · cases eq
      rw [List.dlookup_cons_eq] at held
      cases held
      simp only [List.lookmap_cons,if_pos,List.map_cons,forget,data]
    rw [List.dlookup_cons_ne _ row eq] at held
    simp only [List.lookmap_cons,if_neg eq,List.map_cons,ih held]

theorem restampForget (acc : Items UInt64 α × UInt64) (key) :
    (restamp acc key).1.entries.map forget = acc.1.entries.map forget := by
  unfold restamp
  split
  · rename_i held
    exact replaceForget held rfl
  rfl

theorem restampsForget (keys : List String) (acc : Items UInt64 α × UInt64) :
    (keys.foldl restamp acc).1.entries.map forget = acc.1.entries.map forget := by
  induction keys generalizing acc with
  | nil => rfl
  | cons _ _ ih => rw [List.foldl_cons,ih,restampForget]

theorem wrappingPreserves : Preserves wrapping := by
  intro α items last
  show (nextAccessOrderLocked items last).1.entries.map forget = _
  unfold nextAccessOrderLocked
  split
  · exact restampsForget _ (items,0)
  rfl

section

variable {P : String → Entry Unit α → Prop} {counter : Counter ω}
  {c : Cache ω α φ} {key : String}

theorem rowsAlike (eq : other.entries.map forget = items.entries.map forget) (rows : Rows P items) :
    Rows P other := by
  intro row mem
  have inside : forget row ∈ items.entries.map forget := eq ▸ List.mem_map_of_mem mem
  obtain ⟨old,held,data⟩ := List.mem_map.mp inside
  have kept := rows old held
  exact (data ▸ kept : P (forget row).1 (forget row).2)

theorem rowsFewer (fewer : other.entries.Sublist items.entries) (rows : Rows P items) : Rows P other :=
  fun row member => rows row (fewer.mem member)

theorem rowsHeld (rows : Rows P items) (held : items.lookup key = some ent) :
    P key ent.data := rows ⟨key,ent⟩ (AList.mem_lookup_iff.mp held)

theorem rowsStamp (preserves : Preserves counter) (rows : Rows P c.items)
    (fits : ∀ order, P key (ent order).data) : Rows P (c.stamp counter key ent).items := by
  have drawn : Rows P (counter.next c.items c.nextAccessOrder).1 :=
    rowsAlike (preserves α c.items c.nextAccessOrder) rows
  intro row member
  rcases List.mem_cons.mp member with rfl | old
  · exact fits _
  exact drawn row ((List.kerase_sublist _ _).mem old)

variable [LT ω] [DecidableLT ω]

theorem trimFewer (max fuel) (items : Items ω α) :
    (Recency.trim Entry.accessOrder max fuel items).1.entries.Sublist items.entries := by
  induction fuel generalizing items with
  | zero => exact List.Sublist.refl _
  | succ _ ih =>
    unfold Recency.trim
    split
    · split
      · exact (ih _).trans (List.kerase_sublist _ _)
      · exact List.Sublist.refl _
    exact List.Sublist.refl _

theorem evictFewer (cfg : Config φ) (items : Items ω α) (now) :
    (evictLocked cfg items now).1.entries.Sublist items.entries := by
  have swept : (sweep items now).entries.Sublist items.entries := List.filter_sublist
  unfold evictLocked
  split
  · exact swept
  exact (trimFewer _ _ _).trans swept

section
variable (preserves : Preserves counter) (rows : Rows P c.items)
include preserves rows

theorem rowsStore (fits : ∀ order, P key (ent order).data) : Rows P (c.store counter cfg now key ent).1.items :=
  rowsFewer (evictFewer cfg _ now) (rowsStamp preserves rows fits)

theorem rowsSet (fits : ∀ ent, ent.negative = false → P key ent) :
    Rows P (c.set counter cfg asked now key value ttl rand).1.items := by
  unfold Cache.set
  split
  · exact rows
  exact rowsStore preserves rows fun _ => fits _ rfl

theorem changedRows
    (fits : ∀ key (ent : ω → Entry ω α) order, wrote.isSome → Fitting cfg now late ent → P key (ent order).data)
    (changed : Changed counter cfg now late c after wrote used) : Rows P after.items := by
  cases changed with
  | same => exact rows
  | erased => exact rowsFewer (List.kerase_sublist _ _) rows
  | emptied => exact rowsFewer (List.nil_sublist _) rows
  | touched held =>
    have fit := rowsHeld rows held
    exact rowsStamp preserves rows fun _ => fit
  | stored filter key fitting =>
    exact rowsStore (c := { c with filter := filter }) preserves rows fun order => fits key _ order rfl fitting

theorem quietRows (changed : Changed counter cfg now late c after none used) : Rows P after.items :=
  changedRows preserves rows (by simp) changed
end
end
end Gofly.CacheStore
