import Gofly.CacheRecency
/-! Two caches with different lawful counters that go through the same operations: they hold the
same entries, answer the same and evict the same keys. -/
namespace Gofly.CacheStore
open Transition

variable {ω ω' α φ : Type}

theorem forgetFilter (p : Entry Unit α → Bool) (rows : List ((_ : String) × Entry ω α)) :
    (rows.filter fun row => p row.2.data).map forget = (rows.map forget).filter fun row => p row.2 := by
  rw [List.filter_map]
  rfl

structure Twins (c : Cache ω α φ) (d : Cache ω' α φ) : Prop where
  same : c.items.entries.map forget = d.items.entries.map forget
  filter : c.filter = d.filter

def Agree {β : Type} (x : Cache ω α φ × β) (y : Cache ω' α φ × β) : Prop :=
  Twins x.1 y.1 ∧ x.2 = y.2

theorem heldTwins (twins : Twins c d) (key) : (c.items.lookup key = none ∧ d.items.lookup key = none) ∨
      ∃ ent ent', c.items.lookup key = some ent ∧ d.items.lookup key = some ent' ∧ ent.data = ent'.data := by
  have eq := alikeLookup twins.same key
  cases held : c.items.lookup key with
  | none =>
    rw [held] at eq
    exact .inl ⟨rfl,Option.map_eq_none_iff.mp eq.symm⟩
  | some ent =>
    rw [held] at eq
    obtain ⟨ent',held',data⟩ := Option.map_eq_some_iff.mp eq.symm
    exact .inr ⟨ent,ent',rfl,held',data.symm⟩

theorem eraseTwins (twins : Twins c d) (key) :
    Twins { c with items := c.items.erase key } { d with items := d.items.erase key } := by
  refine { twins with same := ?_ }
  show (List.kerase key _).map forget = (List.kerase key _).map forget
  rw [forgetErase,forgetErase,twins.same]

section

variable [LT ω] [LT ω']
  {d : Cache ω' α φ} {key : String} {ent : ω → Entry ω α} {ent' : ω' → Entry ω' α}

theorem stampTwins (twins : Twins c d) (drew : Drawn c.items (counter.next c.items c.nextAccessOrder).1
      (counter.next c.items c.nextAccessOrder).2) (drew' : Drawn d.items (counter'.next d.items d.nextAccessOrder).1
      (counter'.next d.items d.nextAccessOrder).2) (data : ∀ order order', (ent order).data = (ent' order').data) :
    Twins (c.stamp counter key ent) (d.stamp counter' key ent') := by
  refine ⟨?_,twins.filter⟩
  show forget ⟨key,ent _⟩ :: (List.kerase key _).map forget = forget ⟨key,ent' _⟩ :: (List.kerase key _).map forget
  rw [forgetErase,forgetErase,drew.same,drew'.same,twins.same]
  simp only [forget,data _ (counter'.next d.items d.nextAccessOrder).2]
end
section
variable [LT ω] [LT ω'] [DecidableLT ω] [DecidableLT ω'] {cfg : Config φ} (now : Int)

theorem evictTwins {items : Items ω α} {other : Items ω' α} (eq : items.entries.map forget = other.entries.map forget)
    (desc : Recency.Descending Entry.accessOrder items.entries)
    (descending' : Recency.Descending Entry.accessOrder other.entries) (capped : 0 < cfg.maxEntries) :
    (evictLocked cfg items now).1.entries.map forget = (evictLocked cfg other now).1.entries.map forget ∧
      (evictLocked cfg items now).2 = (evictLocked cfg other now).2 := by
  obtain ⟨left,gone,dead⟩ := evictExact now desc capped
  obtain ⟨left',gone',dead'⟩ := evictExact now descending' capped
  have swept : (sweep items now).entries.map forget = (sweep other now).entries.map forget := by
    have first := forgetFilter (fun ent => !ent.expired now) items.entries
    have second := forgetFilter (fun ent => !ent.expired now) other.entries
    rw [eq] at first
    exact first.trans second.symm
  have late : (items.entries.filter fun row => row.2.expired now).keys =
      (other.entries.filter fun row => row.2.expired now).keys := by
    have first := forgetFilter (fun ent => ent.expired now) items.entries
    have second := forgetFilter (fun ent => ent.expired now) other.entries
    rw [eq] at first
    have keys := congrArg List.keys (first.trans second.symm)
    rwa [forgetKeys,forgetKeys] at keys
  constructor
  · rw [left,left',List.map_take,List.map_take,swept]
  have oldest : (evictLocked cfg items now).2.oldest = (evictLocked cfg other now).2.oldest := by
    have drop := congrArg (fun rows => (List.drop cfg.maxEntries.toInt.toNat rows).keys) swept
    simp only [← List.map_drop,forgetKeys] at drop
    rw [gone,gone',drop]
  have expired : (evictLocked cfg items now).2.expired = (evictLocked cfg other now).2.expired := by
    rw [dead,dead',late]
  exact congrArg₂ Evicted.mk expired oldest

structure Paired (cfg : Config φ) (touched : List String) (c : Cache ω α φ) (d : Cache ω' α φ) : Prop where
  twins : Twins c d
  kept : Kept cfg touched c
  kept' : Kept cfg touched d

variable {counter : Counter ω} {counter' : Counter ω'} {c : Cache ω α φ} {d : Cache ω' α φ}
  {ent : ω → Entry ω α} {ent' : ω' → Entry ω' α}

omit [DecidableLT ω] [DecidableLT ω'] in
theorem pairedStamp (lawful : Lawful counter cfg.maxEntries.toInt.toNat)
    (lawful' : Lawful counter' cfg.maxEntries.toInt.toNat) (paired : Paired cfg touched c d) (key : String)
    (data : ∀ order order', (ent order).data = (ent' order').data) :
    Twins (c.stamp counter key ent) (d.stamp counter' key ent') :=
  stampTwins paired.twins (lawful α _ _ paired.kept.recent.stamped paired.kept.fits)
    (lawful' α _ _ paired.kept'.recent.stamped paired.kept'.fits) data

omit [DecidableLT ω] [DecidableLT ω'] in
theorem filterPaired (paired : Paired cfg touched c d) (f : φ → φ) :
    Paired cfg touched { c with filter := f c.filter } { d with filter := f d.filter } where
  twins := ⟨paired.twins.same,congrArg f paired.twins.filter⟩
  kept := ⟨⟨paired.kept.recent.stamped,paired.kept.recent.aged⟩,paired.kept.fits⟩
  kept' := ⟨⟨paired.kept'.recent.stamped,paired.kept'.recent.aged⟩,paired.kept'.fits⟩

theorem storeTwins (lawful : Lawful counter cfg.maxEntries.toInt.toNat)
    (lawful' : Lawful counter' cfg.maxEntries.toInt.toNat) (capped : 0 < cfg.maxEntries)
    (paired : Paired cfg touched c d) (key) (own : ∀ order, (ent order).accessOrder = order)
    (own' : ∀ order, (ent' order).accessOrder = order)
    (data : ∀ order order', (ent order).data = (ent' order').data) :
    Agree (c.store counter cfg now key ent) (d.store counter' cfg now key ent') := by
  have twins := pairedStamp lawful lawful' paired key data
  have recent : Recent (key :: touched) (c.stamp counter key ent) := stampRecent lawful paired.kept.recent paired.kept.fits own
  have recent' : Recent (key :: touched) (d.stamp counter' key ent') := stampRecent lawful' paired.kept'.recent paired.kept'.fits own'
  obtain ⟨same,evicted⟩ := evictTwins now twins.same recent.stamped.descending recent'.stamped.descending capped
  exact ⟨{ twins with same := same },congrArg some evicted⟩

section

variable (lawful : Lawful counter cfg.maxEntries.toInt.toNat)
  (lawful' : Lawful counter' cfg.maxEntries.toInt.toNat) (paired : Paired cfg touched c d) (key : String)
include lawful lawful' paired

omit [DecidableLT ω] [DecidableLT ω'] in
theorem touchTwins {held held'} (data : held.data = held'.data) :
    Twins (c.touch counter key held) (d.touch counter' key held') :=
  pairedStamp lawful lawful' paired key fun _ _ => data

omit [DecidableLT ω] [DecidableLT ω'] in
theorem getTwins : Agree (c.get counter cfg now key) (d.get counter' cfg now key) := by
  unfold Cache.get
  split
  · exact ⟨paired.twins,rfl⟩
  rcases heldTwins paired.twins key with ⟨none,none'⟩ | ⟨held,held',got,found',data⟩
  · rw [none,none']
    exact ⟨paired.twins,rfl⟩
  have expired : held.expired now = held'.expired now := congrArg (Entry.expired · now) data
  have value : held.value = held'.value := congrArg Entry.value data
  simp only [got,found',expired,value]
  split
  · exact ⟨eraseTwins paired.twins key,rfl⟩
  · exact ⟨touchTwins lawful lawful' paired key data,rfl⟩

omit [DecidableLT ω] [DecidableLT ω'] in
theorem lookupTwins : Agree (c.lookup counter key now) (d.lookup counter' key now) := by
  unfold Cache.lookup
  rcases heldTwins paired.twins key with ⟨none,none'⟩ | ⟨held,held',got,found',data⟩
  · rw [none,none']
    exact ⟨paired.twins,rfl⟩
  have fresh : held.fresh now = held'.fresh now := congrArg (Entry.fresh · now) data
  have stale : held.stale now = held'.stale now := congrArg (Entry.stale · now) data
  have value : held.value = held'.value := congrArg Entry.value data
  have negative : held.negative = held'.negative := congrArg Entry.negative data
  have touched := touchTwins lawful lawful' paired key data
  simp only [got,found',fresh,stale,value,negative]
  split
  · exact ⟨touched,rfl⟩
  split
  · exact ⟨touched,rfl⟩
  · exact ⟨eraseTwins paired.twins key,rfl⟩

omit [DecidableLT ω] [DecidableLT ω'] in
theorem getOrLoadTwins (loader : Bool) :
    Agree (c.getOrLoad counter cfg now key loader) (d.getOrLoad counter' cfg now key loader) := by
  unfold Cache.getOrLoad
  split
  · exact ⟨paired.twins,rfl⟩
  split
  · exact ⟨paired.twins,rfl⟩
  have agree := lookupTwins now lawful lawful' paired key
  generalize c.lookup counter key now = looked, d.lookup counter' key now = looked' at agree ⊢
  obtain ⟨after,got⟩ := looked
  obtain ⟨after',found'⟩ := looked'
  obtain ⟨twins,rfl⟩ := agree
  cases got with
  | miss =>
    have filter : after.filter = after'.filter := twins.filter
    simp only [filter]
    split <;> exact ⟨twins,rfl⟩
  | _ => exact ⟨twins,rfl⟩

variable (capped : 0 < cfg.maxEntries)
include capped

theorem setTwins (asked value ttl rand) : Agree (c.set counter cfg asked now key value ttl rand)
      (d.set counter' cfg asked now key value ttl rand) := by
  unfold Cache.set
  split
  · exact ⟨paired.twins,rfl⟩
  exact storeTwins now lawful lawful' capped paired key (fun _ => rfl) (fun _ => rfl) fun _ _ => rfl

theorem loadedTwins [Inhabited α] (rand result) :
    Agree (c.loaded counter cfg now key rand result) (d.loaded counter' cfg now key rand result) := by
  cases result with
  | failed =>
    simp only [Cache.loaded]
    split
    · exact storeTwins now lawful lawful' capped paired key (fun _ => rfl) (fun _ => rfl) fun _ _ => rfl
    exact ⟨paired.twins,rfl⟩
  | value =>
    have added := filterPaired paired (cfg.adds · key)
    exact storeTwins now lawful lawful' capped added key (fun _ => rfl) (fun _ => rfl) fun _ _ => rfl

theorem refreshedTwins (rand result) : Agree (c.refreshed counter cfg now key rand result)
      (d.refreshed counter' cfg now key rand result) := by
  cases result with
  | failed => exact ⟨paired.twins,rfl⟩
  | value => exact storeTwins now lawful lawful' capped paired key (fun _ => rfl) (fun _ => rfl) fun _ _ => rfl
end

structure Alike (w : World ω α φ) (u : World ω' α φ) : Prop where
  now : w.now = u.now
  twins : Twins w.cache u.cache
  flights : w.flights = u.flights
  known : w.known = u.known
  written : w.written = u.written
  touched : w.touched = u.touched

omit [LT ω] [LT ω'] [DecidableLT ω] [DecidableLT ω'] in
theorem wroteAlike {w : World ω α φ} {u : World ω' α φ} (alike : Alike w u) (key : String)
    {x : Cache ω α φ × Option Evicted} {y : Cache ω' α φ × Option Evicted} (agree : Agree x y) :
    Alike (w.wrote key x) (u.wrote key y) :=
  ⟨alike.now,agree.1,alike.flights,alike.known,congrArg (Option.map (key,·)) agree.2,
    by simp only [World.wrote,agree.2,alike.touched]⟩

omit [LT ω] [LT ω'] [DecidableLT ω] [DecidableLT ω'] in
theorem quietAlike {w : World ω α φ} {u : World ω' α φ} (alike : Alike w u) {after : Cache ω α φ}
    {after' : Cache ω' α φ} (twins : Twins after after') (used) : Alike (w.quiet after used) (u.quiet after' used) :=
  ⟨alike.now,twins,alike.flights,alike.known,rfl,congrArg (used.toList ++ ·) alike.touched⟩

section

variable {w : World ω α φ} {u : World ω' α φ}
  (lawful : Lawful counter cfg.maxEntries.toInt.toNat)
  (lawful' : Lawful counter' cfg.maxEntries.toInt.toNat) (alike : Alike w u)
  (kept : Kept cfg w.touched w.cache) (kept' : Kept cfg w.touched u.cache)
include lawful lawful' alike kept kept'

omit [DecidableLT ω] [DecidableLT ω'] in
theorem askAlike (key : String) (loader : Bool) :
    Alike (w.ask counter cfg key loader) (u.ask counter' cfg key loader) := by
  have agree := getOrLoadTwins w.now lawful lawful' ⟨alike.twins,kept,kept'⟩ key loader
  have asked := quietAlike alike agree.1
  unfold World.ask
  rw [← alike.now]
  dsimp only
  rw [agree.2]
  refine { asked _ with flights := ?_ }
  simp only [alike.flights]

theorem landAlike [Inhabited α] (capped : 0 < cfg.maxEntries) (i flight rand result) :
    Alike (w.land counter cfg i flight rand result) (u.land counter' cfg i flight rand result) := by
  have paired : Paired cfg w.touched w.cache u.cache := ⟨alike.twins,kept,kept'⟩
  have agree : Agree (if flight.refresh then w.cache.refreshed counter cfg w.now flight.key rand result
        else w.cache.loaded counter cfg w.now flight.key rand result)
      (if flight.refresh then u.cache.refreshed counter' cfg w.now flight.key rand result
        else u.cache.loaded counter' cfg w.now flight.key rand result) := by
    split
    · exact refreshedTwins w.now lawful lawful' paired flight.key capped rand result
    exact loadedTwins w.now lawful lawful' paired flight.key capped rand result
  have wrote := wroteAlike alike flight.key agree
  unfold World.land
  rw [← alike.now]
  refine { wrote with flights := ?_,known := ?_ }
  · simp only [alike.flights]
  simp only [alike.known]

theorem stepAlike [Inhabited α] (capped : 0 < cfg.maxEntries) (ran : step counter cfg w a = some next) :
    ∃ next', step counter' cfg u a = some next' ∧ Alike next next' := by
  have paired : Paired cfg w.touched w.cache u.cache := ⟨alike.twins,kept,kept'⟩
  cases a with
  | set key value ttl rand gap =>
    cases ran
    have wrote := wroteAlike alike key (setTwins w.now lawful lawful' paired key capped (w.now - gap) value ttl rand)
    refine ⟨_,rfl,?_⟩
    rw [← alike.now]
    refine { wrote with known := ?_ }
    simp only [alike.known,wrote.written]
  | get key =>
    cases ran
    refine ⟨_,rfl,?_⟩
    have agree := getTwins w.now lawful lawful' paired key
    rw [← alike.now,agree.2]
    exact quietAlike alike agree.1 _
  | getOrLoad key loader =>
    cases ran
    exact ⟨_,rfl,askAlike lawful lawful' alike kept kept' key loader⟩
  | loaded i result rand =>
    simp only [step,← alike.flights] at ran ⊢
    split at ran <;> try contradiction
    rename_i flight got
    split at ran <;> cases ran
    rename_i waiting
    rw [if_neg waiting]
    exact ⟨_,rfl,landAlike lawful lawful' alike kept kept' capped i flight rand result⟩
  | landed =>
    simp only [step,← alike.flights] at ran ⊢
    split at ran <;> try contradiction
    split at ran <;> cases ran
    rename_i stored
    rw [if_pos stored]
    exact ⟨_,rfl,alike.now,alike.twins,rfl,alike.known,rfl,alike.touched⟩
  | delete key =>
    cases ran
    have twins : Twins (w.cache.delete key) (u.cache.delete key) := by
      unfold Cache.delete
      split
      · exact alike.twins
      exact eraseTwins alike.twins key
    exact ⟨_,rfl,alike.now,twins,alike.flights,congrArg (List.filter (· ≠ key)) alike.known,rfl,
      alike.touched⟩
  | clear =>
    cases ran
    exact ⟨_,rfl,alike.now,⟨rfl,alike.twins.filter⟩,alike.flights,rfl,rfl,alike.touched⟩
  | tick d =>
    cases ran
    exact ⟨_,rfl,congrArg (· + (d : Int)) alike.now,alike.twins,alike.flights,alike.known,rfl,alike.touched⟩
  | addString key =>
    cases ran
    have added := filterPaired paired (cfg.adds · key)
    exact ⟨_,rfl,quietAlike alike added.twins none⟩
end

theorem stepKept [Inhabited α] {w : World ω α φ}
    (lawful : Lawful counter cfg.maxEntries.toInt.toNat) (capped : 0 < cfg.maxEntries)
    (kept : Kept cfg w.touched w.cache) (ran : step counter cfg w a = some next) :
    Kept cfg next.touched next.cache ∧ ∀ key evicted, next.written = some (key,evicted) →
      Exact w.now next.touched (Late cfg w.now a) w.cache next.cache key evicted := by
  obtain ⟨used,changed,touched⟩ := stepChanged ran
  rw [touched]
  exact changedKept lawful capped kept changed

theorem runAlike [Inhabited α] {w : World ω α φ} (lawful : Lawful counter cfg.maxEntries.toInt.toNat)
    (lawful' : Lawful counter' cfg.maxEntries.toInt.toNat) (capped : 0 < cfg.maxEntries)
    (h : Trace (step counter cfg) Free w as next) (alike : Alike w u) (kept : Kept cfg w.touched w.cache)
    (kept' : Kept cfg w.touched u.cache) : ∃ u', run (step counter' cfg) u as = some u' ∧ Alike next u' := by
  induction h generalizing u with
  | done => exact ⟨u,rfl,alike⟩
  | more _ moved _ ih =>
    obtain ⟨after,moved',alike'⟩ := stepAlike lawful lawful' alike kept kept' capped moved
    have later := (stepKept lawful' capped (alike.touched ▸ kept') moved').1
    obtain ⟨last,ran,matched⟩ := ih alike' (stepKept lawful capped kept moved).1 (alike'.touched ▸ later)
    exact ⟨last,by simp only [run,moved',Option.bind_some,ran],matched⟩
end

theorem startKept [LT ω] (counter cfg filter now) : Kept cfg [] (start counter filter now : World ω α φ).cache where
  recent := ⟨⟨List.Pairwise.nil,by simp [start]⟩,List.Pairwise.nil⟩
  fits := Nat.zero_le _

theorem wrappingFits (cfg : Config φ) : Lawful wrapping cfg.maxEntries.toInt.toNat :=
  wrappingLawful (by have := cfg.maxEntries.toInt_lt; omega)

def pairOnly : Config Unit := new false [.withMaxEntries 2]
def touches : List (Act Nat) := [.set "a" 1 none 0 0,.set "b" 2 none 0 0,.get "a"]

end Gofly.CacheStore
