import Gofly.Recency
import Gofly.Transition
/-! The in-process cache: entries with a deadline and a stale deadline, negative entries, the
bloom filter in front of the loader, and recency stamps drawn from a counter. -/
namespace Gofly.CacheStore

variable {ω α φ : Type}

structure Entry (ω α : Type) where
  value : α
  expiresAt : Int
  staleUntil : Int
  accessOrder : ω
  negative : Bool
  deriving DecidableEq

def Entry.fresh (e : Entry ω α) (now : Int) : Bool := e.expiresAt == 0 || decide (now < e.expiresAt)
def Entry.stale (e : Entry ω α) (now : Int) : Bool :=
  e.staleUntil != 0 && decide (now < e.staleUntil)

def Entry.expired (e : Entry ω α) (now : Int) : Bool := !e.fresh now && !e.stale now
abbrev Items (ω α : Type) := AList fun _ : String => Entry ω α

/-- A filter that never denies a string that was added to it. -/
structure BloomFilter (φ : Type) where
  containsString : φ → String → Bool
  addString : φ → String → φ
  added : ∀ f key, containsString (addString f key) key = true
  kept : ∀ f key other, containsString f other = true → containsString (addString f key) other = true

/-- The float product int64(float64(ttl) * fraction), for a fraction between 0 and 1. -/
structure Jitter where
  maxJitter : Int → Int
  below : ∀ ttl, 0 < ttl → maxJitter ttl < ttl

structure Config (φ : Type) where
  defaultTTL : Int
  staleWhileRevalidate : Int
  maxEntries : Int64
  ttlJitter : Option Jitter
  negativeTTL : Int
  bloom : Option (BloomFilter φ)
  loader : Bool
  disabled : Bool
  lasting : 0 < defaultTTL
  tolerant : 0 ≤ staleWhileRevalidate

inductive Setting (φ : Type) where
  | withDefaultTTL (ttl : Int)
  | withStaleWhileRevalidate (ttl : Int)
  | withMaxEntries (max : Int64)
  | withLoader (loader : Bool)
  | withDisabled (disabled : Bool)
  | withTTLJitter (fraction : Option Jitter)
  | withNegativeCache (ttl : Int)
  | withBloomFilter (filter : Option (BloomFilter φ))

def Setting.apply (c : Config φ) : Setting φ → Config φ
  | .withDefaultTTL ttl => if lasting : 0 < ttl then { c with defaultTTL := ttl,lasting } else c
  | .withStaleWhileRevalidate ttl =>
    if tolerant : 0 ≤ ttl then { c with staleWhileRevalidate := ttl,tolerant } else c
  | .withMaxEntries max => if 0 < max then { c with maxEntries := max } else c
  | .withLoader loader => { c with loader := loader }
  | .withDisabled disabled => { c with disabled := disabled }
  | .withTTLJitter fraction => { c with ttlJitter := fraction }
  | .withNegativeCache ttl => if 0 < ttl then { c with negativeTTL := ttl } else c
  | .withBloomFilter filter => { c with bloom := filter }

def Config.admits (cfg : Config φ) (filter : φ) (key : String) : Bool :=
  cfg.bloom.all fun bloom => bloom.containsString filter key

def Config.adds (cfg : Config φ) (filter : φ) (key : String) : φ :=
  cfg.bloom.elim filter fun bloom => bloom.addString filter key

def minute : Int := 60 * 1000000000

def new (disabledByEnv : Bool) (opts : List (Setting φ)) : Config φ :=
  opts.foldl Setting.apply
    { defaultTTL := minute,staleWhileRevalidate := 0,maxEntries := 0,ttlJitter := none
      negativeTTL := 0,bloom := none,loader := false,disabled := disabledByEnv
      lasting := by decide,tolerant := by decide }

structure Counter (ω : Type) where
  zero : ω
  next : {α : Type} → Items ω α → ω → Items ω α × ω

def restamp (acc : Items UInt64 α × UInt64) (key : String) : Items UInt64 α × UInt64 :=
  match acc.1.lookup key with
  | some ent => (acc.1.replace key { ent with accessOrder := acc.2 + 1 },acc.2 + 1)
  | none => (acc.1,acc.2 + 1)

def rebase (items : Items UInt64 α) : Items UInt64 α × UInt64 :=
  let sorted := items.entries.insertionSort fun a b => a.2.accessOrder ≤ b.2.accessOrder
  (sorted.map Sigma.fst).foldl restamp (items,0)

def nextAccessOrderLocked (items : Items UInt64 α) (last : UInt64) : Items UInt64 α × UInt64 :=
  if last = 18446744073709551615 then
    let rebased := rebase items
    (rebased.1,rebased.2 + 1)
  else (items,last + 1)

def wrapping : Counter UInt64 := ⟨0,nextAccessOrderLocked⟩

/-- Not in the code: the counter that never runs out, for comparison. -/
def unbounded : Counter Nat := ⟨0,fun items last => (items,last + 1)⟩

/-- The cache under its lock. -/
structure Cache (ω α φ : Type) where
  items : Items ω α
  nextAccessOrder : ω
  filter : φ

def Cache.stamp (c : Cache ω α φ) (counter : Counter ω) (key : String) (ent : ω → Entry ω α) :
    Cache ω α φ :=
  let drawn := counter.next c.items c.nextAccessOrder
  { c with
    items := drawn.1.insert key (ent drawn.2)
    nextAccessOrder := drawn.2 }

def Cache.touch (c : Cache ω α φ) (counter : Counter ω) (key : String) (ent : Entry ω α) :
    Cache ω α φ := c.stamp counter key fun order => { ent with accessOrder := order }

section
variable [LT ω] [DecidableLT ω]

def sweep (items : Items ω α) (now : Int) : Items ω α where
  entries := items.entries.filter fun ent => !ent.2.expired now
  nodupKeys := items.nodupKeys.sublist List.filter_sublist

structure Evicted where
  expired : List String
  oldest : List String
  deriving DecidableEq

def evictLocked (cfg : Config φ) (items : Items ω α) (now : Int) : Items ω α × Evicted :=
  let expired := (items.entries.filter fun ent => ent.2.expired now).map Sigma.fst
  let items := sweep items now
  if cfg.maxEntries ≤ 0 then (items,⟨expired,[]⟩)
  else
    let rest := Recency.trim Entry.accessOrder cfg.maxEntries.toInt.toNat items.entries.length items
    (rest.1,⟨expired,rest.2⟩)

def Cache.store (c : Cache ω α φ) (counter : Counter ω) (cfg : Config φ) (now : Int) (key : String)
    (ent : ω → Entry ω α) : Cache ω α φ × Option Evicted :=
  let written := c.stamp counter key ent
  let evicted := evictLocked cfg written.items now
  ({ written with items := evicted.1 },some evicted.2)

def jitterTTL (cfg : Config φ) (ttl : Int) (rand : Nat) : Int :=
  match cfg.ttlJitter with
  | none => ttl
  | some jitter =>
    if ttl ≤ 0 then ttl
    else
      let maxJitter := jitter.maxJitter ttl
      if maxJitter ≤ 0 then ttl else ttl - (rand : Int) % (maxJitter + 1)

def expireAfter (cfg : Config φ) : Option Int → Int
  | some ttl => if 0 < ttl then ttl else cfg.defaultTTL
  | none => cfg.defaultTTL

def deadlines (cfg : Config φ) (ttl : Option Int) (rand : Nat) (now : Int) : Int × Int :=
  let expiresAt := now + jitterTTL cfg (expireAfter cfg ttl) rand
  (expiresAt,expiresAt + cfg.staleWhileRevalidate)

def Cache.set (c : Cache ω α φ) (counter : Counter ω) (cfg : Config φ) (asked now : Int)
    (key : String) (value : α) (ttl : Option Int) (rand : Nat) : Cache ω α φ × Option Evicted :=
  if cfg.disabled ∨ key = "" then (c,none)
  else
    let deadline := deadlines cfg ttl rand asked
    c.store counter cfg now key fun order => ⟨value,deadline.1,deadline.2,order,false⟩

def Cache.get (c : Cache ω α φ) (counter : Counter ω) (cfg : Config φ) (now : Int) (key : String) :
    Cache ω α φ × Option α :=
  if key = "" ∨ cfg.disabled then (c,none)
  else
    match c.items.lookup key with
    | none => (c,none)
    | some ent =>
      if ent.expired now then ({ c with items := c.items.erase key },none)
      else (c.touch counter key ent,some ent.value)

inductive Looked (α : Type) where
  | miss
  | negative
  | fresh (value : α)
  | stale (value : α)
  deriving DecidableEq

def Cache.lookup (c : Cache ω α φ) (counter : Counter ω) (key : String) (now : Int) :
    Cache ω α φ × Looked α :=
  match c.items.lookup key with
  | none => (c,.miss)
  | some ent =>
    if ent.fresh now then
      (c.touch counter key ent,if ent.negative then .negative else .fresh ent.value)
    else if ent.stale now then
      (c.touch counter key ent,if ent.negative then .negative else .stale ent.value)
    else ({ c with items := c.items.erase key },.miss)

inductive Answer (α : Type) where
  | emptyKey
  | loaderNil
  | direct
  | negative
  | rejected
  | value (v : α)
  | staleValue (v : α)
  | load
  deriving DecidableEq

def Cache.getOrLoad (c : Cache ω α φ) (counter : Counter ω) (cfg : Config φ) (now : Int)
    (key : String) (loader : Bool) : Cache ω α φ × Answer α :=
  let loader := loader || cfg.loader
  if key = "" then (c,.emptyKey)
  else if cfg.disabled then (c,if loader then .direct else .loaderNil)
  else
    match c.lookup counter key now with
    | (c,.negative) => (c,.negative)
    | (c,.fresh v) => (c,.value v)
    | (c,.stale v) => (c,.staleValue v)
    | (c,.miss) =>
      if cfg.admits c.filter key then (c,if loader then .load else .loaderNil) else (c,.rejected)

def Answer.hit : Answer α → Bool
  | .negative | .value _ | .staleValue _ => true
  | _ => false

inductive Loaded (α : Type) where
  | value (v : α)
  | failed (notFound : Bool)
  deriving DecidableEq

def Cache.loaded [Inhabited α] (c : Cache ω α φ) (counter : Counter ω) (cfg : Config φ) (now : Int)
    (key : String) (rand : Nat) : Loaded α → Cache ω α φ × Option Evicted
  | .failed notFound =>
    if 0 < cfg.negativeTTL ∧ notFound then
      let expiresAt := now + jitterTTL cfg cfg.negativeTTL rand
      c.store counter cfg now key fun order => ⟨default,expiresAt,expiresAt,order,true⟩
    else (c,none)
  | .value v =>
    let expiresAt := now + jitterTTL cfg cfg.defaultTTL rand
    ({ c with filter := cfg.adds c.filter key } : Cache ω α φ).store counter cfg now key fun order =>
      ⟨v,expiresAt,expiresAt + cfg.staleWhileRevalidate,order,false⟩

def Cache.refreshed (c : Cache ω α φ) (counter : Counter ω) (cfg : Config φ) (now : Int)
    (key : String) (rand : Nat) : Loaded α → Cache ω α φ × Option Evicted
  | .failed _ => (c,none)
  | .value v =>
    let expiresAt := now + jitterTTL cfg cfg.defaultTTL rand
    c.store counter cfg now key fun order =>
      ⟨v,expiresAt,expiresAt + cfg.staleWhileRevalidate,order,false⟩

def Cache.delete (c : Cache ω α φ) (key : String) : Cache ω α φ :=
  if key = "" then c else { c with items := c.items.erase key }
def Cache.clear (c : Cache ω α φ) : Cache ω α φ := { c with items := ∅ }

structure Flight where
  key : String
  refresh : Bool
  stored : Bool
  deriving DecidableEq

/-- The cache, its clock and the loads under way. known, written and touched are no part of the
code: touched lists the keys as they were written or answered, the last one first. -/
structure World (ω α φ : Type) where
  now : Int
  cache : Cache ω α φ
  flights : List Flight
  known : List String
  written : Option (String × Evicted)
  touched : List String

-- Set reads the clock for its deadline and, the gap later, for the eviction
inductive Act (α : Type) where
  | set (key : String) (value : α) (ttl : Option Int) (rand gap : Nat)
  | get (key : String)
  | getOrLoad (key : String) (loader : Bool)
  | loaded (i : Nat) (result : Loaded α) (rand : Nat)
  | landed (i : Nat)
  | delete (key : String)
  | clear
  | tick (d : Nat)
  | addString (key : String)

def start (counter : Counter ω) (filter : φ) (now : Int) : World ω α φ :=
  ⟨now,⟨∅,counter.zero,filter⟩,[],[],none,[]⟩

def World.quiet (w : World ω α φ) (cache : Cache ω α φ) (used : Option String) : World ω α φ :=
  { w with cache := cache,written := none,touched := used.toList ++ w.touched }

def World.wrote (w : World ω α φ) (key : String) (result : Cache ω α φ × Option Evicted) :
    World ω α φ :=
  { w with
    cache := result.1
    written := result.2.map (key,·)
    touched := (result.2.map fun _ => key).toList ++ w.touched }

def lead (flights : List Flight) (key : String) (refresh : Bool) : List Flight :=
  if flights.any (·.key == key) then flights else flights ++ [⟨key,refresh,false⟩]

def World.ask (w : World ω α φ) (counter : Counter ω) (cfg : Config φ) (key : String)
    (loader : Bool) : World ω α φ :=
  let asked := w.cache.getOrLoad counter cfg w.now key loader
  let flights :=
    match asked.2 with
    | .load => lead w.flights key false
    | .staleValue _ => if loader || cfg.loader then lead w.flights key true else w.flights
    | _ => w.flights
  { w.quiet asked.1 (if asked.2.hit then some key else none) with flights := flights }

def World.land [Inhabited α] (w : World ω α φ) (counter : Counter ω) (cfg : Config φ) (i : Nat)
    (flight : Flight) (rand : Nat) (result : Loaded α) : World ω α φ :=
  let stored :=
    if flight.refresh then w.cache.refreshed counter cfg w.now flight.key rand result
    else w.cache.loaded counter cfg w.now flight.key rand result
  let known :=
    match result with
    | .value _ => flight.key :: w.known
    | .failed _ => w.known
  { w.wrote flight.key stored with
    flights := w.flights.set i { flight with stored := true }
    known := known }

def step [Inhabited α] (counter : Counter ω) (cfg : Config φ) (w : World ω α φ) :
    Act α → Option (World ω α φ)
  | .set key value ttl rand gap =>
    let wrote := w.wrote key (w.cache.set counter cfg (w.now - gap) w.now key value ttl rand)
    some { wrote with known := if wrote.written.isSome then key :: w.known else w.known }
  | .get key =>
    let got := w.cache.get counter cfg w.now key
    some (w.quiet got.1 (got.2.map fun _ => key))
  | .getOrLoad key loader => some (w.ask counter cfg key loader)
  | .loaded i result rand =>
    match w.flights[i]? with
    | some flight => if flight.stored then none else some (w.land counter cfg i flight rand result)
    | none => none
  | .landed i =>
    match w.flights[i]? with
    | some flight =>
      if flight.stored then some { w.quiet w.cache none with flights := w.flights.eraseIdx i } else none
    | none => none
  | .delete key => some { w.quiet (w.cache.delete key) none with known := w.known.filter (· ≠ key) }
  | .clear => some { w.quiet w.cache.clear none with known := [] }
  | .tick d => some { w.quiet w.cache none with now := w.now + d }
  | .addString key =>
    some (w.quiet { w.cache with filter := cfg.adds w.cache.filter key } none)
end

variable {ω α φ : Type} [LT ω] [DecidableLT ω]

structure Fitting (cfg : Config φ) (now : Int) (late : Prop) (ent : ω → Entry ω α) : Prop where
  own : ∀ order, (ent order).accessOrder = order
  lives : ∀ order, (ent order).expired now = true → late
  data : ∀ first second : ω, { ent first with accessOrder := second } = ent second
  negative : ∀ order, (ent order).negative = true → 0 < cfg.negativeTTL

/-- The last index is the key that the step answers from the entries or writes. -/
inductive Changed (counter : Counter ω) (cfg : Config φ) (now : Int) (late : Prop) (c : Cache ω α φ) :
    Cache ω α φ → Option (String × Evicted) → Option String → Prop where
  | same (filter : φ) : Changed counter cfg now late c { c with filter := filter } none none
  | erased (key : String) : Changed counter cfg now late c { c with items := c.items.erase key } none none
  | emptied : Changed counter cfg now late c { c with items := ∅ } none none
  | touched {key : String} {ent : Entry ω α} (held : c.items.lookup key = some ent) :
      Changed counter cfg now late c (c.touch counter key ent) none (some key)
  | stored (filter : φ) (key : String) {ent : ω → Entry ω α} (fitting : Fitting cfg now late ent) :
      Changed counter cfg now late c
        (({ c with filter := filter } : Cache ω α φ).store counter cfg now key ent).1
        ((({ c with filter := filter } : Cache ω α φ).store counter cfg now key ent).2.map (key,·)) (some key)

variable {c : Cache ω α φ}
theorem unchanged : Changed counter cfg now late c c none none := .same c.filter

theorem jitterLater (cfg : Config φ) (now rand) (pos : 0 < ttl) : now < now + jitterTTL cfg ttl rand := by
  unfold jitterTTL
  split
  · omega
  rename_i jitter _
  rw [if_neg (by omega)]
  simp only
  split
  · omega
  have below := jitter.below ttl pos
  have cut := Int.emod_lt_of_pos (rand : Int) (show 0 < jitter.maxJitter ttl + 1 by omega)
  omega

omit [LT ω] [DecidableLT ω] in
theorem newFitting {value : α} {expiresAt staleUntil : Int} (past : expiresAt ≤ now → late)
    (marked : negative = true → 0 < cfg.negativeTTL) :
    Fitting cfg now late fun order : ω => ⟨value,expiresAt,staleUntil,order,negative⟩ := by
  refine ⟨fun _ => rfl,fun _ gone => past ?_,fun _ _ => rfl,fun _ => marked⟩
  simp only [Entry.expired,Entry.fresh,Bool.and_eq_true,Bool.not_eq_true',Bool.or_eq_false_iff,decide_eq_false_iff_not] at gone
  omega

theorem setChanged (key value ttl rand) :
    Changed counter cfg now ((deadlines cfg ttl rand asked).1 ≤ now) c (c.set counter cfg asked now key value ttl rand).1
      ((c.set counter cfg asked now key value ttl rand).2.map (key,·))
      ((c.set counter cfg asked now key value ttl rand).2.map fun _ => key) := by
  unfold Cache.set
  split
  · exact unchanged
  exact .stored c.filter key (newFitting id nofun)

theorem loadedChanged [Inhabited α] (key rand result) :
    Changed counter cfg now late c (c.loaded counter cfg now key rand result).1
      ((c.loaded counter cfg now key rand result).2.map (key,·))
      ((c.loaded counter cfg now key rand result).2.map fun _ => key) := by
  cases result with
  | failed =>
    simp only [Cache.loaded]
    split
    · rename_i wanted
      have later := jitterLater cfg now rand wanted.1
      exact .stored c.filter key (newFitting (fun past => absurd later (Int.not_lt.mpr past)) fun _ => wanted.1)
    exact unchanged
  | value =>
    have later := jitterLater cfg now rand cfg.lasting
    exact .stored _ key (newFitting (fun past => absurd later (Int.not_lt.mpr past)) nofun)

theorem refreshedChanged (key rand result) :
    Changed counter cfg now late c (c.refreshed counter cfg now key rand result).1
      ((c.refreshed counter cfg now key rand result).2.map (key,·))
      ((c.refreshed counter cfg now key rand result).2.map fun _ => key) := by
  cases result with
  | failed => exact unchanged
  | value =>
    have later := jitterLater cfg now rand cfg.lasting
    exact .stored c.filter key (newFitting (fun past => absurd later (Int.not_lt.mpr past)) nofun)

theorem getChanged (key) : Changed counter cfg now late c (c.get counter cfg now key).1 none
      ((c.get counter cfg now key).2.map fun _ => key) := by
  unfold Cache.get
  split
  · exact unchanged
  split
  · exact unchanged
  rename_i held
  split
  · exact .erased key
  exact .touched held

def Looked.hit : Looked α → Bool
  | .miss => false
  | _ => true

theorem lookupChanged (key) : Changed counter cfg now late c (c.lookup counter key now).1 none
      (if (c.lookup counter key now).2.hit then some key else none) := by
  unfold Cache.lookup
  split
  · exact unchanged
  rename_i ent held
  split
  · cases ent.negative <;> exact .touched held
  split
  · cases ent.negative <;> exact .touched held
  exact .erased key

theorem getOrLoadChanged (key loader) : Changed counter cfg now late c (c.getOrLoad counter cfg now key loader).1 none
      (if (c.getOrLoad counter cfg now key loader).2.hit then some key else none) := by
  unfold Cache.getOrLoad
  split
  · exact unchanged
  split
  · cases (loader || cfg.loader) <;> exact unchanged
  have looked : Changed counter cfg now late c (c.lookup counter key now).1 none _ := lookupChanged key
  split <;> rename_i got <;> rw [got] at looked <;> try exact looked
  split
  · cases (loader || cfg.loader) <;> exact looked
  exact looked

/-- Set is late if its own TTL has run out when it evicts. -/
def Late (cfg : Config φ) (now : Int) : Act α → Prop
  | .set _ _ ttl rand gap => (deadlines cfg ttl rand (now - gap)).1 ≤ now
  | _ => False

theorem stepChanged [Inhabited α] {w : World ω α φ} (ran : step counter cfg w a = some next) :
    ∃ used, Changed counter cfg w.now (Late cfg w.now a) w.cache next.cache next.written used ∧
      next.touched = used.toList ++ w.touched := by
  cases a with
  | set key value ttl rand => cases ran; exact ⟨_,setChanged key value ttl rand,rfl⟩
  | get key => cases ran; exact ⟨_,getChanged key,rfl⟩
  | getOrLoad key loader => cases ran; exact ⟨_,getOrLoadChanged key loader,rfl⟩
  | loaded i result rand =>
    simp only [step] at ran
    split at ran <;> try contradiction
    rename_i flight got
    split at ran <;> cases ran
    unfold World.land
    cases flight.refresh with
    | true => exact ⟨_,refreshedChanged flight.key rand result,rfl⟩
    | false => exact ⟨_,loadedChanged flight.key rand result,rfl⟩
  | landed =>
    simp only [step] at ran
    split at ran <;> try contradiction
    split at ran <;> cases ran
    exact ⟨none,unchanged,rfl⟩
  | delete key =>
    cases ran
    refine ⟨none,?_,rfl⟩
    unfold Cache.delete
    split
    · exact unchanged
    exact .erased key
  | clear => cases ran; exact ⟨none,.emptied,rfl⟩
  | tick => cases ran; exact ⟨none,unchanged,rfl⟩
  | addString => cases ran; exact ⟨none,.same _,rfl⟩
end Gofly.CacheStore
