import Gofly.CacheRecency
/-! The bloom filter in front of the loader, and cached not-found results: Get, unlike GetOrLoad,
does not look at their mark. -/
namespace Gofly.CacheStore
open Transition

variable {ω α φ : Type}

theorem addsAdmits (cfg : Config φ) (filter key) : cfg.admits (cfg.adds filter key) key = true := by
  unfold Config.admits Config.adds
  cases cfg.bloom with
  | none => rfl
  | some bloom => exact bloom.added filter key

theorem addsKeeps {cfg : Config φ} (key)
    (admitted : cfg.admits filter other = true) : cfg.admits (cfg.adds filter key) other = true := by
  unfold Config.admits Config.adds at *
  cases got : cfg.bloom with
  | none => rfl
  | some bloom =>
    rw [got] at admitted
    exact bloom.kept filter key other admitted

theorem leadMember (mem : flight ∈ lead flights key refresh) : flight ∈ flights ∨ flight = ⟨key,refresh,false⟩ := by
  unfold lead at mem
  split at mem
  · exact .inl mem
  simpa using mem

theorem landedFlights {flights : List Flight} (got : flights[i]? = some flight)
    (mem : other ∈ flights.set i { flight with stored := true }) :
    ∃ old ∈ flights, old.key = other.key ∧ old.refresh = other.refresh := by
  rcases List.mem_or_eq_of_mem_set mem with inside | rfl
  · exact ⟨other,inside,rfl,rfl⟩
  exact ⟨flight,List.mem_of_getElem? got,rfl,rfl⟩

section

variable {now : Int} {c : Cache ω α φ}
  {loader : Bool}

theorem getFilter : (c.get counter cfg now key).1.filter = c.filter := by
  unfold Cache.get
  split
  · rfl
  split
  · rfl
  split <;> rfl

theorem lookupFilter : (c.lookup counter key now).1.filter = c.filter := by
  unfold Cache.lookup
  split
  · rfl
  split
  · rfl
  split <;> rfl

theorem getOrLoadFilter : (c.getOrLoad counter cfg now key loader).1.filter = c.filter := by
  unfold Cache.getOrLoad
  split
  · rfl
  split
  · rfl
  have looked : (c.lookup counter key now).1.filter = c.filter := lookupFilter
  split <;> rename_i got <;> rw [got] at looked <;> try exact looked
  split <;> exact looked

theorem lookedStale (looked : c.lookup counter key now = (after,.stale v)) :
    ∃ ent, c.items.lookup key = some ent ∧ ent.negative = false := by
  unfold Cache.lookup at looked
  split at looked
  · simp at looked
  rename_i ent held
  refine ⟨ent,held,?_⟩
  split at looked
  · cases negative : ent.negative <;> simp [negative] at looked
  split at looked
  · cases negative : ent.negative with
    | false => rfl
    | true => simp [negative] at looked
  simp at looked

theorem staleHeld (told : (c.getOrLoad counter cfg now key loader).2 = .staleValue v) :
    ∃ ent, c.items.lookup key = some ent ∧ ent.negative = false := by
  unfold Cache.getOrLoad at told
  simp only at told
  split at told
  · contradiction
  split at told
  · split at told <;> contradiction
  split at told <;> try contradiction
  · exact lookedStale (by assumption)
  split at told
  · split at told <;> contradiction
  contradiction

theorem rejectedUnknown (told : (c.getOrLoad counter cfg now key loader).2 = .rejected) :
    cfg.admits c.filter key = false := by
  unfold Cache.getOrLoad at told
  simp only at told
  split at told
  · contradiction
  split at told
  · split at told <;> contradiction
  have looked : (c.lookup counter key now).1.filter = c.filter := lookupFilter
  split at told <;> try contradiction
  rename_i got
  simp only [got] at looked
  split at told
  · split at told <;> contradiction
  rename_i denied
  simpa only [Config.admits,looked,Bool.not_eq_true] using denied
end

structure Covered (cfg : Config φ) (w : World ω α φ) : Prop where
  known : ∀ key ∈ w.known, cfg.admits w.cache.filter key = true
  rows : Rows (fun key ent => ent.negative = false → cfg.admits w.cache.filter key = true) w.cache.items
  refreshing : ∀ flight ∈ w.flights, flight.refresh = true → cfg.admits w.cache.filter flight.key = true

def Announced (cfg : Config φ) (w : World ω α φ) : Act α → Prop
  | .set key _ _ _ _ => cfg.admits w.cache.filter key = true
  | _ => True
instance (cfg : Config φ) (w : World ω α φ) (a : Act α) : Decidable (Announced cfg w a) := by
  unfold Announced
  split <;> infer_instance

section
variable [LT ω] [DecidableLT ω] {counter : Counter ω} {cfg : Config φ} {w next : World ω α φ}

theorem askCovered (keeps : Preserves counter) (met : Covered cfg w) (key loader) : Covered cfg (w.ask counter cfg key loader) := by
  have filter : (w.ask counter cfg key loader).cache.filter = w.cache.filter := getOrLoadFilter
  refine ⟨?_,?_,?_⟩
  · rw [filter]
    exact met.known
  · rw [filter]
    have changed : Changed counter cfg w.now False w.cache _ none _ := getOrLoadChanged key loader
    exact quietRows keeps met.rows changed
  rw [filter]
  intro flight mem refresh
  have old := met.refreshing flight
  simp only [World.ask] at mem
  -- Only a stale value starts a refresh, and the filter covers values.
  split at mem
  · rcases leadMember mem with inside | rfl
    · exact old inside refresh
    · contradiction
  · rename_i told
    split at mem
    · rcases leadMember mem with inside | rfl
      · exact old inside refresh
      · obtain ⟨ent,held,pos⟩ := staleHeld told
        exact rowsHeld met.rows held pos
    exact old mem refresh
  exact old mem refresh

theorem landCovered [Inhabited α] (keeps : Preserves counter)
    (met : Covered cfg w) (got : w.flights[i]? = some flight) (rand result) :
    Covered cfg (w.land counter cfg i flight rand result) := by
  obtain ⟨key,refresh,stored⟩ := flight
  have flights {filter : φ} (grown : ∀ k, cfg.admits w.cache.filter k = true → cfg.admits filter k = true) :
      ∀ other ∈ w.flights.set i ⟨key,refresh,true⟩, other.refresh = true → cfg.admits filter other.key = true := by
    intro other mem refreshes
    obtain ⟨old,inside,named,eq⟩ := landedFlights got mem
    exact grown _ (named ▸ met.refreshing old inside (eq.trans refreshes))
  cases refresh with
  | true =>
    have admitted := met.refreshing _ (List.mem_of_getElem? got) rfl
    cases result with
    | failed => exact ⟨met.known,met.rows,flights fun _ => id⟩
    | value =>
      exact ⟨List.forall_mem_cons.mpr ⟨admitted,met.known⟩,
        rowsStore keeps met.rows fun _ _ => admitted,flights fun _ => id⟩
  | false =>
    cases result with
    | failed =>
      simp only [World.land,Bool.false_eq_true,if_false,Cache.loaded]
      split
      · exact ⟨met.known,rowsStore keeps met.rows (by simp [Entry.data]),flights fun _ => id⟩
      exact ⟨met.known,met.rows,flights fun _ => id⟩
    | value =>
      have added := addsAdmits cfg w.cache.filter key
      have grown : ∀ k, cfg.admits w.cache.filter k = true →
          cfg.admits (cfg.adds w.cache.filter key) k = true := fun k => addsKeeps key
      refine ⟨List.forall_mem_cons.mpr ⟨added,fun k mem => grown k (met.known k mem)⟩,?_, flights grown⟩
      refine rowsStore keeps ?_ fun _ _ => added
      exact fun row mem pos => grown _ (met.rows row mem pos)

theorem setCovered (keeps : Preserves counter) (met : Covered cfg w)
    (announced : cfg.admits w.cache.filter key = true) (value : α) (ttl : Option Int) (rand : Nat) (asked) :
    let wrote := w.wrote key (w.cache.set counter cfg asked w.now key value ttl rand)
    Covered cfg { wrote with known := if wrote.written.isSome then key :: w.known else w.known } := by
  unfold Cache.set
  split
  · exact { met with }
  exact ⟨List.forall_mem_cons.mpr ⟨announced,met.known⟩,
    rowsStore keeps met.rows fun _ _ => announced,met.refreshing⟩

theorem stepCovered [Inhabited α] (keeps : Preserves counter) (met : Covered cfg w)
    (announced : Announced cfg w a) (ran : step counter cfg w a = some next) : Covered cfg next := by
  obtain ⟨used,changed,_⟩ := stepChanged ran
  cases a with
  | set key value ttl rand =>
    cases ran
    exact setCovered keeps met announced value ttl rand _
  | get key =>
    cases ran
    have filter : (w.cache.get counter cfg w.now key).1.filter = w.cache.filter := getFilter
    refine ⟨?_,?_,?_⟩ <;> simp only [World.quiet,filter]
    · exact met.known
    · exact quietRows keeps met.rows changed
    exact met.refreshing
  | getOrLoad key loader =>
    cases ran
    exact askCovered keeps met key loader
  | loaded i result rand =>
    simp only [step] at ran
    split at ran <;> try contradiction
    rename_i got
    split at ran <;> cases ran
    exact landCovered keeps met got rand result
  | landed =>
    simp only [step] at ran
    split at ran <;> try contradiction
    split at ran <;> cases ran
    exact ⟨met.known,met.rows,fun flight mem =>
      met.refreshing flight (List.mem_of_mem_eraseIdx mem)⟩
  | delete key =>
    cases ran
    have filter : (w.cache.delete key).filter = w.cache.filter := by
      unfold Cache.delete
      split <;> rfl
    refine ⟨?_,?_,?_⟩ <;> simp only [World.quiet,filter]
    · exact fun k mem => met.known k (List.mem_of_mem_filter mem)
    · exact quietRows keeps met.rows changed
    exact met.refreshing
  | clear =>
    cases ran
    exact ⟨by simp,quietRows keeps met.rows changed,met.refreshing⟩
  | tick =>
    cases ran
    exact { met with }
  | addString key =>
    cases ran
    exact ⟨fun k mem => addsKeeps key (met.known k mem),
      fun row mem pos => addsKeeps key (met.rows row mem pos),
      fun flight mem refresh => addsKeeps key (met.refreshing flight mem refresh)⟩
end

def NeverDenies (cfg : Config φ) (w : World UInt64 α φ) : Prop :=
  ∀ key ∈ w.known, ∀ loader, (w.cache.getOrLoad wrapping cfg w.now key loader).2 ≠ .rejected

theorem announcedNeverDenied [Inhabited α] (cfg : Config φ) (filter : φ) (now : Int)
    (as : List (Act α)) (w : World UInt64 α φ)
    (h : Trace (step wrapping cfg) (Announced cfg) (start wrapping filter now) as w) : NeverDenies cfg w := by
  have covered : Covered cfg w := traceInvariant (P := Covered cfg)
    (fun _ _ _ covered announced moved => stepCovered wrappingPreserves covered announced moved) h
    ⟨by simp [start],by simp [Rows,start],by simp [start]⟩
  intro key member loader rejected
  have unknown := rejectedUnknown rejected
  rw [covered.known key member] at unknown
  contradiction

def remembering : BloomFilter (List String) where
  containsString seen key := decide (key ∈ seen)
  addString seen key := key :: seen
  added := by simp
  kept := by simp_all

def guarded : Config (List String) := new false [.withBloomFilter (some remembering),.withLoader true]

def announcing : List (Act Nat) :=
  [.addString "set",.set "set" 1 none 0 0,.addString "loaded",.getOrLoad "loaded" false,
    .loaded 0 (.value 2) 0,.landed 0,.tick minute.toNat]

theorem announcingNeverDenied : ∃ w,
    Trace (step wrapping guarded) (Announced guarded) (start wrapping [] 0) announcing w ∧
      w.known = ["loaded","set"] ∧ NeverDenies guarded w := by
  have ok : accepts (step wrapping guarded) (Announced guarded) (start wrapping [] 0) announcing = true := by
    decide +kernel
  have known : (run (step wrapping guarded) (start wrapping [] 0) announcing).map World.known =
      some ["loaded","set"] := by decide +kernel
  obtain ⟨w,ran,trace⟩ := acceptedTrace ok
  rw [ran] at known
  exact ⟨w,trace,Option.some.inj known,announcedNeverDenied guarded [] 0 announcing w trace⟩

theorem setThenDenied : ¬ ∀ (as : List (Act Nat)) (w : World UInt64 Nat (List String)),
    Trace (step wrapping guarded) Free (start wrapping [] 0) as w → NeverDenies guarded w := by
  intro everyRun
  have denied : (run (step wrapping guarded) (start wrapping [] 0)
      [.set "k" 7 none 0 0,.tick minute.toNat]).any (fun w => w.known == ["k"] &&
        (w.cache.getOrLoad wrapping guarded w.now "k" false).2 == .rejected) = true := by decide +kernel
  obtain ⟨w,ran,met⟩ := (Option.any_eq_true _ _).mp denied
  simp only [Bool.and_eq_true,beq_iff_eq] at met
  exact everyRun _ w (runFree ran) "k" (by simp [met.1]) false met.2

variable {ω α φ : Type} [LT ω] [DecidableLT ω] {counter : Counter ω} {cfg : Config φ}
  {w next : World ω α φ}

structure Unmarked (cfg : Config φ) (w : World ω α φ) : Prop where
  rows : Rows (fun _ ent => ent.negative = true → 0 < cfg.negativeTTL) w.cache.items
  disabled : cfg.disabled = true → w.flights = [] ∧ w.cache.items.entries = []

theorem disabledEmpty [Inhabited α] (disabled : cfg.disabled = true)
    (flights : w.flights = []) (empty : w.cache.items.entries = []) (ran : step counter cfg w a = some next) :
    next.flights = [] ∧ next.cache.items.entries = [] := by
  cases a with
  | set =>
    cases ran
    simp [World.wrote,Cache.set,disabled,flights,empty]
  | get =>
    cases ran
    simp [World.quiet,Cache.get,disabled,flights,empty]
  | getOrLoad key loader =>
    cases ran
    by_cases named : key = ""
    · simp [World.ask,World.quiet,Cache.getOrLoad,named,flights,empty]
    cases asked : loader || cfg.loader <;>
      simp [World.ask,World.quiet,Cache.getOrLoad,named,disabled,flights,empty,asked]
  | loaded | landed => simp [step,flights] at ran
  | delete key =>
    cases ran
    have erased : (w.cache.items.erase key).entries = [] := by
      show List.kerase key w.cache.items.entries = []
      rw [empty]
      rfl
    by_cases named : key = "" <;> simp [World.quiet,Cache.delete,named,flights,empty,erased]
  | clear =>
    cases ran
    exact ⟨flights,rfl⟩
  | tick | addString =>
    cases ran
    exact ⟨flights,empty⟩

theorem stepUnmarked [Inhabited α] (keeps : Preserves counter)
    (unmarked : Unmarked cfg w) (ran : step counter cfg w a = some next) : Unmarked cfg next where
  rows := changedRows keeps unmarked.rows (fun _ _ order _ fitting => fitting.negative order)
    (stepChanged ran).choose_spec.1
  disabled off := disabledEmpty off (unmarked.disabled off).1 (unmarked.disabled off).2 ran

def Negative (w : World ω α φ) (key : String) : Prop :=
  ∃ ent, w.cache.items.lookup key = some ent ∧ ent.negative = true ∧ ent.expired w.now = false

omit [LT ω] [DecidableLT ω] in
theorem negativeMarked {key} (unmarked : Unmarked cfg w) (negative : Negative w key) :
    0 < cfg.negativeTTL ∧ cfg.disabled = false := by
  obtain ⟨ent,held,marked,-⟩ := negative
  refine ⟨rowsHeld unmarked.rows held marked,Bool.eq_false_iff.mpr fun off => ?_⟩
  have mem := AList.mem_lookup_iff.mp held
  rw [(unmarked.disabled off).2] at mem
  exact List.not_mem_nil mem

omit [LT ω] [DecidableLT ω] in
theorem negativeFound {key} (enabled : cfg.disabled = false) (named : key ≠ "")
    (negative : Negative w key) : ∃ v, (w.cache.get counter cfg w.now key).2 = some v := by
  obtain ⟨ent,held,-,live⟩ := negative
  refine ⟨ent.value,?_⟩
  simp [Cache.get,named,enabled,held,live]

omit [LT ω] [DecidableLT ω] in
theorem missLoads {c : Cache ω α φ} {key : String} {now : Int} (enabled : cfg.disabled = false)
    (named : key ≠ "") (missing : c.items.lookup key = none) (admitted : cfg.admits c.filter key = true) :
    c.getOrLoad counter cfg now key true = (c,.load) := by
  simp [Cache.getOrLoad,Cache.lookup,named,enabled,missing,admitted]

theorem evictSingle {items : Items ω α} (only : items.entries = [row]) (live : row.2.expired now = false) :
    (evictLocked cfg items now).1.entries = [row] := by
  have swept : (sweep items now).entries = [row] := by simp [sweep,only,live]
  unfold evictLocked
  split
  · exact swept
  rename_i capped
  obtain ⟨max,more⟩ := cappedPositive (Int64.not_le.mp capped)
  simp only [swept,more,List.length_singleton,Recency.trim,Nat.not_lt_zero,if_false, Nat.succ_lt_succ_iff]

theorem storeFirst {c : Cache ω α φ} (key)
    (keeps : Preserves counter) (empty : c.items.entries = []) (fitting : Fitting cfg now False ent) :
    ∃ order, (c.store counter cfg now key ent).1.items.lookup key = some (ent order) := by
  have none : (counter.next c.items c.nextAccessOrder).1.entries = [] := by
    have eq := keeps α c.items c.nextAccessOrder
    rw [empty] at eq
    exact List.map_eq_nil_iff.mp eq
  refine ⟨(counter.next c.items c.nextAccessOrder).2,?_⟩
  have only : (c.stamp counter key ent).items.entries = [⟨key,ent (counter.next c.items c.nextAccessOrder).2⟩] := by
    show _ :: List.kerase key (counter.next c.items c.nextAccessOrder).1.entries = _
    rw [none]
    rfl
  have left : (evictLocked cfg (c.stamp counter key ent).items now).1.entries = _ :=
    evictSingle only (Bool.eq_false_iff.mpr (fitting.lives _))
  show List.dlookup key (evictLocked cfg (c.stamp counter key ent).items now).1.entries = _
  rw [left,List.dlookup_cons_eq]

theorem notFoundStored [Inhabited α] (keeps : Preserves counter) (caching : 0 < cfg.negativeTTL) (empty : w.cache.items.entries = []) (i rand) :
    Negative (w.land counter cfg i ⟨key,false,false⟩ rand (.failed true)) key := by
  let expiresAt := w.now + jitterTTL cfg cfg.negativeTTL rand
  have later : w.now < expiresAt := jitterLater cfg w.now rand caching
  have fitting : Fitting cfg w.now False fun order : ω =>
      (⟨default,expiresAt,expiresAt,order,true⟩ : Entry ω α) := newFitting (Int.not_le.mpr later) fun _ => caching
  have stored : (w.land counter cfg i ⟨key,false,false⟩ rand (.failed true)).cache =
      (w.cache.store counter cfg w.now key fun order =>
        ⟨default,expiresAt,expiresAt,order,true⟩).1 := by
    simp [World.land,World.wrote,Cache.loaded,caching,expiresAt]
  obtain ⟨order,held⟩ := storeFirst key keeps empty fitting
  exact ⟨_,stored ▸ held,rfl,Bool.eq_false_iff.mpr (fitting.lives order)⟩

def notFoundRun : List (Act α) := [.addString "k",.getOrLoad "k" true,.loaded 0 (.failed true) 0]

theorem notFoundCached [Inhabited α] (keeps : Preserves counter) (caching : 0 < cfg.negativeTTL)
    (enabled : cfg.disabled = false) (filter now) :
    ∃ w : World ω α φ, Transition.run (step counter cfg) (start counter filter now) notFoundRun = some w ∧
      Negative w "k" := by
  let added : World ω α φ := start counter (cfg.adds filter "k") now
  have loads : added.cache.getOrLoad counter cfg added.now "k" true = (added.cache,.load) :=
    missLoads enabled (by decide) rfl (addsAdmits cfg filter "k")
  have asked : added.ask counter cfg "k" true = { added with flights := [⟨"k",false,false⟩] } := by
    unfold World.ask
    rw [loads]
    rfl
  refine ⟨World.land { added with flights := [⟨"k",false,false⟩] } counter cfg 0
    ⟨"k",false,false⟩ 0 (.failed true),?_,notFoundStored keeps caching rfl 0 0⟩
  show Transition.run (step counter cfg) (added.ask counter cfg "k" true) [.loaded 0 (.failed true) 0] = _
  rw [asked]
  rfl
end Gofly.CacheStore
