import Gofly.CacheBloom
import Gofly.KVStore
/-! The two-level cache: a local cache in front of a shared store. Each layer operation is one
atomic step, so a call stands between two of them while others run. -/
namespace Gofly.Tiered
open CacheStore

variable {α β φ : Type}

structure Codec (α β : Type) where
  marshal : α → Option β
  unmarshal : β → Option α

structure TieredCache (α β φ : Type) where
  l1 : Config φ
  codec : Codec α β
  loader : Bool
  l2TTL : Int
  scope : String
  disabled : Bool
  localDisabled : Bool
  remoteDisabled : Bool

inductive TieredOption (α β φ : Type) where
  | withL1 (l1 : Config φ)
  | withCodec (codec : Codec α β)
  | withTieredLoader (loader : Bool)
  | withL2TTL (ttl : Int)
  | withNamespace (scope : String)
  | withTieredDisabled (disabled : Bool)
  | withTieredLocalDisabled (disabled : Bool)
  | withTieredRemoteDisabled (disabled : Bool)

def TieredOption.apply (t : TieredCache α β φ) : TieredOption α β φ → TieredCache α β φ
  | .withL1 l1 => { t with l1 := l1 }
  | .withCodec codec => { t with codec := codec }
  | .withTieredLoader loader => { t with loader := loader }
  | .withL2TTL ttl => if 0 < ttl then { t with l2TTL := ttl } else t
  | .withNamespace scope => { t with scope := scope }
  | .withTieredDisabled disabled => { t with disabled := disabled }
  | .withTieredLocalDisabled disabled => { t with localDisabled := disabled }
  | .withTieredRemoteDisabled disabled => { t with remoteDisabled := disabled }

def newTiered (disabledByEnv : Bool) (json : Codec α β) (opts : List (TieredOption α β φ)) :
    TieredCache α β φ :=
  let t := opts.foldl TieredOption.apply
    { l1 := CacheStore.new disabledByEnv [],codec := json,loader := false
      l2TTL := CacheStore.minute,scope := "",disabled := disabledByEnv
      localDisabled := false,remoteDisabled := false }
  if t.disabled then { t with localDisabled := true,remoteDisabled := true } else t

def TieredCache.localEnabled (t : TieredCache α β φ) : Bool := !t.disabled && !t.localDisabled
def TieredCache.remoteEnabled (t : TieredCache α β φ) : Bool := !t.disabled && !t.remoteDisabled

def TieredCache.l2Key (t : TieredCache α β φ) (key : String) : String :=
  if t.scope = "" then key else t.scope ++ ":" ++ key

inductive Method (α : Type) where
  | get
  | getOrLoad (loader : Bool)
  | set (value : α)
  | delete
  deriving DecidableEq

inductive Result (α : Type) where
  | found (value : α)
  | missing
  | loaderNil
  | failed
  | done
  deriving DecidableEq

inductive Phase (α : Type) where
  | readLocal
  | readRemote
  | backfill (value : α)
  | load
  | writeLocal (value : α)
  | writeRemote (value : α)
  | deleteLocal
  | deleteRemote
  | returned (result : Result α)
  deriving DecidableEq

structure Caller (α : Type) where
  method : Method α
  key : String
  phase : Phase α
  deriving DecidableEq

section
variable (t : TieredCache α β φ)

def missed : Method α → Phase α
  | .getOrLoad loader => if loader || t.loader then .load else .returned .loaderNil
  | _ => .returned .missing

def pastLocal (method : Method α) : Phase α :=
  if t.remoteEnabled then .readRemote else missed t method
def fetched (value : α) : Phase α := if t.localEnabled then .backfill value else .returned (.found value)

def written (value : α) : Method α → Result α
  | .set _ => .done
  | _ => .found value

def pastWrite (method : Method α) (value : α) : Phase α :=
  if t.remoteEnabled && (t.codec.marshal value).isSome then .writeRemote value
  else .returned (written value method)

def write (method : Method α) (value : α) : Phase α :=
  if t.localEnabled then .writeLocal value else pastWrite t method value
def pastDelete : Phase α := if t.remoteEnabled then .deleteRemote else .returned .done

def enter (key : String) : Method α → Phase α
  | .get =>
    if key = "" then .returned .missing else if t.localEnabled then .readLocal else pastLocal t .get
  | .getOrLoad loader =>
    if key = "" then .returned .missing
    else if t.localEnabled then .readLocal
    else pastLocal t (.getOrLoad loader)
  | .set value => if key = "" then .returned .done else write t (.set value) value
  | .delete =>
    if key = "" then .returned .done else if t.localEnabled then .deleteLocal else pastDelete t
end

structure World (α β φ : Type) where
  l1 : CacheStore.World UInt64 α φ
  l2 : KVStore.Store String β
  clock : Nat
  callers : List (Caller α)

def start (l1 : CacheStore.World UInt64 α φ) (l2 : KVStore.Store String β) (clock : Nat) :
    World α β φ :=
  ⟨l1,l2,clock,[]⟩

structure Outside (α : Type) where
  fails : Bool
  rand : Nat
  gap : Nat
  loaded : Option α
  deriving DecidableEq

inductive Act (α : Type) where
  | call (method : Method α) (key : String)
  | move (i : Nat) (outside : Outside α)
  | direct (a : CacheStore.Act α)
  | tick (d : Nat)

section
variable [Inhabited α] (t : TieredCache α β φ)

def World.onLocal (w : World α β φ) (a : CacheStore.Act α) (phase : Phase α) :
    Option (World α β φ × Phase α) :=
  (CacheStore.step wrapping t.l1 w.l1 a).map fun l1 => ({ w with l1 := l1 },phase)

def World.turn (w : World α β φ) (caller : Caller α) (outside : Outside α) :
    Option (World α β φ × Phase α) :=
  match caller.phase with
  | .readLocal =>
    let read := (w.l1.cache.get wrapping t.l1 w.l1.now caller.key).2
    w.onLocal t (.get caller.key)
      (read.elim (pastLocal t caller.method) fun value => .returned (.found value))
  | .readRemote =>
    if outside.fails then some (w,missed t caller.method)
    else
      let read := KVStore.get w.l2 w.clock (t.l2Key caller.key)
      some ({ w with l2 := read.2 },
        (read.1.bind t.codec.unmarshal).elim (missed t caller.method) (fetched t))
  | .backfill value =>
    w.onLocal t (.set caller.key value none outside.rand outside.gap) (.returned (.found value))
  | .load => some (w,outside.loaded.elim (.returned .failed) (write t caller.method))
  | .writeLocal value =>
    w.onLocal t (.set caller.key value none outside.rand outside.gap) (pastWrite t caller.method value)
  | .writeRemote value =>
    let l2 := if outside.fails then w.l2 else (t.codec.marshal value).elim w.l2 fun data =>
      KVStore.set w.l2 w.clock (t.l2Key caller.key) data t.l2TTL
    some ({ w with l2 := l2 },.returned (written value caller.method))
  | .deleteLocal => w.onLocal t (.delete caller.key) (pastDelete t)
  | .deleteRemote =>
    if outside.fails then some (w,.returned .failed)
    else
      some ({ w with l2 := (KVStore.delete w.l2 (t.l2Key caller.key)).2 },.returned .done)
  | .returned _ => none

def step (w : World α β φ) : Act α → Option (World α β φ)
  | .call method key => some { w with callers := w.callers ++ [⟨method,key,enter t key method⟩] }
  | .move i outside =>
    match w.callers[i]? with
    | none => none
    | some caller =>
      (w.turn t caller outside).map fun after =>
        { after.1 with callers := w.callers.set i { caller with phase := after.2 } }
  | .direct a => (CacheStore.step wrapping t.l1 w.l1 a).map fun l1 => { w with l1 := l1 }
  | .tick d => some { w with clock := w.clock + d }
end

section
open CacheStore
open Transition
open Prod (fst snd)
variable {α β φ : Type} [Inhabited α] {t : TieredCache α β φ} {w : World α β φ}

theorem onLocalStep (ran : w.onLocal t a phase = some after) :
    CacheStore.step wrapping t.l1 w.l1 a = some after.1.l1 := by
  obtain ⟨l1,stepped,rfl⟩ := Option.map_eq_some_iff.mp ran
  exact stepped

theorem turnLocal (ran : w.turn t c outside = some after) :
    after.1.l1 = w.l1 ∨ ∃ b, CacheStore.step wrapping t.l1 w.l1 b = some after.1.l1 := by
  unfold World.turn at ran
  split at ran
  · exact .inr ⟨_,onLocalStep ran⟩
  · split at ran <;> cases ran <;> exact .inl rfl
  · exact .inr ⟨_,onLocalStep ran⟩
  · cases ran
    exact .inl rfl
  · exact .inr ⟨_,onLocalStep ran⟩
  · cases ran
    exact .inl rfl
  · exact .inr ⟨_,onLocalStep ran⟩
  · split at ran <;> cases ran <;> exact .inl rfl
  contradiction

theorem stepLocal (moved : step t w a = some next) :
    next.l1 = w.l1 ∨ ∃ b, CacheStore.step wrapping t.l1 w.l1 b = some next.l1 := by
  cases a with
  | call | tick =>
    cases moved
    exact .inl rfl
  | move =>
    simp only [step] at moved
    split at moved <;> try contradiction
    obtain ⟨after,ran,rfl⟩ := Option.map_eq_some_iff.mp moved
    exact turnLocal ran
  | direct a =>
    obtain ⟨l1,stepped,rfl⟩ := Option.map_eq_some_iff.mp moved
    exact .inr ⟨a,stepped⟩

def World.complete (t : TieredCache α β φ) (w : World α β φ) (c : Caller α) :
    List (Outside α) → Option (World α β φ × Result α)
  | [] =>
    match c.phase with
    | .returned result => some (w,result)
    | _ => none
  | outside :: rest =>
    match c.phase with
    | .returned result => some (w,result)
    | _ =>
      (w.turn t c outside).bind fun after =>
        after.1.complete t { c with phase := after.2 } rest

structure NegativeMisses (t : TieredCache α β φ) (w : World α β φ) : Prop where
  get : ∀ key, Negative w.l1 key → (w.l1.cache.get wrapping t.l1 w.l1.now key).2 = none
  tieredGet : t.localEnabled = true → ∀ key, Negative w.l1 key → ∀ outs after v,
    w.complete t ⟨.get,key,enter t key .get⟩ outs ≠ some (after,.found v)
  tieredGetOrLoad : t.localEnabled = true → ∀ key, Negative w.l1 key → ∀ loader outs after v,
    w.complete t ⟨.getOrLoad loader,key,enter t key (.getOrLoad loader)⟩ outs ≠ some (after,.found v)

theorem everyUnmarked (h : Trace (step t) Free (start (CacheStore.start wrapping filter now) l2 clock) as w) :
    Unmarked t.l1 w.l1 := by
  refine traceInvariant (P := fun w => Unmarked t.l1 w.l1) ?_ h
    ⟨by simp [CacheStore.Rows,start,CacheStore.start],fun _ => ⟨rfl,rfl⟩⟩
  intro w a next unmarked _ ran
  rcases stepLocal ran with eq | ⟨b,stepped⟩
  · rw [eq]
    exact unmarked
  exact CacheStore.stepUnmarked CacheStore.wrappingPreserves unmarked stepped

theorem directRun (ran : run (CacheStore.step wrapping t.l1) l1 as = some u) (l2 clock) :
    run (step t) (start l1 l2 clock) (as.map .direct) = some (start u l2 clock) := by
  induction as generalizing l1 with
  | nil =>
    cases ran
    rfl
  | cons a rest ih =>
    obtain ⟨next,moved,later⟩ := Option.bind_eq_some_iff.mp ran
    simp only [List.map_cons,run,step,start,moved]
    exact ih later

/-- The readers keep not-found results from their callers exactly if there are none. -/
theorem negativeNeverHit (t : TieredCache α β φ) (filter : φ) (now : Int)
    (l2 : KVStore.Store String β) (clock : Nat) : (∀ (as : List (Act α)) (w : World α β φ),
      Trace (step t) Free (start (CacheStore.start wrapping filter now) l2 clock) as w → NegativeMisses t w) ↔
      t.l1.negativeTTL ≤ 0 ∨ t.l1.disabled = true := by
  constructor
  · intro claim
    by_contra! on
    have enabled : t.l1.disabled = false := by simpa using on.2
    obtain ⟨l1,ran,negative⟩ : ∃ l1 : CacheStore.World UInt64 α φ, _ ∧ Negative l1 "k" :=
      CacheStore.notFoundCached CacheStore.wrappingPreserves on.1 enabled filter now
    obtain ⟨v,found⟩ := CacheStore.negativeFound enabled (by decide) negative
    have trace := runFree (directRun ran l2 clock)
    have missed := (claim _ _ trace).get "k" negative
    simp only [start] at missed
    rw [found] at missed
    contradiction
  · intro off as w h
    have none (key : String) : ¬ Negative w.l1 key := by
      intro negative
      obtain ⟨caching,enabled⟩ := CacheStore.negativeMarked (everyUnmarked h) negative
      rcases off with never | disabled
      · omega
      · rw [enabled] at disabled
        contradiction
    exact ⟨fun key negative => absurd negative (none key),
      fun _ key negative => absurd negative (none key),fun _ key negative => absurd negative (none key)⟩

def noting : TieredCache Nat Nat Unit :=
  newTiered false ⟨some,some⟩ [.withL1 (CacheStore.new false [.withNegativeCache 1000])]

theorem notFoundReturned : ∃ w, Trace (step noting) Free (start (CacheStore.start wrapping () 0) (fun _ => none) 0)
      (CacheStore.notFoundRun.map .direct) w ∧ (w.l1.cache.get wrapping noting.l1 w.l1.now "k").2 = some 0 ∧
    (w.complete noting ⟨.get,"k",enter noting "k" .get⟩ [⟨false,0,0,none⟩]).map snd = some (.found 0) ∧
    (w.complete noting ⟨.getOrLoad true,"k",enter noting "k" (.getOrLoad true)⟩
      [⟨false,0,0,none⟩]).map snd = some (.found 0) ∧ ¬ NegativeMisses noting w := by
  have reads : (run (step noting) (start (CacheStore.start wrapping () 0) (fun _ => none) 0)
      (CacheStore.notFoundRun.map .direct)).map (fun w =>
        ((w.l1.cache.items.lookup "k").map fun ent => (ent.negative,ent.expired w.l1.now),
          (w.l1.cache.get wrapping noting.l1 w.l1.now "k").2,
          (w.complete noting ⟨.get,"k",enter noting "k" .get⟩ [⟨false,0,0,none⟩]).map snd,
          (w.complete noting ⟨.getOrLoad true,"k",enter noting "k" (.getOrLoad true)⟩
            [⟨false,0,0,none⟩]).map snd)) =
      some (some (true,false),some 0,some (.found 0),some (.found 0)) := by decide +kernel
  obtain ⟨w,ran,same⟩ := Option.map_eq_some_iff.mp reads
  simp only [Prod.mk.injEq] at same
  obtain ⟨entry,got,tieredGot,tieredLoaded⟩ := same
  obtain ⟨ent,held,marks⟩ := Option.map_eq_some_iff.mp entry
  refine ⟨w,runFree ran,got,tieredGot,tieredLoaded,fun misses => ?_⟩
  have missed := misses.get "k" ⟨ent,held,congrArg fst marks,congrArg snd marks⟩
  rw [got] at missed
  contradiction
end
end Gofly.Tiered
