import Mathlib.Logic.Function.Basic

/-! The key-value store, one locked section an operation. -/
namespace Gofly.KVStore
open Function (update)

structure Entry (β : Type) where
  value : β
  expiresAt : Option Nat
  deriving DecidableEq

abbrev Store (κ β : Type) := κ → Option (Entry β)

variable {κ β : Type} [DecidableEq κ]

def Entry.live (e : Entry β) (now : Nat) : Bool :=
  match e.expiresAt with
  | none => true
  | some t => now < t

def expiresAt (now : Nat) (ttl : Int) : Option Nat :=
  if ttl ≤ 0 then none else some (now + ttl.toNat)

def getLocked (s : Store κ β) (key : κ) (now : Nat) : Option (Entry β) × Store κ β :=
  match s key with
  | none => (none,s)
  | some e => if e.live now then (some e,s) else (none,update s key none)

def get (s : Store κ β) (now : Nat) (key : κ) : Option β × Store κ β :=
  match getLocked s key now with
  | (e,s) => (e.map Entry.value,s)

def set (s : Store κ β) (now : Nat) (key : κ) (value : β) (ttl : Int) : Store κ β :=
  update s key (some ⟨value,expiresAt now ttl⟩)

def setNX (s : Store κ β) (now : Nat) (key : κ) (value : β) (ttl : Int) : Bool × Store κ β :=
  match getLocked s key now with
  | (some _,s) => (false,s)
  | (none,s) => (true,set s now key value ttl)

def delete (s : Store κ β) (key : κ) : Bool × Store κ β :=
  match s key with
  | none => (false,s)
  | some _ => (true,update s key none)

def find (s : Store κ β) (now : Nat) (key : κ) : Option (Entry β) := (s key).filter fun e => e.live now
variable {key : κ} {e : Entry β}

theorem liveEarlier (old : now ≤ later) (alive : e.live later = true) : e.live now = true := by
  unfold Entry.live at *
  split
  · rfl
  simp_all
  omega

omit [DecidableEq κ] in
theorem findExact : find s now key = some e ↔ s key = some e ∧ e.live now = true := by
  simp [find,Option.filter_eq_some_iff]

omit [DecidableEq κ] in
theorem findLater (old : now ≤ later) (got : find s later key = some e) : find s now key = some e := by
  obtain ⟨stored,alive⟩ := findExact.mp got
  exact findExact.mpr ⟨stored,liveEarlier old alive⟩

theorem getLockedFound (s : Store κ β) (key now) : (getLocked s key now).1 = find s now key := by
  unfold getLocked find
  cases s key with
  | none => rfl
  | some e => cases alive : e.live now <;> simp [alive,Option.filter]

theorem getLockedKept (s : Store κ β) (key now) : find (getLocked s key now).2 now = find s now := by
  funext k
  unfold getLocked
  split
  · rfl
  rename_i stored
  split
  · rfl
  rename_i dead
  by_cases eq : k = key
  · subst eq
    simp [find,stored,Option.filter,dead]
  simp [find,eq]

theorem erasedFewer (still : update s key none k = some e) : s k = some e := by
  by_cases eq : k = key
  · subst eq
    simp at still
  simpa [eq] using still

theorem getLockedFewer (still : (getLocked s key now).2 k = some e) : s k = some e := by
  unfold getLocked at still
  split at still
  · exact still
  split at still
  · exact still
  exact erasedFewer still

theorem setAt (stored : set s now key value ttl k = some e) : k = key ∧ e.value = value ∨ s k = some e := by
  by_cases eq : k = key
  · subst eq
    simp only [set,Function.update_self] at stored
    cases stored
    exact .inl ⟨rfl,rfl⟩
  exact .inr (by simpa [set,eq] using stored)

theorem setNXAt (stored : (setNX s now key value ttl).2 k = some e) : e.value = value ∨ s k = some e := by
  have fewer (still : (getLocked s key now).2 k = some e) := getLockedFewer still
  unfold setNX at stored
  split at stored
  · rename_i looked
    rw [looked] at fewer
    exact .inr (fewer stored)
  rename_i looked
  rw [looked] at fewer
  rcases setAt stored with ⟨_,eq⟩ | still
  · exact .inl eq
  exact .inr (fewer still)

theorem deleteFewer (still : (delete s key).2 k = some e) : s k = some e := by
  unfold delete at still
  split at still
  · exact still
  exact erasedFewer still

theorem findSet (s : Store κ β) (now later key k value ttl) : find (set s now key value ttl) later k =
      if k = key then (some ⟨value,expiresAt now ttl⟩ : Option (Entry β)).filter fun e => e.live later
      else find s later k := by
  by_cases eq : k = key
  · subst eq
    simp [find,set]
  simp [find,set,eq]

theorem findDelete (s : Store κ β) (key k now) :
    find (delete s key).2 now k = if k = key then none else find s now k := by
  unfold delete
  split
  · rename_i gone
    by_cases eq : k = key
    · subst eq
      simp [find,gone]
    simp [eq]
  by_cases eq : k = key
  · subst eq
    simp [find]
  simp [find,eq]

theorem getExact (s : Store κ β) (now key) :
    (get s now key).1 = (find s now key).map Entry.value ∧ find (get s now key).2 now = find s now := by
  constructor
  · simp only [get,getLockedFound]
  exact getLockedKept s key now

theorem setNXHeld (value ttl) (held : find s now key = some e) :
    (setNX s now key value ttl).1 = false ∧ find (setNX s now key value ttl).2 now = find s now := by
  have got := getLockedFound s key now
  have kept := getLockedKept s key now
  unfold setNX
  split
  · rename_i looked
    rw [looked] at kept
    exact ⟨rfl,kept⟩
  rename_i looked
  rw [looked,held] at got
  cases got

theorem setNXFree (value ttl) (free : find s now key = none) : (setNX s now key value ttl).1 = true ∧
      find (setNX s now key value ttl).2 now = find (set s now key value ttl) now := by
  have got := getLockedFound s key now
  have kept := getLockedKept s key now
  unfold setNX
  split
  · rename_i looked
    rw [looked,free] at got
    cases got
  rename_i looked
  rw [looked] at kept
  refine ⟨rfl,?_⟩
  funext k
  rw [findSet,findSet]
  exact congrArg _ (congrFun kept k)

end Gofly.KVStore
