import Mathlib.Data.List.Infix
/-! Values with named fields inside each other, read and written along a list of keys. A write
makes the missing objects on its way and fails where something else stands. -/
namespace Gofly.FieldTree

inductive Value (κ σ : Type) where
  | nil
  | scalar (s : σ)
  | list (items : List (Value κ σ))
  | object (fields : List (κ × Value κ σ))

abbrev Fields (κ σ : Type) := List (κ × Value κ σ)

variable {κ σ : Type} {key other : κ} {others : List κ} {value : Value κ σ} {fields : Fields κ σ}
def Apart (keys others : List κ) : Prop := ¬ keys <+: others ∧ ¬ others <+: keys

theorem Apart.symm (ne : Apart keys others) : Apart others keys := ⟨ne.2,ne.1⟩

theorem Apart.tail (ne : Apart (key :: keys) (key :: others)) : Apart keys others := by
  refine ⟨fun mem => ne.1 ?_,fun mem => ne.2 ?_⟩
  · exact List.cons_prefix_cons.mpr ⟨rfl,mem⟩
  exact List.cons_prefix_cons.mpr ⟨rfl,mem⟩

theorem Apart.filled (ne : Apart keys others) : others ≠ [] := by
  rintro rfl
  exact ne.2 List.nil_prefix

variable [DecidableEq κ]
def get (key : κ) (fields : Fields κ σ) : Option (Value κ σ) := fields.lookup key

def put (key : κ) (value : Value κ σ) (fields : Fields κ σ) : Fields κ σ :=
  (key,value) :: fields.filter fun field => field.1 ≠ key

@[simp] theorem getPut (key) (value : Value κ σ) (fields) : get key (put key value fields) = some value := by
  simp [get,put]

theorem getOther (ne : other ≠ key) (value : Value κ σ) (fields) :
    get other (put key value fields) = get other fields := by
  have first : (other == key) = false := by simpa using ne
  simp only [get,put,List.lookup_cons,first]
  induction fields with
  | nil => rfl
  | cons field rest ih =>
    by_cases eq : field.1 = key
    · have skip : (other == field.1) = false := by simpa [eq] using ne
      rw [List.filter_cons_of_neg (by simpa using eq),ih,List.lookup_cons,skip]
    rw [List.filter_cons_of_pos (by simpa using eq),List.lookup_cons,List.lookup_cons,ih]

def read : List κ → Value κ σ → Option (Value κ σ)
  | [],value => some value
  | key :: rest,.object fields => (get key fields).bind (read rest)
  | _ :: _,_ => none

def write : List κ → Value κ σ → Fields κ σ → Option (Fields κ σ)
  | [],_,_ => none
  | [key],value,fields => some (put key value fields)
  | key :: next :: rest,value,fields =>
    match get key fields with
    | none => (write (next :: rest) value []).map fun child => put key (.object child) fields
    | some (.object child) => (write (next :: rest) value child).map fun child => put key (.object child) fields
    | some _ => none

def Open : List κ → Fields κ σ → Prop
  | [],_ => False
  | [key],fields => get key fields = none
  | key :: next :: rest,fields =>
    get key fields = none ∨ ∃ child, get key fields = some (.object child) ∧ Open (next :: rest) child

theorem openNone (some : keys ≠ []) : Open keys ([] : Fields κ σ) := by
  match keys, some with
  | [_],_ => rfl
  | _ :: _ :: _,_ => exact .inl rfl

theorem readOpen (free : Open keys fields) : read keys (.object fields) = none := by
  induction keys generalizing fields with
  | nil => cases free
  | cons key rest ih =>
    cases rest with
    | nil =>
      rw [read,show get key fields = none from free]
      rfl
    | cons =>
      rcases free with none | ⟨child,got,free⟩
      · rw [read,none]
        rfl
      rw [read,got]
      exact ih free

theorem writeOpen (free : Open keys fields) (value) :
    ∃ next, write keys value fields = some next ∧ read keys (.object next) = some value := by
  induction keys generalizing fields with
  | nil => cases free
  | cons key rest ih =>
    cases rest with
    | nil => exact ⟨put key value fields,rfl,by simp [read]⟩
    | cons head rest =>
      rcases free with none | ⟨child,got,free⟩
      · obtain ⟨inner,wrote,seen⟩ := ih (openNone (List.cons_ne_nil head rest))
        exact ⟨put key (.object inner) fields,by simp [write,none,wrote],by simpa [read] using seen⟩
      obtain ⟨inner,wrote,seen⟩ := ih free
      exact ⟨put key (.object inner) fields,by simp [write,got,wrote],by simpa [read] using seen⟩

theorem writeInner (wrote : write (key :: head :: rest) value fields = some next) :
    ∃ child inner, (get key fields = none ∧ child = [] ∨ get key fields = some (.object child)) ∧
      write (head :: rest) value child = some inner ∧ next = put key (.object inner) fields := by
  simp only [write] at wrote
  split at wrote
  · rename_i none
    obtain ⟨inner,made,rfl⟩ := Option.map_eq_some_iff.mp wrote
    exact ⟨[],inner,.inl ⟨none,rfl⟩,made,rfl⟩
  · rename_i child got
    obtain ⟨inner,made,rfl⟩ := Option.map_eq_some_iff.mp wrote
    exact ⟨child,inner,.inr got,made,rfl⟩
  cases wrote

theorem writeApart (wrote : write keys value fields = some next) (ne : Apart keys others) :
    read others (.object next) = read others (.object fields) ∧ (Open others fields → Open others next) := by
  induction keys generalizing others fields next with
  | nil => cases wrote
  | cons key rest ih =>
    cases others with
    | nil => exact absurd rfl ne.filled
    | cons other others =>
      by_cases eq : other = key
      · subst eq
        have below := ne.tail
        cases rest with
        | nil => exact absurd List.nil_prefix below.1
        | cons =>
          obtain ⟨second,others,rfl⟩ := List.exists_cons_of_ne_nil below.filled
          obtain ⟨child,inner,stood,made,rfl⟩ := writeInner wrote
          obtain ⟨kept,open_⟩ := ih made below
          rcases stood with ⟨none,rfl⟩ | found
          · have free : Open (second :: others) inner := open_ (openNone (List.cons_ne_nil second others))
            refine ⟨?_,fun _ => .inr ⟨inner,getPut _ _ _,free⟩⟩
            rw [read,read,getPut,none]
            exact readOpen free
          refine ⟨?_,fun free => ?_⟩
          · rw [read,read,getPut,found]
            exact kept
          rcases free with none | ⟨stood,also,free⟩
          · rw [found] at none
            cases none
          rw [found] at also
          cases also
          exact .inr ⟨inner,getPut _ _ _,open_ free⟩
      have only : ∀ value, next = put key value fields → get other next = get other fields := by
        rintro value rfl
        exact getOther eq value fields
      have kept : get other next = get other fields := by
        cases rest with
        | nil =>
          cases wrote
          exact only _ rfl
        | cons =>
          obtain ⟨_,_,_,_,made⟩ := writeInner wrote
          exact only _ made
      refine ⟨by rw [read,read,kept],fun free => ?_⟩
      cases others with
      | nil => exact kept.trans free
      | cons => rw [Open,kept]; exact free

end Gofly.FieldTree
