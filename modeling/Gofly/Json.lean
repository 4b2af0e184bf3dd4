import Mathlib
import Gofly.ByteReader
/-! JSON as a program sees it that writes maps and reads them back: texts come back as UTF-8
and numbers as floats of 64 bits. -/
namespace Gofly.Json
open ByteReader
open UInt8 (ofNat toNat)

def within (low high b : UInt8) : Bool := low ≤ b && b ≤ high

def follows : Nat → UInt8 → UInt8 → Bytes → Bool
  | 0,_,_,_ => true
  | _ + 1,_,_,[] => false
  | n + 1,low,high,b :: rest => within low high b && follows n 0x80 0xBF rest

def width : Bytes → Nat
  | [] => 0
  | a :: rest =>
    if a < 0x80 then 1
    else if within 0xC2 0xDF a then if follows 1 0x80 0xBF rest then 2 else 0
    else if a = 0xE0 then if follows 2 0xA0 0xBF rest then 3 else 0
    else if a = 0xED then if follows 2 0x80 0x9F rest then 3 else 0
    else if within 0xE1 0xEF a then if follows 2 0x80 0xBF rest then 3 else 0
    else if a = 0xF0 then if follows 3 0x90 0xBF rest then 4 else 0
    else if a = 0xF4 then if follows 3 0x80 0x8F rest then 4 else 0
    else if within 0xF1 0xF3 a then if follows 3 0x80 0xBF rest then 4 else 0
    else 0

def coerceFrom : Nat → Bytes → Bytes
  | _,[] => []
  | n + 1,a :: rest => a :: coerceFrom n rest
  | 0,a :: rest =>
    match width (a :: rest) with
    | 0 => 0xEF :: 0xBF :: 0xBD :: coerceFrom 0 rest
    | n + 1 => a :: coerceFrom n rest

def coerce (s : Bytes) : Bytes := coerceFrom 0 s

def float64 (n : Nat) : Nat :=
  let unit := 2 ^ (n.log2 + 1 - 53)
  let low := n / unit
  let rest := n % unit
  (low + if unit < 2 * rest ∨ unit = 2 * rest ∧ low % 2 = 1 then 1 else 0) * unit

inductive Value where
  | null
  | string (s : Bytes)
  | number (float : Option Rat)
  | composite (text : Bytes) (readable : Bool)
  deriving DecidableEq

def Value.readable : Value → Bool
  | number none => false
  | composite _ readable => readable
  | _ => true

inductive Any where
  | string (s : Bytes)
  | int64 (t : Int)
  | other (back : Option Value)
  deriving DecidableEq

def Any.back : Any → Option Value
  | string s => some (.string (coerce s))
  | int64 t => some (.number (some ((t.sign * (float64 t.natAbs : Int) : Int) : Rat)))
  | other back => back

def Any.of : Value → Any
  | .string s => string s
  | v => other (some v)

inductive Doc where
  | null
  | object (fields : List (Bytes × Value))
  | other
  deriving DecidableEq

abbrev Map (α : Type) := AList fun _ : Bytes => α
def fieldsOf (m : Map Any) : List (Bytes × Value) := m.entries.map fun p => (coerce p.1,p.2.back.getD .null)
def marshalable (m : Map Any) : Bool := m.entries.all fun p => p.2.back.isSome

structure Package where
  write : Map Any → Bytes
  read : Bytes → Option Doc
  readWrite : ∀ m, marshalable m = true → ∃ fields, read (write m) = some (.object fields) ∧ fields.Perm (fieldsOf m)

def marshal (p : Package) (m : Map Any) : Option Bytes := if marshalable m then some (p.write m) else none

-- of fields with one name the last stays
def toMap (fields : List (Bytes × Value)) : Map Value := fields.foldl (fun m field => m.insert field.1 field.2) ∅

def unmarshalMap (p : Package) (data : Bytes) : Option (Map Value) :=
  match p.read data with
  | some .null => some ∅
  | some (.object fields) => if fields.all fun field => field.2.readable then some (toMap fields) else none
  | _ => none

-- as a letter of an ASCII name is compared, with the Kelvin sign and the long s
def foldCase : Bytes → Bytes
  | 0xE2 :: 0x84 :: 0xAA :: rest => 0x6B :: foldCase rest
  | 0xC5 :: 0xBF :: rest => 0x73 :: foldCase rest
  | a :: rest => (if 0x41 ≤ a ∧ a ≤ 0x5A then a + 0x20 else a) :: foldCase rest
  | [] => []

def fieldNamed (names : List Bytes) (key : Bytes) : Option Bytes :=
  (names.find? (· = key)).or (names.find? (· = foldCase key))

structure Struct where
  texts : Bytes → Bytes := fun _ => []
  failed : Bool := false

def setField (names : List Bytes) (s : Struct) (field : Bytes × Value) : Struct :=
  match fieldNamed names field.1 with
  | none => s
  | some name =>
    match field.2 with
    | .null => s
    | .string text => { s with texts := Function.update s.texts name text }
    | _ => { s with failed := true }

def unmarshalStruct (p : Package) (names : List Bytes) (data : Bytes) : Option (Bytes → Bytes) :=
  match p.read data with
  | some .null => some fun _ => []
  | some (.object fields) =>
    let s := fields.foldl (setField names) {}
    if s.failed then none else some s.texts
  | _ => none

theorem widthAscii (ascii : a < 0x80) (rest) : width (a :: rest) = 1 := if_pos ascii

theorem coerceAscii (ascii : ∀ b ∈ s, b < 0x80) : coerce s = s := by
  induction s with
  | nil => rfl
  | cons _ _ ih =>
    obtain ⟨first,later⟩ := List.forall_mem_cons.mp ascii
    rw [coerce,coerceFrom,widthAscii first]
    exact congrArg _ (ih later)

theorem coerceName (ascii : ∀ b ∈ name, b < 0x80) : coerce k = name ↔ k = name := by
  refine ⟨fun eq => ?_,fun eq => by rw [eq,coerceAscii ascii]⟩
  induction k generalizing name with
  | nil => exact eq
  | cons a _ ih =>
    rw [coerce,coerceFrom] at eq
    by_cases plain : a < 0x80
    · rw [widthAscii plain] at eq
      cases eq
      exact congrArg _ (ih (List.forall_mem_cons.mp ascii).2 rfl)
    exfalso
    split at eq <;> subst eq
    · exact absurd (List.forall_mem_cons.mp ascii).1 (by decide)
    exact plain (List.forall_mem_cons.mp ascii).1

section
variable {fields : List (Bytes × Value)}

theorem toMapLookup (fields key) :
    (toMap fields).lookup key = ((fields.filter fun field => field.1 = key).getLast?).map Prod.snd := by
  induction fields using List.reverseRecOn with
  | nil => rfl
  | append_singleton fields field ih =>
    have step : toMap (fields ++ [field]) = (toMap fields).insert field.1 field.2 := by simp [toMap]
    rw [step]
    by_cases here : field.1 = key
    · subst here
      simp
    rw [AList.lookup_insert_ne (Ne.symm here),ih]
    simp [here]

theorem entryOf (m : Map Any) (name) :
    m.entries.filter (fun p => p.1 = name) = ((m.lookup name).map fun v => (⟨name,v⟩ : Sigma fun _ : Bytes => Any)).toList := by
  obtain ⟨entries,nodup⟩ := m
  show entries.filter _ = ((entries.dlookup name).map _).toList
  induction entries with
  | nil => rfl
  | cons p rest ih =>
    obtain ⟨new,nodup⟩ := List.nodupKeys_cons.mp nodup
    by_cases here : p.1 = name
    · obtain ⟨key,v⟩ := p
      subst here
      have none : rest.filter (fun p => p.1 = key) = [] := List.filter_eq_nil_iff.mpr fun q mem => by
          simpa using fun eq => new (List.mem_map.mpr ⟨q,mem,eq⟩)
      simp [none]
    rw [List.filter_cons_of_neg (by simpa using here),ih nodup,List.dlookup_cons_ne _ _ (Ne.symm here)]

theorem fieldOf (ascii : ∀ b ∈ name, b < 0x80) (m) : (fieldsOf m).filter (fun field => field.1 = name) =
      ((m.lookup name).map fun v => (name,v.back.getD .null)).toList := by
  have named : ∀ p ∈ m.entries, decide (coerce p.1 = name) = decide (p.1 = name) :=
    fun p _ => decide_eq_decide.mpr (coerceName ascii)
  rw [fieldsOf,List.filter_map,show ((fun field : Bytes × Value => decide (field.1 = name)) ∘
    fun p : Sigma (fun _ : Bytes => Any) => (coerce p.1,p.2.back.getD .null)) =
    fun p => decide (coerce p.1 = name) from rfl,List.filter_congr named,entryOf]
  cases m.lookup name with
  | none => rfl
  | some => simp [coerceAscii ascii]

theorem permUnique {α : Type} {list : List α} {x : Option α} (perm : list.Perm x.toList) : list = x.toList := by
  cases x with
  | none => exact List.Perm.eq_nil perm
  | some => exact List.perm_singleton.mp perm

theorem lookupBack (perm : fields.Perm (fieldsOf m)) (ascii : ∀ b ∈ name, b < 0x80) :
    (toMap fields).lookup name = (m.lookup name).map fun v => v.back.getD .null := by
  have eq := perm.filter fun field : Bytes × Value => field.1 = name
  rw [fieldOf ascii] at eq
  have only := permUnique eq
  rw [toMapLookup,only]
  cases m.lookup name <;> rfl

theorem unmarshalWritten (p) (fine : marshalable m = true) : ∃ raw : Map Value,
    (∀ name : Bytes, (∀ b ∈ name, b < 0x80) → raw.lookup name = (m.lookup name).map fun v => v.back.getD .null) ∧
    unmarshalMap p (p.write m) = if (fieldsOf m).all (fun field => field.2.readable) then some raw else none := by
  obtain ⟨fields,read,perm⟩ := p.readWrite m fine
  refine ⟨toMap fields,fun name ascii => lookupBack perm ascii,?_⟩
  rw [unmarshalMap,read,← perm.all_eq]

def Value.text : Value → Bytes
  | string s => s
  | _ => []

theorem setTexts (names) (texts : ∀ field ∈ fields, field.2 = .string field.2.text) :
    (fields.foldl (setField names) {}).failed = false ∧ ∀ name, (fields.foldl (setField names) {}).texts name =
      ((fields.filter fun field => fieldNamed names field.1 = some name).getLast?.map fun field => field.2.text).getD [] := by
  induction fields using List.reverseRecOn with
  | nil => exact ⟨rfl,fun _ => rfl⟩
  | append_singleton fields field ih =>
    obtain ⟨fine,set⟩ := ih fun other mem => texts other (List.mem_append_left _ mem)
    have text := texts field (List.mem_append_right _ (List.mem_singleton_self _))
    rw [List.foldl_append,List.foldl_cons,setField,text]
    cases named : fieldNamed names field.1 with
    | none => exact ⟨fine,fun name => by simp [set,named]⟩
    | some key =>
      refine ⟨fine,fun name => ?_⟩
      by_cases here : key = name
      · subst here
        simp [named]
      have elsewhere : (Function.update (fields.foldl (setField names) {}).texts key field.2.text) name =
          (fields.foldl (setField names) {}).texts name := Function.update_of_ne (Ne.symm here) _ _
      simp [named,here,set,elsewhere]
end

instance byteEncodable : Encodable UInt8 := Encodable.ofLeftInverse toNat ofNat fun _ => UInt8.ofNat_toNat

def Value.toSum : Value → Unit ⊕ Bytes ⊕ Option Rat ⊕ (Bytes × Bool)
  | null => .inl ()
  | string s => .inr (.inl s)
  | number float => .inr (.inr (.inl float))
  | composite text readable => .inr (.inr (.inr (text,readable)))

def Value.ofSum : Unit ⊕ Bytes ⊕ Option Rat ⊕ (Bytes × Bool) → Value
  | .inl _ => null
  | .inr (.inl s) => string s
  | .inr (.inr (.inl float)) => number float
  | .inr (.inr (.inr (text,readable))) => composite text readable
instance valueEncodable : Encodable Value :=
  Encodable.ofLeftInverse Value.toSum Value.ofSum fun v => by cases v <;> rfl

def numberText (n : Nat) : Bytes := (Nat.digits 256 n).map ofNat

theorem numberTextBack (n) : Nat.ofDigits 256 ((numberText n).map toNat) = n := by
  have eq : ((numberText n).map toNat) = Nat.digits 256 n := by
    rw [numberText,List.map_map]
    refine (List.map_congr_left fun d mem => ?_).trans (List.map_id _)
    exact UInt8.toNat_ofNat_of_lt' (Nat.digits_lt_base (by decide) mem)
  rw [eq,Nat.ofDigits_digits]

def numbered : Package where
  write m := numberText (Encodable.encode (fieldsOf m))
  read data := (Encodable.decode (Nat.ofDigits 256 (data.map toNat))).map .object
  readWrite m _ := ⟨fieldsOf m,by rw [numberTextBack,Encodable.encodek]; rfl,.refl _⟩

end Gofly.Json
