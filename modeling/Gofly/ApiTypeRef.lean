import Gofly.Governance
import Gofly.Outcome
/-! The type expressions of API files: the recursive descent that reads them, and the text
a tree is printed as. -/
namespace Gofly.ApiTypeRef
open Governance
open Outcome

inductive Ref where
  | named (name : Str)
  | pointer (elem : Ref)
  | slice (elem : Ref)
  | map (key elem : Ref)
  deriving DecidableEq

def Ref.string : Ref → Str
  | .named name => name
  | .pointer elem => '*' :: elem.string
  | .slice elem => '[' :: ']' :: elem.string
  | .map key elem => 'm' :: 'a' :: 'p' :: '[' :: (key.string ++ ']' :: elem.string)

def Ref.baseNames : Ref → List Str
  | .named name => [name]
  | .pointer elem | .slice elem => elem.baseNames
  | .map key elem => key.baseNames ++ elem.baseNames

inductive Cause where
  | nameless -- type name is required
  | unopened -- map key opening bracket is required
  | unsupported (key : Str) -- unsupported map key type
  | unclosed -- map key closing bracket is required
  | suffix (rest : Str) -- unexpected suffix
  deriving DecidableEq

def isAPIMapKeyType (name : Str) : Bool :=
  ["string","bool","byte","rune","int","int8","int16","int32","int64","uint","uint8","uint16",
    "uint32","uint64"].any (·.toList == name)

def Ref.isKey : Ref → Bool
  | .named name => isAPIMapKeyType name
  | _ => false

def nameChar (c : Char) : Bool := c.isAlphanum || c == '_' || c == '.' || c == '{' || c == '}'
def skipSpaces (s : Str) : Str := s.dropWhile fun c => c == ' ' || c == Char.ofNat 9
def consume (value s : Str) : Option Str := value.isPrefixOf? s

def parseName (s : Str) : Str × Str :=
  let s := skipSpaces s
  (s.takeWhile nameChar,s.dropWhile nameChar)

def parseMap (parse : Str → Except Cause (Ref × Str)) (s : Str) : Except Cause (Ref × Str) :=
  match consume ['['] (skipSpaces s) with
  | none => .error .unopened
  | some s => (parse s).bind fun (key,s) =>
    if key.isKey then
      match consume [']'] (skipSpaces s) with
      | none => .error .unclosed
      | some s => (parse s).map fun (elem,s) => (.map key elem,s)
    else .error (.unsupported key.string)

def keyword : Str := ['m','a','p']

-- the fuel bounds the nesting of the calls, each of which consumes a character
def parse : (fuel : Nat) → Str → Except Cause (Ref × Str)
  | 0,_ => .error .nameless
  | fuel + 1,s =>
    let s := skipSpaces s
    match consume ['*'] s,consume ['[',']'] s,consume keyword s with
    | some s,_,_ => (parse fuel s).map fun (elem,s) => (.pointer elem,s)
    | none,some s,_ => (parse fuel s).map fun (elem,s) => (.slice elem,s)
    | none,none,some s => parseMap (parse fuel) s
    | none,none,none =>
      let (name,s) := parseName s
      if name = [] then .error .nameless else .ok (.named name,s)

def parseAPITypeRef (fuel : Nat) (raw : Str) : Except Cause Ref :=
  (parse fuel (trimSpace raw)).bind fun (ref,s) =>
    let s := skipSpaces s
    if s = [] then .ok ref else .error (.suffix s)

/-- What the descent can return: names it reads whole, none taken for the keyword. -/
def Ref.Plain : Ref → Prop
  | .named name => name ≠ [] ∧ name.all nameChar = true ∧ ¬keyword <+: name
  | .pointer elem | .slice elem => elem.Plain
  | .map key elem => key.isKey = true ∧ elem.Plain

variable {ref : Ref} {s rest : Str}
theorem consumed : consume value s = some rest ↔ value ++ rest = s := List.isPrefixOf?_eq_some_iff_append_eq

theorem consumeNone : consume value s = none ↔ ¬value <+: s := by
  rw [Option.eq_none_iff_forall_ne_some]
  exact ⟨fun none ⟨rest,eq⟩ => none rest (consumed.mpr eq),fun other rest took => other ⟨rest,consumed.mp took⟩⟩

theorem keyPlain (key : ref.isKey = true) : ref.Plain := by
  cases ref with
  | named =>
    simp only [Ref.isKey,isAPIMapKeyType,List.any_eq_true,beq_iff_eq] at key
    obtain ⟨known,mem,rfl⟩ := key
    simp only [Ref.Plain]
    revert known
    decide
  | _ => contradiction

theorem parsePlain (ok : parse n s = .ok (ref,rest)) : ref.Plain := by
  induction n generalizing s ref rest with
  | zero => contradiction
  | succ n ih =>
    simp only [parse] at ok
    split at ok
    case h_1 | h_2 =>
      obtain ⟨_,inner,eq⟩ := mapOk.mp ok
      cases eq
      exact (ih inner :)
    · unfold parseMap at ok
      split at ok <;> try contradiction
      obtain ⟨_,_,ok⟩ := bindOk.mp ok
      simp only at ok
      split at ok <;> try contradiction
      split at ok <;> try contradiction
      obtain ⟨_,inner,eq⟩ := mapOk.mp ok
      cases eq
      exact ⟨‹_›,ih inner⟩
    rename_i other
    split at ok <;> cases ok
    -- the name starts where the keyword was not found
    refine ⟨‹_›,List.all_takeWhile,fun start => consumeNone.mp other ?_⟩
    simp only [parseName,skipSpaces,List.dropWhile_idempotent _ _] at start
    exact start.trans (List.takeWhile_prefix _)

theorem nameEnds (all : name.all nameChar = true) (stop : ∀ c, rest.head? = some c → nameChar c = false) :
    (name ++ rest).takeWhile nameChar = name ∧ (name ++ rest).dropWhile nameChar = rest := by
  have every := List.all_eq_true.mp all
  rw [List.takeWhile_append_of_pos every,List.dropWhile_append_of_pos every]
  cases rest with
  | nil => simp
  | cons c _ => simp [stop c rfl]

theorem nameStart (is : nameChar c = true) : c ≠ ' ' ∧ c ≠ Char.ofNat 9 ∧ '*' ≠ c ∧ '[' ≠ c := by
  refine ⟨?_,?_,?_,?_⟩ <;>
  · rintro rfl
    exact absurd is (by decide)

theorem parseNamed (plain : (Ref.named name).Plain) (stop : ∀ c, rest.head? = some c → nameChar c = false) :
    parse (n + 1) (name ++ rest) = .ok (.named name,rest) := by
  obtain ⟨full,every,other⟩ := plain
  obtain ⟨front,back⟩ := nameEnds every stop
  have word : consume keyword (name ++ rest) = none := by
    refine consumeNone.mpr fun ⟨_,eq⟩ => other ?_
    rw [← eq,List.takeWhile_append_of_pos (List.all_eq_true.mp (by decide))] at front
    exact ⟨_,front⟩
  have marks : skipSpaces (name ++ rest) = name ++ rest ∧ consume ['*'] (name ++ rest) = none ∧
      consume ['[',']'] (name ++ rest) = none := by
    obtain ⟨c,_,rfl⟩ := List.exists_cons_of_ne_nil full
    simp [skipSpaces,consume,List.isPrefixOf?,nameStart (List.all_eq_true.mp every c List.mem_cons_self)]
  simp only [parse,parseName,marks,word,front,back,if_neg full]

theorem parsePrinted (plain : ref.Plain) (stop : ∀ c, rest.head? = some c → nameChar c = false)
    (more : ref.string.length < n) : parse n (ref.string ++ rest) = .ok (ref,rest) := by
  induction ref generalizing n rest with
  | named =>
    obtain ⟨k,rfl⟩ := Nat.exists_eq_add_of_lt more
    exact parseNamed plain stop
  | pointer elem ih | slice elem ih =>
    obtain ⟨k,rfl⟩ := Nat.exists_eq_add_of_lt more
    show (parse _ (elem.string ++ rest)).map _ = _
    rw [ih plain stop (by simp only [Ref.string,List.length_cons]; omega)]
    rfl
  | map key elem first second =>
    obtain ⟨k,rfl⟩ := Nat.exists_eq_add_of_lt more
    simp only [Ref.string,List.length_cons,List.length_append,List.cons_append,List.append_assoc]
    show (parse _ (key.string ++ ']' :: (elem.string ++ rest))).bind _ = _
    rw [first (keyPlain plain.1) (by simp; decide) (by omega)]
    show (if key.isKey = true then (parse _ (elem.string ++ rest)).map _ else _) = _
    rw [if_pos plain.1,second plain.2 stop (by omega)]
    rfl

theorem printedVisible (plain : ref.Plain) : ∀ c ∈ ref.string, Discovery.isSpace c = false := by
  induction ref with
  | named =>
    intro c mem
    have is : nameChar c = true := List.all_eq_true.mp plain.2.1 c mem
    unfold nameChar Char.isAlphanum Char.isAlpha Char.isUpper Char.isLower Char.isDigit at is
    simp [UInt32.le_iff_toNat_le,← Char.toNat_inj] at is
    simp [Discovery.isSpace]
    omega
  | pointer _ ih => exact List.forall_mem_cons.mpr ⟨by decide,ih plain⟩
  | slice _ ih => exact List.forall_mem_cons.mpr ⟨by decide,List.forall_mem_cons.mpr ⟨by decide,ih plain⟩⟩
  | map _ _ first second =>
    simp only [Ref.string,List.forall_mem_cons,List.forall_mem_append]
    exact ⟨by decide,by decide,by decide,by decide,first (keyPlain plain.1),by decide,second plain.2⟩

theorem readBack (plain : ref.Plain) (more : ref.string.length < n) : parseAPITypeRef n ref.string = .ok ref := by
  have visible := printedVisible plain
  have whole : trimSpace ref.string = ref.string := Text.trimSelf
    ⟨fun c first => visible c (List.mem_of_head? first),fun c last => visible c (List.mem_of_getLast? last)⟩
  have read : parse n (ref.string ++ []) = _ := parsePrinted plain (by simp) more
  rw [List.append_nil] at read
  rw [parseAPITypeRef,whole,read]
  rfl

theorem acceptedPlain (ok : parseAPITypeRef n raw = .ok ref) : ref.Plain := by
  obtain ⟨_,read,ok⟩ := bindOk.mp ok
  simp only at ok
  split at ok <;> cases ok
  exact parsePlain read

theorem plainNames (plain : ref.Plain) : ∀ name ∈ ref.baseNames, ¬keyword <+: name := by
  induction ref with
  | named => exact List.forall_mem_singleton.mpr plain.2.2
  | pointer _ ih | slice _ ih => exact ih plain
  | map _ _ first second => exact List.forall_mem_append.mpr ⟨first (keyPlain plain.1),second plain.2⟩

/-- Maps with a supported key, and names of letters, digits and underscores that start with a
letter and are not the keyword itself. -/
def Ref.wellNamed : Ref → Bool
  | .named name => name.head?.any Char.isAlpha && name.all (fun c => c.isAlphanum || c == '_') && name != keyword
  | .pointer elem | .slice elem => elem.wellNamed
  | .map key elem => key.isKey && elem.wellNamed

theorem wellPlain (well : ref.wellNamed = true) (names : ∀ name ∈ ref.baseNames, ¬keyword <+: name) : ref.Plain := by
  induction ref with
  | named name =>
    simp only [Ref.wellNamed,Bool.and_eq_true,List.all_eq_true] at well
    refine ⟨?_,List.all_eq_true.mpr fun c mem => ?_,names name List.mem_cons_self⟩
    · rintro rfl
      simp at well
    simp only [nameChar,Bool.or_eq_true] at well ⊢
    exact .inl (.inl (.inl (well.1.2 c mem)))
  | pointer _ ih | slice _ ih => exact ih well names
  | map _ _ _ ih =>
    rw [Ref.wellNamed,Bool.and_eq_true] at well
    exact ⟨well.1,ih well.2 (List.forall_mem_append.mp names).2⟩

theorem typeTexts (ref : Ref) (fuel : Nat) (more : ref.string.length < fuel) :
    (ref.wellNamed = true → (parseAPITypeRef fuel ref.string = .ok ref ↔ ∀ name ∈ ref.baseNames, ¬keyword <+: name)) ∧
    ∀ n raw, parseAPITypeRef n raw = .ok ref → parseAPITypeRef fuel ref.string = .ok ref :=
  ⟨fun well => ⟨fun ok => plainNames (acceptedPlain ok),fun names => readBack (wellPlain well names) more⟩,
    fun _ _ ok => readBack (acceptedPlain ok) more⟩

theorem nestedBack : parseAPITypeRef 20 "map[string][]*Name".toList =
    .ok (.map (.named "string".toList) (.slice (.pointer (.named "Name".toList)))) :=
  ((typeTexts (.map (.named "string".toList) (.slice (.pointer (.named "Name".toList)))) 20 (by decide)).1
    (by decide)).mpr (by decide)

-- the keyword is taken off the front of the name
theorem mappingRefused : (Ref.named "mapping".toList).wellNamed = true ∧
    ∀ fuel, parseAPITypeRef (fuel + 1) (Ref.named "mapping".toList).string = .error .unopened :=
  ⟨by decide,fun _ => rfl⟩

end Gofly.ApiTypeRef
