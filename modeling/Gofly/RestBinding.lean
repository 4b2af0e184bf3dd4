import Mathlib.Data.List.Infix
import Gofly.GatewayOpenapi
import Gofly.Outcome
/-! Binding of a request to a struct, as BindRequest and BindGoZeroRequest do it. -/
namespace Gofly.Rest
open Governance Outcome Gateway

inductive BindSource where
  | query
  | path
  | header
  deriving DecidableEq

inductive ScalarKind where
  | string
  | bool
  | int (bits : Nat)
  | uint (bits : Nat)
  | float (bits : Nat)
  | unsupported
  deriving DecidableEq

inductive Kind where
  | scalar (kind : ScalarKind)
  | slice (kind : ScalarKind)
  | pointer (kind : Kind)
  deriving DecidableEq

inductive Value (S : Type) where
  | scalar (value : S)
  | slice (values : List S)
  | pointer (target : Value S)
  | null
  deriving DecidableEq

/-- What the binders use of the standard library: strconv, the JSON assignment of a field,
fmt.Sprint and a value as a float. -/
structure Codec (S R : Type) where
  parse : ScalarKind → Str → Except Str S
  assign : Kind → R → Value S → Except Str (Value S)
  print : Value S → Str
  number : Value S → Option Float64
  parseFloat : Str → Option Float64

structure StructField where
  name : Str
  exported : Bool
  depth : Nat
  inside : List Nat
  kind : Kind
  path : Option Str
  query : Option Str
  form : Option Str
  header : Option Str
  json : Option Str
  deriving DecidableEq

structure Leaf (S : Type) where
  info : StructField
  value : Value S
  deriving DecidableEq

structure Target (S : Type) where
  leaves : List (Leaf S)
  allocated : List Nat
  deriving DecidableEq

inductive TagErr where
  | unbalanced
  | conditionalOptional
  | emptyDefault
  | emptyOptions
  | invalidRange (raw : Str)
  deriving DecidableEq

inductive BindErr where
  | bind (source : BindSource) (field fault : Str)
  | parseForm (fault : Str)
  | decodeJSON (fault : Str)
  | inspectJSON
  | invalidTag (field tag : Str) (fault : TagErr)
  | applyDefault (field fault : Str)
  | validation (field rule : Str)
  | rangeUnsupported (field : Str)
  | validator (fault : Str)
  deriving DecidableEq

structure Request (R : Type) where
  method : Str
  hasBody : Bool
  contentLength : Int
  contentType : Str
  body : Except Str (List (Str × R))
  trailing : Bool
  pathValue : Str → Str
  query : Str → List Str
  form : Except Str (List (Str × List Str))
  header : Str → List Str

variable {S R : Type}

def StructField.tag (f : StructField) : BindSource → Option Str
  | .query => f.query
  | .path => f.path
  | .header => f.header

def bindingName (f : StructField) (source : BindSource) : Option Str :=
  let tag := (f.tag source).getD []
  if tag = ['-'] then none
  else
    let tag := if tag = [] ∧ source = .query then f.form.getD [] else tag
    let name := tag.takeWhile (· != ',')
    if name = [] then none else some name

def setFieldValue (codec : Codec S R) : Kind → List Str → Except Str (Value S)
  | .pointer kind,values => (setFieldValue codec kind values).map .pointer
  | .slice kind,values => (values.mapM (codec.parse kind)).map .slice
  | .scalar kind,values => (codec.parse kind (values.getLast?.getD [])).map .scalar

def sourceValues (source : BindSource) (lookup : Str → List Str) (f : StructField) : List Str :=
  if f.exported then
    match bindingName f source with
    | none => []
    | some name => lookup name
  else []

def bindField (codec : Codec S R) (source : BindSource) (lookup : Str → List Str) (f : StructField) (v : Value S) :
    Except BindErr (Value S) :=
  match sourceValues source lookup f with
  | [] => .ok v
  | values => (setFieldValue codec f.kind values).mapError (.bind source f.name)

def each (write : Nat → StructField → Value S → Except BindErr (Value S)) :
    Nat → List (Leaf S) → Except BindErr (List (Leaf S))
  | _,[] => .ok []
  | i,leaf :: rest =>
    (write i leaf.info leaf.value).bind fun v =>
      (each write (i + 1) rest).map ({ leaf with value := v } :: ·)

-- the embedded pointers around a field that has values are set before the field is
def suppliedPointers (source : BindSource) (lookup : Str → List Str) (infos : List StructField) : List Nat :=
  infos.flatMap fun f => if sourceValues source lookup f = [] then [] else f.inside

def Target.infos (t : Target S) : List StructField := t.leaves.map Leaf.info

def bindValues (codec : Codec S R) (source : BindSource) (lookup : Str → List Str) (t : Target S) :
    Except BindErr (Target S) :=
  (each (fun _ => bindField codec source lookup) 0 t.leaves).map fun leaves =>
    ⟨leaves,t.allocated ++ suppliedPointers source lookup t.infos⟩

def jsonTagName (f : StructField) : Str := (f.json.getD []).takeWhile (· != ',')

def jsonName (f : StructField) : Option Str :=
  if !f.exported || f.json = some ['-'] then none
  else some (if jsonTagName f = [] then f.name else jsonTagName f)

-- of the fields of one name the shallowest counts, then the only one with a tag, else none
def dominated (infos : List StructField) (i : Nat) (f : StructField) : Bool :=
  infos.zipIdx.any fun (g,j) =>
    j != i && jsonName g == jsonName f &&
      (g.depth < f.depth || g.depth == f.depth && (jsonTagName f == [] || jsonTagName g != []))

section
variable [Letters]

def jsonField (infos : List StructField) (key : Str) : Option Nat :=
  let known := infos.zipIdx.filter fun (f,i) => (jsonName f).isSome && !dominated infos i f
  match known.find? fun (f,_) => jsonName f = some key with
  | some (_,i) => some i
  | none => (known.find? fun (f,_) => equalFold ((jsonName f).getD []) key).map Prod.snd

def assignMembers (codec : Codec S R) (infos : List StructField) (i : Nat) (f : StructField) :
    List (Str × R) → Value S → Except Str (Value S)
  | [],v => .ok v
  | (key,raw) :: rest,v =>
    if jsonField infos key = some i then
      (codec.assign f.kind raw v).bind (assignMembers codec infos i f rest)
    else assignMembers codec infos i f rest v

def assignedPointers (infos : List StructField) (members : List (Str × R)) : List Nat :=
  members.flatMap fun member => match (jsonField infos member.1).bind (infos[·]?) with
    | none => []
    | some f => f.inside

def decodeMembers (codec : Codec S R) (members : List (Str × R)) (t : Target S) : Except BindErr (Target S) :=
  match members.find? fun member => (jsonField t.infos member.1).isNone with
  | some member => .error (.decodeJSON ("json: unknown field ".toList ++ member.1))
  | none =>
    (each (fun i f v => (assignMembers codec t.infos i f members v).mapError .decodeJSON) 0 t.leaves).map fun leaves =>
      ⟨leaves,t.allocated ++ assignedPointers t.infos members⟩

def decodeJSON (codec : Codec S R) (r : Request R) (t : Target S) : Except BindErr (Target S) :=
  match r.body with
  | .error fault => .error (.decodeJSON fault)
  | .ok members => decodeMembers codec members t
end

def pathLookup (r : Request R) (key : Str) : List Str := if r.pathValue key = [] then [] else [r.pathValue key]

def validateWith (validator : Target S → Option Str) (t : Target S) : Except BindErr (Target S) :=
  match validator t with
  | none => .ok t
  | some fault => .error (.validator fault)

def bindBody [Letters] (codec : Codec S R) (r : Request R) (t : Target S) : Except BindErr (Target S) :=
  if r.hasBody ∧ r.method ≠ Gateway.methodGet then decodeJSON codec r t else .ok t

def bindRequest [Letters] (codec : Codec S R) (validator : Target S → Option Str) (r : Request R) (t : Target S) :
    Except BindErr (Target S) := do
  let t ← bindBody codec r t
  let t ← bindValues codec .path (pathLookup r) t
  let t ← bindValues codec .query r.query t
  let t ← bindValues codec .header r.header t
  validateWith validator t

structure NumberRange where
  left : Option Float64
  right : Option Float64
  leftInclude : Bool
  rightInclude : Bool
  deriving DecidableEq

structure FieldOptions where
  optional : Bool := false
  defaultSet : Bool := false
  defaultValue : Str := []
  options : List Str := []
  rangeRule : Option NumberRange := none
  deriving DecidableEq

def less : Float64 → Float64 → Bool
  | .finite a,.finite b => a < b
  | .finite _,.infinite negative => !negative
  | .infinite negative,.finite _ => negative
  | .infinite a,.infinite b => a && !b
  | _,_ => false

def same (a b : Float64) : Bool := !a.isNaN && a = b

def splitGoZeroTagParts : Str → Nat → Str → List Str → Except TagErr (List Str)
  | [],depth,part,parts => if depth ≠ 0 then .error .unbalanced else .ok (parts ++ [trimSpace part])
  | c :: rest,depth,part,parts =>
    if c = '[' ∨ c = '(' then splitGoZeroTagParts rest (depth + 1) (part ++ [c]) parts
    else if c = ']' ∨ c = ')' then
      if depth = 0 then .error .unbalanced else splitGoZeroTagParts rest (depth - 1) (part ++ [c]) parts
    else if c = ',' ∧ depth = 0 then splitGoZeroTagParts rest 0 [] (parts ++ [trimSpace part])
    else splitGoZeroTagParts rest depth (part ++ [c]) parts

def parseBound (codec : Codec S R) (raw text : Str) : Except TagErr (Option Float64) :=
  if trimSpace text = [] then .ok none
  else match codec.parseFloat (trimSpace text) with
    | none => .error (.invalidRange raw)
    | some value => .ok (some value)

def parseGoZeroNumberRange (codec : Codec S R) (raw : Str) : Except TagErr NumberRange :=
  let inner := (raw.drop 1).dropLast
  let leftText := inner.takeWhile (· != ':')
  let rightText := (inner.dropWhile (· != ':')).drop 1
  if raw.length < 3 ∨ ¬(raw.head? = some '[' ∨ raw.head? = some '(') ∨
      ¬(raw.getLast? = some ']' ∨ raw.getLast? = some ')') then .error (.invalidRange raw)
  else if ':' ∉ inner ∨ trimSpace leftText = [] ∧ trimSpace rightText = [] then .error (.invalidRange raw)
  else do
    let left ← parseBound codec raw leftText
    let right ← parseBound codec raw rightText
    let rule : NumberRange := ⟨left,right,raw.head? = some '[',raw.getLast? = some ']'⟩
    match left, right with
    | some low,some high =>
      if less high low ∨ same low high ∧ ¬(rule.leftInclude ∧ rule.rightInclude) then .error (.invalidRange raw)
      else .ok rule
    | _,_ => .ok rule

def readOption (codec : Codec S R) (opts : FieldOptions) (option : Str) : Except TagErr FieldOptions :=
  if option = "optional".toList then .ok { opts with optional := true }
  else if "optional=".toList.isPrefixOf option then .error .conditionalOptional
  else if "default=".toList.isPrefixOf option then
    if option.drop 8 = [] then .error .emptyDefault
    else .ok { opts with defaultSet := true,defaultValue := option.drop 8 }
  else if "options=".toList.isPrefixOf option then
    let values := trimSpace (option.drop 8)
    let listed :=
      if values.head? = some '[' ∧ values.getLast? = some ']' then
        ((trimSpace (values.drop 1).dropLast).splitOn ',').filter (· ≠ [])
      else values.splitOn '|'
    if values = [] ∨ listed = [] then .error .emptyOptions else .ok { opts with options := listed }
  else if "range=".toList.isPrefixOf option then
    (parseGoZeroNumberRange codec (option.drop 6)).map fun rule => { opts with rangeRule := some rule }
  else .ok opts

def parseGoZeroFieldTag (codec : Codec S R) (raw : Str) : Except TagErr (Str × FieldOptions) := do
  let parts ← splitGoZeroTagParts raw 0 [] []
  let opts ← parts.tail.foldlM (readOption codec) {}
  .ok (parts.headD [],opts)

def checkOptions (codec : Codec S R) (f : StructField) (v : Value S) (options : List Str) : Except BindErr Unit :=
  if options = [] ∨ options.any (codec.print v = trimSpace ·) then .ok ()
  else .error (.validation f.name ("options=".toList ++ Text.join '|' options))

def checkRange (codec : Codec S R) (f : StructField) (v : Value S) : Option NumberRange → Except BindErr Unit
  | none => .ok ()
  | some rule =>
    match codec.number v with
    | none => .error (.rangeUnsupported f.name)
    | some actual =>
      if rule.left.any (fun low => less actual low || !rule.leftInclude && same actual low) ∨
          rule.right.any (fun high => less high actual || !rule.rightInclude && same actual high) then
        .error (.validation f.name "range".toList)
      else .ok ()

def applyGoZeroFieldOptions (codec : Codec S R) (f : StructField) (v : Value S) (present : Bool) (o : FieldOptions) :
    Except BindErr (Value S) :=
  if !present && !o.defaultSet then
    if o.optional then .ok v else .error (.validation f.name "required".toList)
  else do
    let v ← if present then .ok v else (setFieldValue codec f.kind [o.defaultValue]).mapError (.applyDefault f.name)
    checkOptions codec f v o.options
    checkRange codec f v o.rangeRule
    .ok v

def applyTag (codec : Codec S R) (label : Str) (raw : Option Str) (present : Str → Bool) (allocated : List Nat)
    (f : StructField) (v : Value S) : Except BindErr (Value S) :=
  if !f.exported || f.inside.any (· ∉ allocated) then .ok v
  else match raw with
    | none => .ok v
    | some raw =>
      match parseGoZeroFieldTag codec raw with
      | .error fault => .error (.invalidTag f.name label fault)
      | .ok (name,o) =>
        if name = ['-'] then .ok v
        else applyGoZeroFieldOptions codec f v (present (if name = [] then f.name else name)) o

def sourceLabel : BindSource → Str
  | .query => "query".toList
  | .path => "path".toList
  | .header => "header".toList

def goZeroSourceTag (f : StructField) : BindSource → Option Str
  | .query => f.query.or f.form
  | .path => f.path
  | .header => f.header

def applySourceTag (codec : Codec S R) (source : BindSource) (lookup : Str → List Str) (allocated : List Nat)
    (f : StructField) : Value S → Except BindErr (Value S) :=
  applyTag codec (sourceLabel source) (goZeroSourceTag f source) (fun name => lookup name ≠ []) allocated f

def applyGoZeroSourceTags (codec : Codec S R) (source : BindSource) (lookup : Str → List Str) (t : Target S) :
    Except BindErr (Target S) :=
  (each (fun _ => applySourceTag codec source lookup t.allocated) 0 t.leaves).map fun leaves => { t with leaves }

section
variable [Letters]

def lookupJSONField (members : List (Str × R)) (name : Str) : Bool :=
  members.any fun member => member.1 = name || equalFold member.1 name

def applyJSONTag (codec : Codec S R) (members : List (Str × R)) (allocated : List Nat) (f : StructField) :
    Value S → Except BindErr (Value S) :=
  applyTag codec "json".toList f.json (lookupJSONField members) allocated f

def applyGoZeroJSONTags (codec : Codec S R) (members : List (Str × R)) (t : Target S) : Except BindErr (Target S) :=
  (each (fun _ => applyJSONTag codec members t.allocated) 0 t.leaves).map fun leaves => { t with leaves }
end

def formLookup (r : Request R) (form : List (Str × List Str)) (key : Str) : List Str :=
  ((if form = [] then r.query key else (form.lookup key).getD []).filter (· ≠ []))

def carriesJSON (r : Request R) : Bool :=
  r.hasBody && 0 < r.contentLength && decide ("application/json".toList <:+: r.contentType)

def bindGoZeroSource (codec : Codec S R) (source : BindSource) (lookup : Str → List Str) (t : Target S) :
    Except BindErr (Target S) := do
  let t ← bindValues codec source lookup t
  applyGoZeroSourceTags codec source lookup t

def bindGoZeroBody [Letters] (codec : Codec S R) (r : Request R) (t : Target S) :
    Except BindErr (Target S × List (Str × R)) :=
  if carriesJSON r then
    match r.body with
    | .error fault => .error (.decodeJSON fault)
    | .ok members => do
      let t ← decodeMembers codec members t
      if r.trailing then .error .inspectJSON else .ok (t,members)
  else .ok (t,[])

def bindGoZeroRequest [Letters] (codec : Codec S R) (validator : Target S → Option Str) (r : Request R) (t : Target S) :
    Except BindErr (Target S) := do
  let t ← bindGoZeroSource codec .path (pathLookup r) t
  match r.form with
  | .error fault => .error (.parseForm fault)
  | .ok form =>
    let t ← bindGoZeroSource codec .query (formLookup r form) t
    let t ← bindGoZeroSource codec .header r.header t
    let (t,members) ← bindGoZeroBody codec r t
    let t ← applyGoZeroJSONTags codec members t
    validateWith validator t

structure Passed (write : Nat → StructField → Value S → Except BindErr (Value S)) (more : List Nat)
    (t next : Target S) : Prop where
  infos : next.infos = t.infos
  pointers : next.allocated = t.allocated ++ more
  written : ∀ i f v, t.leaves[i]? = some ⟨f,v⟩ → ∃ w, write i f v = .ok w ∧ next.leaves[i]? = some ⟨f,w⟩


theorem eachInfos (ok : each write k leaves = .ok done) : done.map Leaf.info = leaves.map Leaf.info := by
  induction leaves generalizing k done with
  | nil => cases ok; rfl
  | cons _ _ ih =>
    obtain ⟨v,_,ok⟩ := bindOk.mp ok
    obtain ⟨rest,tail,rfl⟩ := mapOk.mp ok
    simp [ih tail]

theorem eachWritten (ok : each write k leaves = .ok done) (got : leaves[i]? = some ⟨f,v⟩) :
    ∃ w, write (k + i) f v = .ok w ∧ done[i]? = some ⟨f,w⟩ := by
  induction leaves generalizing k i done with
  | nil => simp at got
  | cons _ _ ih =>
    obtain ⟨first,wrote,ok⟩ := bindOk.mp ok
    obtain ⟨rest,tail,rfl⟩ := mapOk.mp ok
    cases i with
    | zero =>
      cases got
      exact ⟨first,wrote,rfl⟩
    | succ =>
      obtain ⟨w,wrote,got⟩ := ih tail got
      exact ⟨w,by rw [← wrote]; congr 1; omega,got⟩

theorem eachPassed (added) (ok : each write 0 t.leaves = .ok leaves) :
    Passed write added t ⟨leaves,t.allocated ++ added⟩ := by
  refine ⟨eachInfos ok,rfl,fun i f v got => ?_⟩
  simpa using eachWritten ok got

theorem bindValuesPassed (ok : bindValues codec source lookup t = .ok next) :
    Passed (fun _ => bindField codec source lookup) (suppliedPointers source lookup t.infos) t next := by
  obtain ⟨leaves,made,rfl⟩ := mapOk.mp ok
  exact eachPassed _ made

theorem sourceTagsPassed (ok : applyGoZeroSourceTags codec source lookup t = .ok next) :
    Passed (fun _ => applySourceTag codec source lookup t.allocated) [] t next := by
  obtain ⟨leaves,made,rfl⟩ := mapOk.mp ok
  simpa using eachPassed [] made

section
variable [Letters]

theorem jsonTagsPassed (ok : applyGoZeroJSONTags codec members t = .ok next) :
    Passed (fun _ => applyJSONTag codec members t.allocated) [] t next := by
  obtain ⟨leaves,made,rfl⟩ := mapOk.mp ok
  simpa using eachPassed [] made

def assignField (codec : Codec S R) (infos : List StructField) (members : List (Str × R)) (i : Nat) (f : StructField)
    (v : Value S) : Except BindErr (Value S) :=
  (assignMembers codec infos i f members v).mapError .decodeJSON

theorem decodePassed (ok : decodeMembers codec members t = .ok next) :
    Passed (assignField codec t.infos members) (assignedPointers t.infos members) t next := by
  unfold decodeMembers at ok
  split at ok <;> try contradiction
  obtain ⟨leaves,made,rfl⟩ := mapOk.mp ok
  exact eachPassed _ made

theorem unreadPassed : Passed (assignField codec t.infos []) (assignedPointers t.infos ([] : List (Str × R))) t t := by
  refine ⟨rfl,by simp [assignedPointers],fun i f v got => ⟨v,?_,got⟩⟩
  simp [assignField,assignMembers,Except.mapError]

def readMembers (r : Request R) : List (Str × R) :=
  if carriesJSON r then
    match r.body with
    | .error _ => []
    | .ok members => members
  else []

theorem bodyPassed (ok : bindGoZeroBody codec r t = .ok (next,members)) : members = readMembers r ∧
      Passed (assignField codec t.infos members) (assignedPointers t.infos members) t next := by
  unfold bindGoZeroBody at ok
  unfold readMembers
  split at ok
  case isTrue carried =>
    rw [if_pos carried]
    split at ok <;> try contradiction
    obtain ⟨decoded,made,ok⟩ := bindOk.mp ok
    split at ok <;> cases ok
    exact ⟨rfl,decodePassed made⟩
  case isFalse carried =>
    cases ok
    exact ⟨by rw [if_neg carried],unreadPassed⟩
end

def requestLookup (r : Request R) : BindSource → Str → List Str
  | .path => pathLookup r
  | .query => r.query
  | .header => r.header

def goZeroLookup (r : Request R) (form : List (Str × List Str)) : BindSource → Str → List Str
  | .path => pathLookup r
  | .query => formLookup r form
  | .header => r.header

def BindSource.later : BindSource → List BindSource
  | .path => [.query,.header]
  | .query => [.header]
  | .header => []

def Settled (codec : Codec S R) (raw : Option Str) (present : Str → Bool) (f : StructField) : Bool :=
  (raw.bind fun text => (parseGoZeroFieldTag codec text).toOption).all fun (name,o) =>
    !o.defaultSet || name = ['-'] || present (if name = [] then f.name else name)

/-- Nothing that BindGoZeroRequest reads once the source has had its turn is meant for field `i`. -/
structure Untouched [Letters] (codec : Codec S R) (r : Request R) (form : List (Str × List Str)) (t : Target S) (i : Nat)
    (f : StructField) (source : BindSource) : Prop where
  sources : ∀ other ∈ source.later, sourceValues other (goZeroLookup r form other) f = []
  tags : ∀ other ∈ source :: source.later,
    Settled codec (goZeroSourceTag f other) (fun name => goZeroLookup r form other name ≠ []) f = true
  members : ∀ member ∈ readMembers r, jsonField t.infos member.1 ≠ some i
  json : Settled codec f.json (lookupJSONField (readMembers r)) f = true

def Supplies (lookup : Str → List Str) (source : BindSource) (f : StructField) : Prop :=
  ∃ value ∈ sourceValues source lookup f, value ≠ []

def Held (codec : Codec S R) (lookup : Str → List Str) (source : BindSource) (i : Nat) (f : StructField)
    (final : Target S) : Prop :=
  ∃ v, setFieldValue codec f.kind (sourceValues source lookup f) = .ok v ∧ final.leaves[i]? = some ⟨f,v⟩

theorem suppliedSet (supplied : Supplies lookup source f) (bound : bindField codec source lookup f v = .ok w) :
    setFieldValue codec f.kind (sourceValues source lookup f) = .ok w := by
  obtain ⟨value,mem,_⟩ := supplied
  unfold bindField at bound
  split at bound
  case h_1 none => simp [none] at mem
  case h_2 => exact mapErrorOk.mp bound

theorem unsupplied (none : sourceValues source lookup f = []) (bound : bindField codec source lookup f v = .ok w) : w = v := by
  simp only [bindField,none] at bound
  exact (Except.ok.inj bound).symm

theorem checkedSame (ok : applyGoZeroFieldOptions codec f v present o = .ok w) (kept : o.defaultSet = false ∨ present = true) :
    w = v := by
  unfold applyGoZeroFieldOptions at ok
  split at ok
  · split at ok <;> cases ok
    rfl
  rename_i given
  have here : present = true := by
    cases kept <;> simp_all
  rw [if_pos here] at ok
  obtain ⟨same,set,ok⟩ := bindOk.mp ok
  obtain ⟨_,_,ok⟩ := bindOk.mp ok
  obtain ⟨_,_,ok⟩ := bindOk.mp ok
  cases set
  exact (Except.ok.inj ok).symm

theorem settledSame (settled : Settled codec raw present f = true) (ok : applyTag codec label raw present allocated f v = .ok w) :
    w = v := by
  unfold applyTag at ok
  split at ok
  · exact (Except.ok.inj ok).symm
  split at ok
  · exact (Except.ok.inj ok).symm
  split at ok
  · cases ok
  rename_i read
  simp only [Settled,Option.bind_some,read,Except.toOption,Option.all_some,Bool.or_eq_true,Bool.not_eq_true',
    decide_eq_true_eq] at settled
  split at ok
  · exact (Except.ok.inj ok).symm
  rename_i named
  exact checkedSame ok (settled.imp_left fun either => either.resolve_right named)

theorem unassigned [Letters] {members : List (Str × R)} (none : ∀ member ∈ members, jsonField infos member.1 ≠ some i)
    (ok : assignField codec infos members i f v = .ok w) : w = v := by
  have ok := mapErrorOk.mp ok
  induction members with
  | nil => exact (Except.ok.inj ok).symm
  | cons member rest ih =>
    obtain ⟨first,later⟩ := List.forall_mem_cons.mp none
    rw [assignMembers,if_neg first] at ok
    exact ih later (mapErrorOk.mpr ok) ok

theorem validateSame (ok : validateWith validator t = .ok next) : next = t := by
  unfold validateWith at ok
  split at ok <;> try contradiction
  exact (Except.ok.inj ok).symm

theorem goZeroSource (ok : bindGoZeroSource codec source lookup t = .ok next) :
    next.infos = t.infos ∧ next.allocated = t.allocated ++ suppliedPointers source lookup t.infos ∧
      ∀ (i : Nat) (f : StructField) (v : Value S), t.leaves[i]? = some ⟨f,v⟩ →
        ∃ w u, bindField codec source lookup f v = .ok w ∧
          applySourceTag codec source lookup (t.allocated ++ suppliedPointers source lookup t.infos) f w = .ok u ∧
          next.leaves[i]? = some ⟨f,u⟩ := by
  obtain ⟨bound,values,tags⟩ := bindOk.mp ok
  have passed := bindValuesPassed values
  have tagged := sourceTagsPassed tags
  refine ⟨tagged.infos.trans passed.infos,by simpa [passed.pointers] using tagged.pointers,fun i f v got => ?_⟩
  obtain ⟨w,wrote,got⟩ := passed.written i f v got
  obtain ⟨u,applied,got⟩ := tagged.written i f w got
  exact ⟨w,u,wrote,passed.pointers ▸ applied,got⟩

section
variable [Letters]
variable {i : Nat}

theorem requestStages (ok : bindRequest codec validator r t = .ok final) (got : t.leaves[i]? = some ⟨f,start⟩) :
    ∃ old onPath onQuery onHeader, bindField codec .path (pathLookup r) f old = .ok onPath ∧
      bindField codec .query r.query f onPath = .ok onQuery ∧
      bindField codec .header r.header f onQuery = .ok onHeader ∧ final.leaves[i]? = some ⟨f,onHeader⟩ := by
  obtain ⟨read,body,ok⟩ := bindOk.mp ok
  obtain ⟨pathed,path,ok⟩ := bindOk.mp ok
  obtain ⟨queried,query,ok⟩ := bindOk.mp ok
  obtain ⟨headed,header,ok⟩ := bindOk.mp ok
  cases validateSame ok
  have decoded : ∃ old, read.leaves[i]? = some ⟨f,old⟩ := by
    unfold bindBody at body
    split at body
    · unfold decodeJSON at body
      split at body <;> try contradiction
      obtain ⟨v,_,got⟩ := (decodePassed body).written i f start got
      exact ⟨v,got⟩
    cases body
    exact ⟨start,got⟩
  obtain ⟨old,got⟩ := decoded
  obtain ⟨onPath,first,got⟩ := (bindValuesPassed path).written i f old got
  obtain ⟨onQuery,second,got⟩ := (bindValuesPassed query).written i f onPath got
  obtain ⟨onHeader,third,got⟩ := (bindValuesPassed header).written i f onQuery got
  exact ⟨old,onPath,onQuery,onHeader,first,second,third,got⟩

theorem requestHeld (ok : bindRequest codec validator r t = .ok final) (got : t.leaves[i]? = some ⟨f,start⟩)
    (supplied : Supplies (requestLookup r source) source f)
    (alone : ∀ other ∈ source.later, sourceValues other (requestLookup r other) f = []) :
    Held codec (requestLookup r source) source i f final := by
  obtain ⟨old,onPath,onQuery,onHeader,first,second,third,got⟩ := requestStages ok got
  cases source with
  | path =>
    cases unsupplied (alone .query (by decide)) second
    cases unsupplied (alone .header (by decide)) third
    exact ⟨_,suppliedSet supplied first,got⟩
  | query =>
    cases unsupplied (alone .header (by decide)) third
    exact ⟨_,suppliedSet supplied second,got⟩
  | header => exact ⟨_,suppliedSet supplied third,got⟩

theorem goZeroHeld (parsed : r.form = .ok form) (ok : bindGoZeroRequest codec validator r t = .ok final)
    (got : t.leaves[i]? = some ⟨f,start⟩) (supplied : Supplies (goZeroLookup r form source) source f)
    (untouched : Untouched codec r form t i f source) : Held codec (goZeroLookup r form source) source i f final := by
  obtain ⟨pathed,path,ok⟩ := bindOk.mp ok
  simp only [parsed] at ok
  obtain ⟨queried,query,ok⟩ := bindOk.mp ok
  obtain ⟨headed,header,ok⟩ := bindOk.mp ok
  obtain ⟨⟨read,members⟩,body,ok⟩ := bindOk.mp ok
  obtain ⟨tagged,tags,ok⟩ := bindOk.mp ok
  cases validateSame ok
  obtain ⟨pathInfos,pathPointers,pathAt⟩ := goZeroSource path
  obtain ⟨queryInfos,queryPointers,queryAt⟩ := goZeroSource query
  obtain ⟨headerInfos,headerPointers,headerAt⟩ := goZeroSource header
  obtain ⟨rfl,bodyPass⟩ := bodyPassed body
  have tagPass := jsonTagsPassed tags
  obtain ⟨onPath,pathTagged,bound1,tag1,got⟩ := pathAt i f start got
  obtain ⟨onQuery,queryTagged,bound2,tag2,got⟩ := queryAt i f pathTagged got
  obtain ⟨onHeader,headerTagged,bound3,tag3,got⟩ := headerAt i f queryTagged got
  obtain ⟨decoded,assigned,got⟩ := bodyPass.written i f headerTagged got
  obtain ⟨last,tag4,got⟩ := tagPass.written i f decoded got
  have infos : headed.infos = t.infos := headerInfos.trans (queryInfos.trans pathInfos)
  obtain ⟨sources,tags,members,json⟩ := untouched
  cases settledSame json tag4
  cases unassigned (infos ▸ members) assigned
  cases source with
  | path =>
    cases settledSame (tags .header (by decide)) tag3
    cases unsupplied (sources .header (by decide)) bound3
    cases settledSame (tags .query (by decide)) tag2
    cases unsupplied (sources .query (by decide)) bound2
    cases settledSame (tags .path (by decide)) tag1
    exact ⟨_,suppliedSet supplied bound1,got⟩
  | query =>
    cases settledSame (tags .header (by decide)) tag3
    cases unsupplied (sources .header (by decide)) bound3
    cases settledSame (tags .query (by decide)) tag2
    exact ⟨_,suppliedSet supplied bound2,got⟩
  | header =>
    cases settledSame (tags .header (by decide)) tag3
    exact ⟨_,suppliedSet supplied bound3,got⟩
end

def texts : Codec Str Str where
  parse
    | .string,text => .ok text
    | _,_ => .error "unsupported kind".toList
  assign
    | .scalar .string,raw,_ => .ok (.scalar raw)
    | _,_,_ => .error "unsupported kind".toList
  print
    | .scalar text => text
    | _ => []
  number _ := none
  parseFloat _ := none

def idField : StructField where
  name := ['I','D']
  exported := true
  depth := 0
  inside := []
  kind := .scalar .string
  path := some ['i','d']
  query := none
  form := none
  header := none
  json := none

def blank : Target Str := ⟨[⟨idField,.scalar []⟩],[]⟩

def forged : Request Str where
  method := Gateway.methodPost
  hasBody := true
  contentLength := 11
  contentType := "application/json".toList
  body := .ok [(['i','d'],['9','9'])]
  trailing := false
  pathValue key := if key = ['i','d'] then ['7'] else []
  query _ := []
  form := .ok []
  header _ := []

end Gofly.Rest
