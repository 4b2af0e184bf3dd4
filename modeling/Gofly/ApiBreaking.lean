import Gofly.Governance
import Gofly.LastWins
/-! The breaking-change gate for API documents. A change is given by its kind and the data
its texts are made of; maps are gone through in the order of their tables. -/
namespace Gofly.ApiBreaking
open Governance
open LastWins

structure Field where
  name : Str
  type : Str
  tag : Str
  number : Int
  inline : Bool
  deriving DecidableEq

structure Message where
  name : Str
  fields : List Field
  deriving DecidableEq

structure EnumValue where
  name : Str
  number : Int
  deriving DecidableEq

structure Enum where
  name : Str
  values : List EnumValue
  deriving DecidableEq

structure Method where
  name : Str
  request : Str
  response : Str
  clientStream : Bool
  serverStream : Bool
  httpMethod : Str
  httpPath : Str
  deriving DecidableEq

-- of the server annotation only the route prefix is kept
structure Service where
  name : Str
  serverPrefix : Str
  methods : List Method
  deriving DecidableEq

structure Document where
  package : Str
  messages : List Message
  enums : List Enum
  services : List Service
  deriving DecidableEq

inductive Change where
  | packageRenamed (base target : Str)
  | typeRemoved (name : Str)
  | fieldRemoved (type name : Str)
  | fieldType (type name base target : Str)
  | fieldNumber (type name : Str) (base target : Int)
  | enumRemoved (name : Str)
  | enumValueRemoved (enum name : Str)
  | enumValueNumber (enum name : Str) (base target : Int)
  | serviceRemoved (name : Str) (methods : Nat)
  | methodRemoved (service name : Str)
  | request (service name base target : Str)
  | response (service name base target : Str)
  | streaming (service name : Str) (base target : Bool × Bool)
  | route (base target : Str × Str)
  | fieldAdded (type name : Str)
  | enumValueAdded (enum name : Str)
  | typeAdded (name : Str)
  | serviceAdded (name : Str) (methods : Nat)
  | methodAdded (service name : Str)

inductive Severity where
  | breaking
  | info
  deriving DecidableEq

def Change.severity : Change → Severity
  | .fieldAdded .. | .enumValueAdded .. | .typeAdded .. | .serviceAdded .. | .methodAdded .. => .info
  | _ => .breaking

section
variable [Letters]

def nameMark (c : Char) : Bool := c == '_' || c == '-' || c == '.' || c == '/'

def capitalize : Str → Str
  | [] => []
  | c :: rest => Letters.toUpper c :: rest

def exportName (s : Str) : Str :=
  let parts := (s.splitOnP nameMark).filter (· ≠ [])
  if parts = [] then ['X'] else parts.flatMap capitalize

def compareFields (type : Str) (base target : List Field) : List Change :=
  ((table Field.name base).flatMap fun (bf : Field) =>
    match lookup Field.name target bf.name with
    | none => [Change.fieldRemoved type bf.name]
    | some tf =>
      (if bf.type ≠ tf.type then [Change.fieldType type bf.name bf.type tf.type] else []) ++
      if 0 < bf.number ∧ 0 < tf.number ∧ bf.number ≠ tf.number then
        [Change.fieldNumber type bf.name bf.number tf.number] else []) ++
  (table Field.name target).flatMap fun tf =>
    if (lookup Field.name base tf.name).isNone then [Change.fieldAdded type tf.name] else []

def compareEnumValues (enum : Str) (base target : List EnumValue) : List Change :=
  ((table EnumValue.name base).flatMap fun bv =>
    match lookup EnumValue.name target bv.name with
    | none => [Change.enumValueRemoved enum bv.name]
    | some tv => if bv.number ≠ tv.number then [Change.enumValueNumber enum bv.name bv.number tv.number] else []) ++
  (table EnumValue.name target).flatMap fun tv =>
    if (lookup EnumValue.name base tv.name).isNone then [Change.enumValueAdded enum tv.name] else []

def messageKey (m : Message) : Str := exportName m.name
def enumKey (e : Enum) : Str := exportName e.name
def serviceKey (s : Service) : Str := exportName s.name
def methodKey (m : Method) : Str := exportName m.name

def compareMethod (service : Str) (bm tm : Method) : List Change :=
  let name := methodKey bm
  (if bm.request ≠ tm.request then [Change.request service name bm.request tm.request] else []) ++
  (if bm.response ≠ tm.response then [Change.response service name bm.response tm.response] else []) ++
  (if bm.clientStream ≠ tm.clientStream ∨ bm.serverStream ≠ tm.serverStream then
    [Change.streaming service name (bm.clientStream,bm.serverStream) (tm.clientStream,tm.serverStream)] else []) ++
  if (bm.httpMethod ≠ [] ∨ bm.httpPath ≠ []) ∧ (bm.httpMethod ≠ tm.httpMethod ∨ bm.httpPath ≠ tm.httpPath) then
    [Change.route (bm.httpMethod,bm.httpPath) (tm.httpMethod,tm.httpPath)] else []

def compareService (b t : Service) : List Change :=
  (table methodKey b.methods).flatMap fun bm =>
    match lookup methodKey t.methods (methodKey bm) with
    | none => [Change.methodRemoved (serviceKey b) (methodKey bm)]
    | some tm => compareMethod (serviceKey b) bm tm

def addedMethods (b t : Service) : List Change :=
  (table methodKey t.methods).flatMap fun tm =>
    if (lookup methodKey b.methods (methodKey tm)).isNone then [Change.methodAdded (serviceKey t) (methodKey tm)] else []

def packageChanges (base target : Document) : List Change :=
  if base.package ≠ [] ∧ target.package ≠ [] ∧ base.package ≠ target.package then
    [Change.packageRenamed base.package target.package] else []

def typeChanges (base target : Document) : List Change :=
  (table messageKey base.messages).flatMap fun b =>
    match lookup messageKey target.messages (messageKey b) with
    | none => [Change.typeRemoved (messageKey b)]
    | some t => compareFields (messageKey b) b.fields t.fields

def enumChanges (base target : Document) : List Change :=
  (table enumKey base.enums).flatMap fun b =>
    match lookup enumKey target.enums (enumKey b) with
    | none => [Change.enumRemoved (enumKey b)]
    | some t => compareEnumValues (enumKey b) b.values t.values

def removedServices (base target : Document) : List Change :=
  (table serviceKey base.services).flatMap fun b =>
    if (lookup serviceKey target.services (serviceKey b)).isNone then
      [Change.serviceRemoved (serviceKey b) b.methods.length] else []

def methodChanges (base target : Document) : List Change :=
  (table serviceKey base.services).flatMap fun b =>
    match lookup serviceKey target.services (serviceKey b) with
    | none => []
    | some t => compareService b t

def addedTypes (base target : Document) : List Change :=
  (table messageKey target.messages).flatMap fun t =>
    if (lookup messageKey base.messages (messageKey t)).isNone then [Change.typeAdded (messageKey t)] else []

def addedServices (base target : Document) : List Change :=
  (table serviceKey target.services).flatMap fun t =>
    match lookup serviceKey base.services (serviceKey t) with
    | none => [Change.serviceAdded (serviceKey t) t.methods.length]
    | some b => addedMethods b t

def reportIDLChanges (base target : Document) : List Change :=
  packageChanges base target ++ typeChanges base target ++ enumChanges base target ++
    removedServices base target ++ methodChanges base target ++ addedTypes base target ++ addedServices base target

def hasBreaking (changes : List Change) : Bool := changes.any fun c => c.severity = .breaking
end

/-! What the gate is to guard: full route paths, and the names of fields on the wire. -/

section
variable [Letters]

def lowerCamel (s : Str) : Str :=
  match exportName s with
  | [] => []
  | c :: rest => Letters.toLower c :: rest

inductive WireKey where
  | json
  | path
  | form
  deriving DecidableEq

def WireKey.text : WireKey → Str
  | .json => "json".toList
  | .path => "path".toList
  | .form => "form".toList

def doubleQuote : Char := Char.ofNat 34
def backslash : Char := Char.ofNat 92
def tabulator : Char := Char.ofNat 9

def quotedRest : Str → Option (Str × Str)
  | [] => none
  | c :: rest =>
    if c = doubleQuote then some ([c],rest)
    else if c = backslash then
      match rest with
      | [] => none
      | d :: rest => (quotedRest rest).map fun found => (c :: d :: found.1,found.2)
    else (quotedRest rest).map fun found => (c :: found.1,found.2)

def consumeAPIQuotedTagValue : Str → Option (Str × Str)
  | [] => none
  | c :: rest => if c = doubleQuote then (quotedRest rest).map fun found => (c :: found.1,found.2) else none

-- unquote stands for strconv.Unquote; the fuel is the length of the tag
def lookupStructTag (unquote : Str → Option Str) (target : Str) : Nat → Str → Option Str
  | 0,_ => none
  | fuel + 1,tag =>
    let tag := tag.dropWhile fun c => c = ' ' || c = tabulator
    let key := tag.takeWhile (· ≠ ':')
    match tag.drop key.length with
    | [] => none
    | _ :: value =>
      if key = [] then none
      else
        match consumeAPIQuotedTagValue value with
        | none => none
        | some (quoted,remaining) =>
          if key = target then unquote quoted else lookupStructTag unquote target fuel remaining

def splitGoZeroAPITagParts : (depth : Nat) → (part : Str) → Str → Option (List Str)
  | depth,part,[] => if depth = 0 then some [trimSpace part] else none
  | depth,part,c :: rest =>
    if c = '[' || c = '(' then splitGoZeroAPITagParts (depth + 1) (part ++ [c]) rest
    else if c = ']' || c = ')' then
      if depth = 0 then none else splitGoZeroAPITagParts (depth - 1) (part ++ [c]) rest
    else if c = ',' && depth = 0 then (splitGoZeroAPITagParts 0 [] rest).map (trimSpace part :: ·)
    else splitGoZeroAPITagParts depth (part ++ [c]) rest

def apiFieldWireName (unquote : Str → Option Str) (field : Field) (key : WireKey) : Option Str :=
  match lookupStructTag unquote key.text (field.tag.length + 1) field.tag with
  | none => none
  | some raw =>
    match splitGoZeroAPITagParts 0 [] raw with
    | none | some [] => none
    | some (first :: _) =>
      let name := trimSpace first
      if name = ['-'] then none else some (if name = [] then lowerCamel field.name else name)

/-- A field without a tag is written with its own name in lower camel case. An inline field
has no name of its own. -/
def wireNames (unquote : Str → Option Str) (field : Field) : List (WireKey × Str) :=
  if field.inline then []
  else if trimSpace field.tag = [] then [(.json,lowerCamel field.name)]
  else [.json,.path,.form].filterMap fun key => (apiFieldWireName unquote field key).map (key,·)

def bracedParam : Str → Str
  | ':' :: c :: rest => '{' :: c :: rest ++ ['}']
  | part => part

def normalizeAPIRoutePath (path : Str) : Str := Text.join '/' ((path.splitOn '/').map bracedParam)
def rooted (path : Str) : Str := if path.head? = some '/' then path else '/' :: path

def openAPIServicePath (svc : Service) (path : Str) : Str :=
  let path := normalizeAPIRoutePath path
  let start := (trimSpace svc.serverPrefix).rdropWhile (· == '/')
  if start = [] ∨ (start ++ ['/']).isPrefixOf path = true ∨ path = start then path
  else rooted start ++ rooted path
end

section
variable [Letters] (unquote : Str → Option Str) (base target : Document)

def RouteIn (s : Service) (m : Method) : Prop :=
  ∃ t ∈ target.services, ∃ n ∈ t.methods, n.httpMethod = m.httpMethod ∧
    openAPIServicePath t n.httpPath = openAPIServicePath s m.httpPath ∧ n.request = m.request ∧ n.response = m.response

def WireIn (b : Message) (f : Field) (w : WireKey × Str) : Prop :=
  ∃ t ∈ target.messages, messageKey t = messageKey b ∧ ∃ g ∈ t.fields, w ∈ wireNames unquote g ∧ g.type = f.type
def ValueIn (e : Enum) (v : EnumValue) : Prop := ∃ t ∈ target.enums, enumKey t = enumKey e ∧ v ∈ t.values

/-- Everything of base that its clients rely on is still there in target. -/
structure Preserved : Prop where
  routes : ∀ s ∈ base.services, ∀ m ∈ s.methods, RouteIn target s m
  types : ∀ b ∈ base.messages, ∃ t ∈ target.messages, messageKey t = messageKey b
  wires : ∀ b ∈ base.messages, ∀ f ∈ b.fields, ∀ w ∈ wireNames unquote f, WireIn unquote target b f w
  values : ∀ e ∈ base.enums, ∀ v ∈ e.values, ValueIn target e v

def Stays (s : Service) (m : Method) : Prop :=
  s ∈ table serviceKey base.services ∧ m ∈ table methodKey s.methods ∧
    ∃ t n, lookup serviceKey target.services (serviceKey s) = some t ∧
      lookup methodKey t.methods (methodKey m) = some n ∧ n.httpMethod = m.httpMethod ∧
      openAPIServicePath t n.httpPath = openAPIServicePath s m.httpPath

def Carries (b : Message) (f : Field) (w : WireKey × Str) : Prop :=
  b ∈ table messageKey base.messages ∧ f ∈ table Field.name b.fields ∧
    ∃ t g, lookup messageKey target.messages (messageKey b) = some t ∧
      lookup Field.name t.fields f.name = some g ∧ w ∈ wireNames unquote g

def Listed (e : Enum) (v : EnumValue) : Prop := e ∈ table enumKey base.enums ∧ v ∈ table EnumValue.name e.values

structure Kept : Prop where
  routes : ∀ s ∈ base.services, ∀ m ∈ s.methods, ¬ Stays base target s m → RouteIn target s m
  wires : ∀ b ∈ base.messages, ∀ f ∈ b.fields, ∀ w ∈ wireNames unquote f, ¬ Carries unquote base target b f w →
    WireIn unquote target b f w
  values : ∀ e ∈ base.enums, ∀ v ∈ e.values, ¬ Listed base e v → ValueIn target e v

structure SameMethod (m n : Method) : Prop where
  request : m.request = n.request
  response : m.response = n.response
  clientStream : m.clientStream = n.clientStream
  serverStream : m.serverStream = n.serverStream
  route : m.httpMethod ≠ [] ∨ m.httpPath ≠ [] → m.httpMethod = n.httpMethod ∧ m.httpPath = n.httpPath

structure SameField (f g : Field) : Prop where
  type : f.type = g.type
  number : 0 < f.number → 0 < g.number → f.number = g.number

structure Agree : Prop where
  package : base.package ≠ [] → target.package ≠ [] → base.package = target.package
  types : ∀ b ∈ table messageKey base.messages, ∃ t, lookup messageKey target.messages (messageKey b) = some t ∧
    ∀ f ∈ table Field.name b.fields, ∃ g, lookup Field.name t.fields f.name = some g ∧ SameField f g
  enums : ∀ e ∈ table enumKey base.enums, ∃ t, lookup enumKey target.enums (enumKey e) = some t ∧
    ∀ v ∈ table EnumValue.name e.values, ∃ u, lookup EnumValue.name t.values v.name = some u ∧ v.number = u.number
  services : ∀ s ∈ table serviceKey base.services, ∃ t, lookup serviceKey target.services (serviceKey s) = some t ∧
    ∀ m ∈ table methodKey s.methods, ∃ n, lookup methodKey t.methods (methodKey m) = some n ∧ SameMethod m n
end

/-! A quiet list of changes has no breaking one. -/

def Quiet (changes : List Change) : Prop := ∀ c ∈ changes, c.severity ≠ .breaking

theorem quietReport : hasBreaking changes = false ↔ Quiet changes := by simp [hasBreaking,Quiet]

theorem quietAppend : Quiet (a ++ b) ↔ Quiet a ∧ Quiet b := by
  simp only [Quiet,List.mem_append,or_imp,forall_and]

theorem quietOver {α : Type} {list : List α} {f : α → List Change} :
    Quiet (list.flatMap f) ↔ ∀ x ∈ list, Quiet (f x) := by
  simp only [Quiet,List.mem_flatMap,forall_exists_index,and_imp]
  exact ⟨fun all x mem c got => all c x mem got,fun all c x mem got => all x mem c got⟩

theorem quietUnless [Decidable p] (loud : c.severity = .breaking) : Quiet (if p then [c] else []) ↔ ¬ p := by
  split <;> simp_all [Quiet]

theorem quietInfo [Decidable p] (info : c.severity = .info) : Quiet (if p then [c] else []) := by
  split <;> simp_all [Quiet]

theorem loudOne (loud : c.severity = .breaking) : ¬ Quiet [c] := by simp [Quiet,loud]

theorem fieldsQuiet : Quiet (compareFields type bs ts) ↔
      ∀ f ∈ table Field.name bs, ∃ g, lookup Field.name ts f.name = some g ∧ SameField f g := by
  have added : Quiet ((table Field.name ts).flatMap fun tf =>
      if (lookup Field.name bs tf.name).isNone then [.fieldAdded type tf.name] else []) :=
    quietOver.mpr fun tf _ => quietInfo rfl
  rw [compareFields,quietAppend,quietOver,and_iff_left added]
  refine forall₂_congr fun f _ => ?_
  cases got : lookup Field.name ts f.name with
  | none => simpa using loudOne rfl
  | some g =>
    simp only [quietAppend]
    rw [quietUnless rfl,quietUnless rfl]
    refine ⟨fun ⟨types,numbers⟩ => ⟨g,rfl,not_not.mp types,fun p q => ?_⟩,fun ⟨h,eq,alike⟩ => ?_⟩
    · by_contra other
      exact numbers ⟨p,q,other⟩
    cases eq
    exact ⟨not_not.mpr alike.type,fun ⟨p,q,other⟩ => other (alike.number p q)⟩

theorem valuesQuiet : Quiet (compareEnumValues enum bs ts) ↔
      ∀ v ∈ table EnumValue.name bs, ∃ u, lookup EnumValue.name ts v.name = some u ∧ v.number = u.number := by
  have added : Quiet ((table EnumValue.name ts).flatMap fun tv =>
      if (lookup EnumValue.name bs tv.name).isNone then [.enumValueAdded enum tv.name] else []) :=
    quietOver.mpr fun tv _ => quietInfo rfl
  rw [compareEnumValues,quietAppend,quietOver,and_iff_left added]
  refine forall₂_congr fun v _ => ?_
  cases got : lookup EnumValue.name ts v.name with
  | none => simpa using loudOne rfl
  | some u =>
    rw [quietUnless rfl]
    simp

theorem fieldsSelf (type fields) : compareFields type fields fields = [] := by
  rw [compareFields,List.append_eq_nil_iff,List.flatMap_eq_nil_iff,List.flatMap_eq_nil_iff]
  constructor <;> intro f mem <;> simp [tableIff.mp mem]

theorem valuesSelf (enum values) : compareEnumValues enum values values = [] := by
  rw [compareEnumValues,List.append_eq_nil_iff,List.flatMap_eq_nil_iff,List.flatMap_eq_nil_iff]
  constructor <;> intro v mem <;> simp [tableIff.mp mem]

section
variable [Letters]

theorem methodQuiet : Quiet (compareMethod service m n) ↔ SameMethod m n := by
  simp only [compareMethod,quietAppend]
  rw [quietUnless rfl,quietUnless rfl,quietUnless rfl,quietUnless rfl]
  constructor
  · rintro ⟨⟨⟨request,response⟩,streams⟩,route⟩
    rw [not_or,not_not,not_not] at streams
    refine ⟨not_not.mp request,not_not.mp response,streams.1,streams.2,fun given => ?_⟩
    have alike : ¬ (m.httpMethod ≠ n.httpMethod ∨ m.httpPath ≠ n.httpPath) := fun differ => route ⟨given,differ⟩
    rwa [not_or,not_not,not_not] at alike
  intro eq
  refine ⟨⟨⟨not_not.mpr eq.request,not_not.mpr eq.response⟩,?_⟩,fun ⟨given,differ⟩ => ?_⟩
  · rw [not_or,not_not,not_not]
    exact ⟨eq.clientStream,eq.serverStream⟩
  exact differ.elim (· (eq.route given).1) (· (eq.route given).2)

theorem serviceQuiet : Quiet (compareService b t) ↔
    ∀ m ∈ table methodKey b.methods, ∃ n, lookup methodKey t.methods (methodKey m) = some n ∧ SameMethod m n := by
  rw [compareService,quietOver]
  refine forall₂_congr fun m _ => ?_
  cases got : lookup methodKey t.methods (methodKey m) with
  | none => simpa using loudOne rfl
  | some n => simp [methodQuiet]

theorem additionsQuiet : Quiet (addedTypes base target) ∧ Quiet (addedServices base target) := by
  refine ⟨quietOver.mpr fun t _ => quietInfo rfl,quietOver.mpr fun t _ => ?_⟩
  split
  · simp [Quiet,Change.severity]
  exact quietOver.mpr fun tm _ => quietInfo rfl

theorem reportExact : hasBreaking (reportIDLChanges base target) = false ↔ Agree base target := by
  rw [quietReport,reportIDLChanges]
  simp only [quietAppend,additionsQuiet,and_true]
  rw [packageChanges,quietUnless rfl,typeChanges,quietOver,enumChanges,quietOver,removedServices,quietOver,
    methodChanges,quietOver]
  constructor
  · rintro ⟨⟨⟨⟨package,types⟩,enums⟩,removed⟩,methods⟩
    refine ⟨fun p q => ?_,fun b mem => ?_,fun e mem => ?_,fun s mem => ?_⟩
    · by_contra other
      exact package ⟨p,q,other⟩
    · have quiet := types b mem
      cases got : lookup messageKey target.messages (messageKey b) with
      | none => simp only [got] at quiet; exact absurd quiet (loudOne rfl)
      | some t => simp only [got] at quiet; exact ⟨t,rfl,fieldsQuiet.mp quiet⟩
    · have quiet := enums e mem
      cases got : lookup enumKey target.enums (enumKey e) with
      | none => simp only [got] at quiet; exact absurd quiet (loudOne rfl)
      | some t => simp only [got] at quiet; exact ⟨t,rfl,valuesQuiet.mp quiet⟩
    have still := removed s mem
    have quiet := methods s mem
    cases got : lookup serviceKey target.services (serviceKey s) with
    | none => simp [got,Quiet,Change.severity] at still
    | some t => simp only [got] at quiet; exact ⟨t,rfl,serviceQuiet.mp quiet⟩
  intro agree
  refine ⟨⟨⟨⟨fun ⟨p,q,other⟩ => other (agree.package p q),fun b mem => ?_⟩,fun e mem => ?_⟩,
    fun s mem => ?_⟩,fun s mem => ?_⟩
  · obtain ⟨t,got,fields⟩ := agree.types b mem
    simp only [got]
    exact fieldsQuiet.mpr fields
  · obtain ⟨t,got,values⟩ := agree.enums e mem
    simp only [got]
    exact valuesQuiet.mpr values
  · obtain ⟨t,got,_⟩ := agree.services s mem
    simp [got,Quiet]
  obtain ⟨t,got,eq⟩ := agree.services s mem
  simp only [got]
  exact serviceQuiet.mpr eq

theorem preservedKept (agree : Agree base target) : Preserved unquote base target ↔ Kept unquote base target := by
  constructor
  · intro preserved
    exact ⟨fun s mem m got _ => preserved.routes s mem m got,
      fun b mem f got w has _ => preserved.wires b mem f got w has,
      fun e mem v got _ => preserved.values e mem v got⟩
  intro kept
  refine ⟨fun s mem m got => ?_,fun b mem => ?_,fun b mem f got w has => ?_, fun e mem v got => ?_⟩
  · by_cases stays : Stays base target s m
    · obtain ⟨named,called,t,n,service,method,verb,path⟩ := stays
      obtain ⟨t',service',methods⟩ := agree.services s named
      cases service.symm.trans service'
      obtain ⟨n',method',eq⟩ := methods m called
      cases method.symm.trans method'
      exact ⟨t,lookupMem service,n,lookupMem method,verb,path,eq.request.symm, eq.response.symm⟩
    · exact kept.routes s mem m got stays
  · obtain ⟨b',last⟩ := lookupSome messageKey mem
    obtain ⟨t,there,_⟩ := agree.types b' (lookupTable last)
    exact ⟨t,lookupMem there,(lookupKey there).trans (lookupKey last)⟩
  · by_cases carries : Carries unquote base target b f w
    · obtain ⟨named,called,t,g,type,field,wire⟩ := carries
      obtain ⟨t',type',fields⟩ := agree.types b named
      cases type.symm.trans type'
      obtain ⟨g',field',eq⟩ := fields f called
      cases field.symm.trans field'
      exact ⟨t,lookupMem type,lookupKey type,g,lookupMem field,wire,eq.type.symm⟩
    · exact kept.wires b mem f got w has carries
  by_cases ith : Listed base e v
  · obtain ⟨t,there,values⟩ := agree.enums e ith.1
    obtain ⟨u,value,number⟩ := values v ith.2
    have eq : u = v := by
      cases u
      cases v
      simpa using ⟨lookupKey value,number.symm⟩
    exact ⟨t,lookupMem there,lookupKey there,eq ▸ lookupMem value⟩
  exact kept.values e mem v got ith

theorem servicesSelf (s) : compareService s s = [] ∧ addedMethods s s = [] := by
  rw [compareService,addedMethods,List.flatMap_eq_nil_iff,List.flatMap_eq_nil_iff]
  constructor <;> intro m mem <;> simp [tableIff.mp mem,compareMethod]

theorem reportSelf (d) : reportIDLChanges d d = [] := by
  simp only [reportIDLChanges,List.append_eq_nil_iff,typeChanges,enumChanges,removedServices,methodChanges,
    addedTypes,addedServices,List.flatMap_eq_nil_iff]
  refine ⟨⟨⟨⟨⟨⟨by simp [packageChanges],?_⟩,?_⟩,?_⟩,?_⟩,?_⟩,?_⟩ <;> intro x mem <;>
    simp [tableIff.mp mem,fieldsSelf,valuesSelf,servicesSelf]

/-- A silent gate means that nothing clients rely on is lost exactly when the documents keep what
it leaves out. -/
theorem gateSoundExact (unquote : Str → Option Str) (base target : Document) :
    ((hasBreaking (reportIDLChanges base target) = false → Preserved unquote base target) ↔
      (Agree base target → Kept unquote base target)) ∧ ∀ d, reportIDLChanges d d = [] := by
  refine ⟨?_,reportSelf⟩
  rw [reportExact]
  exact ⟨fun sound agree => (preservedKept agree).mp (sound agree),
    fun keeps agree => (preservedKept agree).mpr (keeps agree)⟩
end

def unquotePlain (quoted : Str) : Option Str := some (quoted.drop 1).dropLast
def jsonTag (name : Str) : Str := "json:".toList ++ doubleQuote :: name ++ [doubleQuote]
def getMethod (name path : Str) : Method := ⟨name,[],['A'],false,false,"GET".toList,path⟩

def sample (wire start : Str) (first : List Service) : Document :=
  ⟨[],[⟨['A'],[⟨['N'],"string".toList,jsonTag wire,0,false⟩]⟩],[],
    first ++ [⟨['u'],start,[getMethod ['p'] ['/','p']]⟩]⟩

def earlier : Service := ⟨['u'],['/','w'],[getMethod ['q'] ['/','q']]⟩
def sampleBase : Document := sample ['n'] ['/','v'] [earlier]
def sampleTarget : Document := sample ['m'] ['/','x'] []

theorem lossesUnreported :
    let _ := asciiLetters
    hasBreaking (reportIDLChanges sampleBase sampleTarget) = false ∧
      ¬ RouteIn sampleTarget ⟨['u'],['/','v'],[getMethod ['p'] ['/','p']]⟩ (getMethod ['p'] ['/','p']) ∧
      ¬ RouteIn sampleTarget earlier (getMethod ['q'] ['/','q']) ∧
      ¬ WireIn unquotePlain sampleTarget ⟨['A'],[⟨['N'],"string".toList,jsonTag ['n'],0,false⟩]⟩
        ⟨['N'],"string".toList,jsonTag ['n'],0,false⟩ (.json,['n']) ∧
      ¬ Preserved unquotePlain sampleBase sampleTarget := by
  intro letters
  have lost : ¬ RouteIn sampleTarget earlier (getMethod ['q'] ['/','q']) := by
    unfold RouteIn
    decide +kernel
  refine ⟨by decide +kernel,?_,lost,?_,fun preserved => lost ?_⟩
  · unfold RouteIn
    decide +kernel
  · unfold WireIn
    decide +kernel
  exact preserved.routes earlier (by decide +kernel) _ (by decide +kernel)

end Gofly.ApiBreaking
