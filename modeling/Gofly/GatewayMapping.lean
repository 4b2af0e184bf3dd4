import Gofly.FieldTree
import Gofly.Governance
/-! Payload mappings: paths of names joined by dots, a name marked as an array by brackets
behind it. The validator and the evaluator read them each in its own way. -/
namespace Gofly.Gateway.Mapping
open Governance
open Text
open FieldTree
open List (mem_cons mem_cons_of_mem mem_cons_self)

variable {σ : Type}

inductive MappingErr where
  | required (label : Str)
  | root (label path : Str)
  | emptySegment (label path : Str)
  | sourceRoot (path : Str)
  | sourceEmptySegment (path : Str)
  | targetEmptySegment (path : Str)
  | targetEmptyArray (path : Str)
  | targetTerminal (path : Str)
  | targetConflict (path : Str)
  deriving DecidableEq

structure TranscodePayloadMapping (σ : Type) where
  source : Str
  target : Str
  default : Value Str σ

structure TranscodePayloadSource (σ : Type) where
  body : Value Str σ
  path : Fields Str σ
  query : Fields Str σ
  header : Fields Str σ

def brackets : Str := ['[',']']
def roots : List Str := ["body".toList,"path".toList,"query".toList,"header".toList]

def validateTranscodeMappingPath (label path : Str) (allowEmptySource source : Bool) : Option MappingErr :=
  let path := trimSpace path
  if path = [] then if allowEmptySource then none else some (.required label)
  else
    let parts := path.splitOn '.'
    if source && !roots.contains (trimSuffix brackets (trimSpace (parts.headD []))) then some (.root label path)
    else if parts.any fun part => trimSpace (trimSuffix brackets part) = [] then some (.emptySegment label path)
    else none

def validateTranscodePayloadMappings (kind : Str) : List (TranscodePayloadMapping σ) → Option MappingErr
  | [] => none
  | mapping :: rest =>
    match validateTranscodeMappingPath (kind ++ " source".toList) mapping.source true true with
    | some err => some err
    | none =>
      match validateTranscodeMappingPath (kind ++ " target".toList) mapping.target false false with
      | some err => some err
      | none => validateTranscodePayloadMappings kind rest

def arrayValue (current : Value Str σ) (name : Str) : Option (Value Str σ) :=
  if name = [] ∨ name = "body".toList then some current
  else
    match current with
    | .object fields => get name fields
    | _ => none

def transcodeMappingValueAtPath (original : Str) : List Str → Value Str σ → Except MappingErr (Option (Value Str σ))
  | [],current => .ok (some current)
  | part :: rest,current =>
    let part := trimSpace part
    if part = [] then .error (.sourceEmptySegment original)
    else if brackets.isSuffixOf part then
      match arrayValue current (trimSuffix brackets part) with
      | some (.list items) =>
        if rest = [] then .ok (some (.list items))
        else
          match items.mapM fun item => transcodeMappingValueAtPath original rest item with
          | .error err => .error err
          | .ok found => .ok (some (.list (found.filterMap id)))
      | _ => .ok none
    else
      match current with
      | .object fields =>
        match get part fields with
        | some value => transcodeMappingValueAtPath original rest value
        | none => .ok none
      | _ => .ok none

def rootValue (source : TranscodePayloadSource σ) (root : Str) : Option (Value Str σ) :=
  if root = "body".toList then some source.body
  else if root = "path".toList then some (.object source.path)
  else if root = "query".toList then some (.object source.query)
  else if root = "header".toList then some (.object source.header)
  else none

def transcodeMappingSourceValue (source : TranscodePayloadSource σ) (path : Str) :
    Except MappingErr (Option (Value Str σ)) :=
  let path := trimSpace path
  if path = [] then .ok none
  else
    let parts := path.splitOn '.'
    match rootValue source (parts.headD []) with
    | none => .error (.sourceRoot path)
    | some current => transcodeMappingValueAtPath path parts.tail current

def setParts (path : Str) (value : Value Str σ) : List Str → Fields Str σ → Except MappingErr (Fields Str σ)
  | [],current => .ok current
  | part :: rest,current =>
    let part := trimSpace part
    if part = [] then .error (.targetEmptySegment path)
    else if brackets.isSuffixOf part then
      let name := trimSuffix brackets part
      if name = [] then .error (.targetEmptyArray path)
      else if rest ≠ [] then .error (.targetTerminal path)
      else .ok (put name value current)
    else if rest = [] then .ok (put part value current)
    else
      match get part current with
      | none => (setParts path value rest []).map fun child => put part (.object child) current
      | some (.object child) => (setParts path value rest child).map fun child => put part (.object child) current
      | some _ => .error (.targetConflict path)

def setTranscodeMappingTarget (payload : Fields Str σ) (path : Str) (value : Value Str σ) :
    Except MappingErr (Fields Str σ) := setParts path value ((trimSpace path).splitOn '.') payload

def isNil : Value Str σ → Bool
  | .nil => true
  | _ => false

def mappedValue (mapping : TranscodePayloadMapping σ) (found : Option (Value Str σ)) : Option (Value Str σ) :=
  found.or (if isNil mapping.default then none else some mapping.default)

def mappingLoop (source : TranscodePayloadSource σ) :
    List (TranscodePayloadMapping σ) → Fields Str σ → Except MappingErr (Fields Str σ)
  | [],payload => .ok payload
  | mapping :: rest,payload =>
    let target := trimSpace mapping.target
    if target = [] then mappingLoop source rest payload
    else
      match transcodeMappingSourceValue source mapping.source with
      | .error err => .error err
      | .ok found =>
        match mappedValue mapping found with
        | none => mappingLoop source rest payload
        | some value =>
          match setTranscodeMappingTarget payload target value with
          | .error err => .error err
          | .ok payload => mappingLoop source rest payload

def transcodePayloadFromMappings (source : TranscodePayloadSource σ) (mappings : List (TranscodePayloadMapping σ)) :
    Except MappingErr (Fields Str σ) := mappingLoop source mappings []

def keyOf (part : Str) : Str := trimSuffix brackets (trimSpace part)
def targetKeys (target : Str) : List Str := ((trimSpace target).splitOn '.').map keyOf

def shapedParts : List Str → Bool
  | [] => true
  | part :: rest => if brackets.isSuffixOf (trimSpace part) then keyOf part ≠ [] && rest = [] else shapedParts rest

def shapedTarget (target : Str) : Bool := shapedParts ((trimSpace target).splitOn '.')
def exactRoot (path : Str) : Bool := trimSpace path = [] || roots.contains (((trimSpace path).splitOn '.').headD [])

def Filled (parts : List Str) : Prop := ∀ part ∈ parts, trimSpace part ≠ []

theorem acceptedFilled
    (ok : validateTranscodeMappingPath label path allow source = none) (some : trimSpace path ≠ []) :
    Filled ((trimSpace path).splitOn '.') := by
  intro part mem none
  simp only [validateTranscodeMappingPath,if_neg some] at ok
  split at ok <;> try contradiction
  split at ok <;> try contradiction
  rename_i clear
  refine clear (List.any_eq_true.mpr ⟨part,mem,?_⟩)
  have spaces : ∀ c ∈ part, Discovery.isSpace c = true := by
    obtain ⟨old,after,parts,front,back⟩ := trimSpread Discovery.isSpace part
    rw [show trim Discovery.isSpace part = [] from none,List.append_nil] at parts
    intro c inside
    rw [parts] at inside
    exact (List.mem_append.mp inside).elim (front c) (back c)
  have plain : brackets.isSuffixOf part = false := by
    cases got : brackets.isSuffixOf part with
    | false => rfl
    | true =>
      have inside := (List.isSuffixOf_iff_suffix.mp got).subset (show ']' ∈ brackets by decide)
      exact absurd (spaces _ inside) (by decide)
  simp [trimSuffix,plain,none]

theorem mapMOk {α β : Type} {f : α → Except MappingErr β} {items : List α} (every : ∀ x ∈ items, ∃ y, f x = .ok y) :
    ∃ found, items.mapM f = .ok found := by
  induction items with
  | nil => exact ⟨[],rfl⟩
  | cons x _ ih =>
    obtain ⟨y,first⟩ := every x mem_cons_self
    obtain ⟨found,later⟩ := ih fun z mem => every z (mem_cons_of_mem x mem)
    exact ⟨y :: found,by rw [List.mapM_cons,first,later]; rfl⟩

theorem valueRead (full : Filled parts) (current : Value Str σ) :
    ∃ found, transcodeMappingValueAtPath original parts current = .ok found := by
  induction parts generalizing current with
  | nil => exact ⟨some current,rfl⟩
  | cons part rest ih =>
    have ih := ih fun other mem => full other (mem_cons_of_mem part mem)
    simp only [transcodeMappingValueAtPath,if_neg (full part mem_cons_self)]
    split
    · split
      · rename_i items _
        split
        · exact ⟨_,rfl⟩
        have every : ∀ item ∈ items, ∃ found, transcodeMappingValueAtPath original rest item = .ok found :=
          fun item _ => ih item
        obtain ⟨found,read⟩ := mapMOk every
        rw [read]
        exact ⟨_,rfl⟩
      · exact ⟨none,rfl⟩
    split
    · split
      · exact ih _
      · exact ⟨none,rfl⟩
    exact ⟨none,rfl⟩

theorem rootFound (source : TranscodePayloadSource σ) (root) :
    (rootValue source root).isSome = roots.contains root := by
  simp only [rootValue,roots]
  split_ifs <;> simp_all

theorem sourceRead (ok : validateTranscodeMappingPath label path true true = none)
    (source : TranscodePayloadSource σ) :
    (∃ got, transcodeMappingSourceValue source path = .ok got) ↔ exactRoot path = true := by
  by_cases none : trimSpace path = []
  · simp [transcodeMappingSourceValue,exactRoot,none]
  have full := acceptedFilled ok none
  have got := rootFound source (((trimSpace path).splitOn '.').headD [])
  simp only [transcodeMappingSourceValue,exactRoot,none,decide_false,Bool.false_or,← got]
  cases rootValue source (((trimSpace path).splitOn '.').headD []) with
  | none => simp
  | some current =>
    simp only [Option.isSome_some,iff_true]
    exact valueRead (fun part mem => full part (List.mem_of_mem_tail mem)) current

theorem partsWritten (full : Filled parts) (shaped : shapedParts parts = true) (some : parts ≠ []) :
    setParts path value parts payload =
      ((write (parts.map keyOf) value payload).elim (.error (.targetConflict path)) .ok) := by
  induction parts generalizing payload with
  | nil => contradiction
  | cons part rest ih =>
    have ih := fun payload => @ih payload fun other mem => full other (mem_cons_of_mem part mem)
    have own := full part mem_cons_self
    simp only [shapedParts] at shaped
    simp only [setParts,if_neg own]
    split
    · rename_i array
      simp only [array,if_true,Bool.and_eq_true,decide_eq_true_eq] at shaped
      obtain ⟨named,rfl⟩ := shaped
      rw [if_neg (show trimSuffix brackets (trimSpace part) ≠ [] from named)]
      rfl
    rename_i plain
    rw [if_neg plain] at shaped
    have key : keyOf part = trimSpace part := by rw [keyOf,trimSuffix,if_neg plain]
    cases rest with
    | nil => simp [write,key]
    | cons next rest =>
      have ih := fun payload => ih payload shaped (List.cons_ne_nil next rest)
      simp only [List.map_cons,write,key] at ih ⊢
      cases get (trimSpace part) payload with
      | none =>
        rw [ih]
        cases write (keyOf next :: rest.map keyOf) value [] <;> rfl
      | some stood =>
        cases stood with
        | object child =>
          dsimp only
          rw [ih]
          cases write (keyOf next :: rest.map keyOf) value child <;> rfl
        | _ => rfl

theorem writtenShaped (ok : setParts path value parts payload = .ok next) : shapedParts parts = true := by
  induction parts generalizing payload next with
  | nil => rfl
  | cons _ rest ih =>
    simp only [setParts] at ok
    simp only [shapedParts]
    split at ok <;> try contradiction
    split at ok
    · rename_i array
      split at ok <;> try contradiction
      rename_i named
      split at ok <;> try contradiction
      rename_i last
      rw [if_pos array,not_not.mp last]
      simp only [decide_true,Bool.and_true,decide_eq_true_eq]
      exact named
    rename_i plain
    rw [if_neg plain]
    split at ok
    · rename_i last
      rw [last]
      rfl
    split at ok
    · cases inner : setParts path value rest [] with
      | error => rw [inner] at ok; cases ok
      | ok => exact ih inner
    · rename_i child _
      cases inner : setParts path value rest child with
      | error => rw [inner] at ok; cases ok
      | ok => exact ih inner
    cases ok

section
variable {mappings : List (TranscodePayloadMapping σ)}

structure Accepted (mapping : TranscodePayloadMapping σ) : Prop where
  source : ∃ label, validateTranscodeMappingPath label mapping.source true true = none
  target : ∃ label, validateTranscodeMappingPath label mapping.target false false = none

theorem validated (ok : validateTranscodePayloadMappings kind mappings = none) : ∀ mapping ∈ mappings, Accepted mapping := by
  induction mappings with
  | nil => exact nofun
  | cons _ _ ih =>
    simp only [validateTranscodePayloadMappings] at ok
    split at ok <;> try contradiction
    rename_i one
    split at ok <;> try contradiction
    rename_i two
    intro mapping mem
    rcases mem_cons.mp mem with rfl | later
    · exact ⟨⟨_,one⟩,⟨_,two⟩⟩
    exact ih ok mapping later

theorem targetFilled (accepted : Accepted mapping) : trimSpace mapping.target ≠ [] := by
  intro none
  obtain ⟨label,ok⟩ := accepted.target
  simp [validateTranscodeMappingPath,none] at ok

structure Shaped (source : TranscodePayloadSource σ) (mapping : TranscodePayloadMapping σ) : Prop where
  root : exactRoot mapping.source = true
  target : shapedTarget mapping.target = true ∨
    transcodeMappingSourceValue source mapping.source = .ok none ∧ isNil mapping.default = true

def Mapped (source : TranscodePayloadSource σ) (payload : Fields Str σ) (mapping : TranscodePayloadMapping σ) : Prop :=
  ∃ found, transcodeMappingSourceValue source mapping.source = .ok found ∧
    FieldTree.read (targetKeys mapping.target) (.object payload) = mappedValue mapping found

theorem trimTarget (target) : trimSpace (trimSpace target) = trimSpace target := trimTwice _ target

theorem targetWritten {mapping : TranscodePayloadMapping σ} (accepted : Accepted mapping)
    (shaped : shapedTarget mapping.target = true)
    (free : Open (targetKeys mapping.target) payload) (value : Value Str σ) :
    ∃ next, setTranscodeMappingTarget payload (trimSpace mapping.target) value = .ok next ∧
      write (targetKeys mapping.target) value payload = some next ∧
      read (targetKeys mapping.target) (.object next) = some value := by
  obtain ⟨label,ok⟩ := accepted.target
  obtain ⟨next,wrote,seen⟩ := writeOpen free value
  refine ⟨next,?_,wrote,seen⟩
  rw [setTranscodeMappingTarget,trimTarget,partsWritten (acceptedFilled ok (targetFilled accepted)) shaped
    (List.splitOn_ne_nil _ _)]
  rw [show write (((trimSpace mapping.target).splitOn '.').map keyOf) value payload = some next from wrote]
  rfl

theorem loopMaps (accepted : ∀ mapping ∈ mappings, Accepted mapping)
    (shaped : ∀ mapping ∈ mappings, Shaped source mapping)
    (ne : mappings.Pairwise fun a b => Apart (targetKeys a.target) (targetKeys b.target))
    (free : ∀ mapping ∈ mappings, Open (targetKeys mapping.target) payload) :
    ∃ result, mappingLoop source mappings payload = .ok result ∧ (∀ mapping ∈ mappings, Mapped source result mapping) ∧
      ∀ keys, (∀ mapping ∈ mappings, Apart (targetKeys mapping.target) keys) →
        read keys (.object result) = read keys (.object payload) := by
  induction mappings generalizing payload with
  | nil => exact ⟨payload,rfl,nofun,fun _ _ => rfl⟩
  | cons first _ ih =>
    obtain ⟨away,ne⟩ := List.pairwise_cons.mp ne
    have own := accepted first mem_cons_self
    have fit := shaped first mem_cons_self
    have ih := fun payload => @ih payload (fun m mem => accepted m (mem_cons_of_mem first mem))
      (fun m mem => shaped m (mem_cons_of_mem first mem)) ne
    obtain ⟨label,ok⟩ := own.source
    obtain ⟨got,read⟩ := (sourceRead ok source).mpr fit.root
    simp only [mappingLoop,if_neg (targetFilled own),read]
    cases due : mappedValue first got with
    | none =>
      obtain ⟨result,ran,mapped,kept⟩ := ih payload fun m mem => free m (mem_cons_of_mem first mem)
      refine ⟨result,ran,fun m mem => ?_,fun keys clear => kept keys fun m mem =>
        clear m (mem_cons_of_mem first mem)⟩
      rcases mem_cons.mp mem with rfl | later
      · refine ⟨got,read,?_⟩
        rw [kept _ fun m mem => (away m mem).symm,due]
        exact readOpen (free m mem_cons_self)
      exact mapped m later
    | some value =>
      have good : shapedTarget first.target = true := by
        rcases fit.target with good | ⟨gone,empty⟩
        · exact good
        rw [read] at gone
        cases gone
        simp [mappedValue,empty] at due
      obtain ⟨next,set,wrote,seen⟩ := targetWritten own good (free first mem_cons_self) value
      simp only [set]
      obtain ⟨result,ran,mapped,kept⟩ := ih next fun m mem =>
        (writeApart wrote (away m mem)).2 (free m (mem_cons_of_mem first mem))
      refine ⟨result,ran,fun m mem => ?_,fun keys clear => ?_⟩
      · rcases mem_cons.mp mem with rfl | later
        · refine ⟨got,read,?_⟩
          rw [kept _ fun m mem => (away m mem).symm,seen,due]
        · exact mapped m later
      rw [kept keys fun m mem => clear m (mem_cons_of_mem first mem)]
      exact (writeApart wrote (clear first mem_cons_self)).1

theorem loopShaped (accepted : ∀ mapping ∈ mappings, Accepted mapping)
    (ran : mappingLoop source mappings payload = .ok result) : ∀ mapping ∈ mappings, Shaped source mapping := by
  induction mappings generalizing payload with
  | nil => exact nofun
  | cons first rest ih =>
    have own := accepted first mem_cons_self
    have ih := fun payload => @ih payload fun m member => accepted m (mem_cons_of_mem first member)
    obtain ⟨label,ok⟩ := own.source
    simp only [mappingLoop,if_neg (targetFilled own)] at ran
    split at ran <;> try contradiction
    rename_i got read
    have root := (sourceRead ok source).mp ⟨got,read⟩
    have every : ∀ payload, mappingLoop source rest payload = .ok result → Shaped source first →
        ∀ mapping ∈ first :: rest, Shaped source mapping := by
      intro payload later fit mapping member
      rcases mem_cons.mp member with rfl | member
      · exact fit
      exact ih payload later mapping member
    split at ran
    · rename_i none
      refine every payload ran ⟨root,.inr ?_⟩
      cases got with
      | some => cases none
      | none =>
        refine ⟨read,?_⟩
        by_contra full
        simp [mappedValue,full] at none
    split at ran <;> try contradiction
    rename_i next set
    rw [setTranscodeMappingTarget,trimTarget] at set
    exact every next ran ⟨root,.inl (writtenShaped set)⟩

end

def profileMappings : List (TranscodePayloadMapping Nat) :=
  [⟨"body.id".toList,"profile.id".toList,.nil⟩,⟨"query.page".toList,"profile.page".toList,.scalar 1⟩]

end Gofly.Gateway.Mapping
