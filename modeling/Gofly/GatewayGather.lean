import Gofly.GatewayAggregate
import Gofly.GatewayMapping
import Gofly.GatewayOpenapi
import Gofly.LastWins
/-! What an aggregation route answers: the results of its steps, in maps under the steps' names
in the order they come in, and the shapes a response is rendered in. -/
namespace Gofly.Gateway
open LastWins
open Governance FieldTree
open Mapping
open Prod (fst snd)

variable {ε σ : Type}

section
variable {κ β γ : Type} [DecidableEq κ] {others : List (κ × β)} {name : κ} {raw : β}

def entryOf (name : κ) (entries : List (κ × β)) : Option β := entries.lookup name
def written (names : List κ) (writes : List (κ × β)) : List (κ × β) := names.dedup.filterMap (LastWins.lookup fst writes)

theorem entryMapped (f : β → γ) (entries) :
    (entries.map fun entry => (entry.1,f entry.2)).lookup name = (entryOf name entries).map f := by
  induction entries with
  | nil => rfl
  | cons entry _ ih =>
    rw [List.map_cons,List.lookup_cons,entryOf,List.lookup_cons]
    cases name == entry.1 with
    | true => rfl
    | false => exact ih

theorem writesSame (nodup : (writes.map fst).Nodup) (perm : writes.Perm others) (names) :
    written names writes = written names others :=
  List.filterMap_congr fun name _ => lookupPerm nodup perm name

theorem writtenShown (nodup : (writes.map fst).Nodup) (mem : (name,raw) ∈ writes) (ith : name ∈ names) :
    entryOf name (written names writes) = some raw := by
  have got := lookupOnly nodup mem
  have inside : name ∈ names.dedup := List.mem_dedup.mpr ith
  unfold written entryOf
  generalize names.dedup = list at inside
  induction list with
  | nil => contradiction
  | cons first _ ih =>
    by_cases eq : first = name
    · rw [eq,List.filterMap_cons_some got,List.lookup_cons_self]
    have later := ih ((List.mem_cons.mp inside).resolve_left (Ne.symm eq))
    cases other : lookup fst writes first with
    | none => rw [List.filterMap_cons_none other,later]
    | some entry =>
      have ne : (name == entry.1) = false := by simpa [lookupKey other] using Ne.symm eq
      rw [List.filterMap_cons_some other,List.lookup_cons,ne,later]
end

structure AggregationPayloadMapping where
  source : Str
  target : Str
  default : Str
  asArray : Bool

structure AggregationShape where
  mode : Str
  mappings : List AggregationPayloadMapping

inductive Payload (σ : Type) where
  | standard (data errors : List (Str × Str))
  | fields (fields : Fields Str σ)

structure Renderer (ε σ : Type) where
  valid : Str → Bool
  quote : Str → Str
  value : Str → Value Str σ
  text : Str → σ
  flag : Bool → σ
  nilMap : σ
  marshal : Payload σ → Str
  errorText : Fault ε → Str
  mappingFault : MappingErr → Fault ε

section
variable (render : Renderer ε σ)

def normalizeAggregationBody (body : Str) : Str :=
  let trimmed := trimSpace body
  if trimmed = [] then "null".toList else if render.valid trimmed then trimmed else render.quote trimmed

def cloneAggregationRawValue (raw : Str) : Value Str σ := if trimSpace raw = [] then .nil else render.value raw

def aggregationArrayValue : Value Str σ → Value Str σ
  | .nil => .list []
  | .list items => .list items
  | value => .list [value]

def aggregationPayloadFromMappings (source : TranscodePayloadSource σ) :
    List AggregationPayloadMapping → Fields Str σ → Except MappingErr (Fields Str σ)
  | [],payload => .ok payload
  | mapping :: rest,payload => do
    let target := trimSpace mapping.target
    if target = [] then aggregationPayloadFromMappings source rest payload
    else
      let found ← transcodeMappingSourceValue source mapping.source
      match found.or (if mapping.default = [] then none else some (cloneAggregationRawValue render mapping.default)) with
      | none => aggregationPayloadFromMappings source rest payload
      | some value =>
        let value := if mapping.asArray then aggregationArrayValue value else value
        aggregationPayloadFromMappings source rest (← setTranscodeMappingTarget payload target value)

def degradedKey : Str := "degraded".toList
def errorsKey : Str := "errors".toList

def rawValues (data : List (Str × Str)) : Fields Str σ := data.map fun entry => (entry.1,cloneAggregationRawValue render entry.2)
def errorValues (failures : List (Str × Str)) : Value Str σ := .object (failures.map fun entry => (entry.1,.scalar (render.text entry.2)))

def renderAggregationResponse [Letters] (shape : AggregationShape) (data failures : List (Str × Str)) (degraded : Bool) :
    Except MappingErr (Payload σ) :=
  if shape.mappings = [] then
    if !equalFold shape.mode "flat".toList then .ok (.standard data failures)
    else
      let payload := put degradedKey (.scalar (render.flag degraded)) (rawValues render data)
      .ok (.fields (if failures = [] then payload else put errorsKey (errorValues render failures) payload))
  else
    let errors := if failures = [] then .scalar render.nilMap else errorValues render failures
    let body := .object [(degradedKey,.scalar (render.flag degraded)),(errorsKey,errors),
      ("data".toList,.object (rawValues render data))]
    (aggregationPayloadFromMappings render ⟨body,[],[],[]⟩ shape.mappings []).map .fields

def failureMessage (result : StepResult ε) : Str :=
  match result.err with
  | some err => render.errorText err
  | none => "upstream status ".toList ++ Decimal.digits result.status.toNat

def dataWrite (steps : List AggregationStep) (result : StepResult ε) : Option (Str × Str) :=
  if stepFailed result then
    match steps[result.index]? with
    | some step => if step.fallback = [] then none else some (result.name,normalizeAggregationBody render step.fallback)
    | none => none
  else some (result.name,result.body)

def failureWrite (result : StepResult ε) : Option (Str × Str) :=
  if stepFailed result then some (result.name,failureMessage render result) else none
def stepNames (steps : List AggregationStep) : List Str := steps.mapIdx stepName

-- a fallback is used for a failed step only
def payloadOf [Letters] (shape : AggregationShape) (steps : List AggregationStep) (results : List (StepResult ε)) :
    Except MappingErr (Payload σ) :=
  renderAggregationResponse render shape (written (stepNames steps) (results.filterMap (dataWrite render steps)))
    (written (stepNames steps) (results.filterMap (failureWrite render))) (results.any stepFailed)

def rendered [Letters] (shape : AggregationShape) (steps : List AggregationStep) (results : List (StepResult ε)) :
    Except (Fault ε) Str :=
  match payloadOf render shape steps results with
  | .error err => .error (render.mappingFault err)
  | .ok payload => .ok (render.marshal payload)

def Payload.Shows (name raw : Str) : Payload σ → Prop
  | .standard data _ => entryOf name data = some raw
  | .fields all => get name all = some (cloneAggregationRawValue render raw)
end

theorem stepLoopNamed (left attempt) (named : last.index = index ∧ last.name = name) :
    (stepLoop blocked index name policy tries left attempt last).result.index = index ∧
      (stepLoop blocked index name policy tries left attempt last).result.name = name := by
  induction left generalizing attempt last with
  | zero => exact named
  | succ _ ih =>
    have made : (runAggregationStepAttempt blocked index name (tries attempt)).index = index ∧
        (runAggregationStepAttempt blocked index name (tries attempt)).name = name := by
      cases blocked <;> exact ⟨rfl,rfl⟩
    rw [stepLoop]
    split
    · exact made
    split
    · exact made
    exact ih (attempt + 1) made

section
variable {site : Site ε}

def stepResults (site : Site ε) (endpoint : Str) (calls : Calls ε) : List (StepResult ε) :=
  site.route.aggregation.steps.mapIdx fun i step => (stepRan site endpoint calls i step).result

theorem stepRanNamed (i step) : (stepRan site endpoint calls i step).result.index = i ∧
      (stepRan site endpoint calls i step).result.name = stepName i step := stepLoopNamed _ _ ⟨rfl,rfl⟩

theorem resultNames : (stepResults site endpoint calls).map StepResult.name = stepNames site.route.aggregation.steps := by
  refine List.ext_getElem? fun i => ?_
  simp only [stepResults,stepNames,List.getElem?_map,List.getElem?_mapIdx,Option.map_map]
  exact congrArg (Option.map · _) (funext fun step => (stepRanNamed i step).2)

theorem writeKeys {write : StepResult ε → Option (Str × Str)} (own : ∀ r entry, write r = some entry → entry.1 = r.name)
    {results : List (StepResult ε)} (nodup : (results.map StepResult.name).Nodup) :
    ((results.filterMap write).map fst).Nodup := by
  refine List.Nodup.sublist ?_ nodup
  induction results with
  | nil => exact .slnil
  | cons r _ ih =>
    have later := ih (List.nodup_cons.mp nodup).2
    cases made : write r with
    | none =>
      rw [List.filterMap_cons_none made]
      exact later.cons _
    | some entry =>
      rw [List.filterMap_cons_some made,List.map_cons,own r entry made]
      exact later.cons_cons _

theorem dataOwn (r entry) (made : dataWrite render steps r = some entry) : entry.1 = r.name := by
  unfold dataWrite at made
  split at made
  · split at made <;> try contradiction
    split at made <;> cases made
    rfl
  cases made
  rfl

theorem failureOwn (r entry) (made : failureWrite render r = some entry) : entry.1 = r.name := by
  unfold failureWrite at made
  split at made <;> cases made
  rfl

theorem anySame {results : List (StepResult ε)} (perm : results.Perm others) : results.any p = others.any p := by
  rw [Bool.eq_iff_iff,List.any_eq_true,List.any_eq_true]
  exact exists_congr fun r => and_congr_left fun _ => perm.mem_iff

theorem onceResult (endpoint calls) (some_ : site.route.aggregation.steps ≠ []) :
    ((aggregateOnce site endpoint calls).result,(aggregateOnce site endpoint calls).err) =
      match site.render (calls.arrive (stepResults site endpoint calls)) with
      | .error err => ({ (noResult : ProxyResult (Fault ε)) with endpoint := endpoint,err := some err },some err)
      | .ok body =>
        (⟨endpoint,if (calls.arrive (stepResults site endpoint calls)).any (requiredFailed site.route.aggregation.steps)
            then statusBadGateway else statusOK,
          [("Content-Type".toList,"application/json".toList)],body,none,false,0,none⟩,none) := by
  rw [aggregateOnce,if_neg some_]
  dsimp only
  rw [← stepResults]
  cases site.render (calls.arrive (stepResults site endpoint calls)) <;> rfl

theorem requiredIff : ((calls.arrive (stepResults site endpoint calls)).any (requiredFailed site.route.aggregation.steps) = true) ↔
    ∃ i step, site.route.aggregation.steps[i]? = some step ∧ step.required = true ∧ step.fallback = [] ∧
      stepFailed (stepRan site endpoint calls i step).result = true := by
  rw [List.any_eq_true]
  constructor
  · rintro ⟨r,mem,failed⟩
    obtain ⟨i,bound,rfl⟩ := List.mem_mapIdx.mp ((calls.complete _).mem_iff.mp mem)
    simp only [requiredFailed,(stepRanNamed i _).1,List.getElem?_eq_getElem bound,Option.any_some,Bool.and_eq_true,
      decide_eq_true_eq] at failed
    exact ⟨i,_,List.getElem?_eq_getElem bound,failed.2.2,failed.2.1,failed.1⟩
  rintro ⟨i,step,got,required,bare,failed⟩
  obtain ⟨bound,rfl⟩ := List.getElem_of_getElem? got
  refine ⟨_,(calls.complete _).mem_iff.mpr (List.mem_mapIdx.mpr ⟨i,bound,rfl⟩),?_⟩
  simp [requiredFailed,(stepRanNamed i _).1,got,failed,required,bare]

variable [Letters] {render : Renderer ε σ}

theorem payloadSame (perm : results.Perm others) (nodup : (results.map StepResult.name).Nodup) :
    payloadOf render shape steps results = payloadOf render shape steps others := by
  rw [payloadOf,payloadOf,writesSame (writeKeys dataOwn nodup) (perm.filterMap _),
    writesSame (writeKeys failureOwn nodup) (perm.filterMap _)]
  rw [anySame perm]

theorem payloadShows
    (plain : shape.mappings = []) (free : equalFold shape.mode "flat".toList = true → name ≠ degradedKey ∧ name ≠ errorsKey)
    (nodup : (results.map StepResult.name).Nodup) (mem : r ∈ results) (ith : name ∈ stepNames steps)
    (made : dataWrite render steps r = some (name,raw)) :
    ∃ payload, payloadOf render shape steps results = .ok payload ∧ payload.Shows render name raw := by
  have keys : ((results.filterMap (dataWrite render steps)).map fst).Nodup := writeKeys dataOwn nodup
  have shown := writtenShown keys (List.mem_filterMap.mpr ⟨r,mem,made⟩) ith
  unfold payloadOf renderAggregationResponse
  rw [if_pos plain]
  split
  · exact ⟨_,rfl,shown⟩
  rename_i flat
  obtain ⟨notDegraded,notErrors⟩ := free (by simpa using flat)
  refine ⟨_,rfl,?_⟩
  have rawShown : get name (rawValues render (written (stepNames steps) (results.filterMap (dataWrite render steps)))) =
      some (cloneAggregationRawValue render raw) := by
    rw [FieldTree.get,rawValues,entryMapped,shown]
    rfl
  dsimp only [Payload.Shows]
  split
  · rw [FieldTree.getOther notDegraded]
    exact rawShown
  rw [FieldTree.getOther notErrors,FieldTree.getOther notDegraded]
  exact rawShown

end

def bodiesOnly : Renderer Str Unit where
  valid _ := true
  quote := id
  value _ := .nil
  text _ := ()
  flag _ := ()
  nilMap := ()
  marshal
    | .standard data _ => data.flatMap snd
    | .fields _ => []
  errorText _ := []
  mappingFault _ := .exhausted

def namedSite [Letters] (names : List Str) : Site Str :=
  let steps := names.map fun name => ⟨name,methodGet,false,onlyAttempts 1,[]⟩
  ⟨⟨['r'],[],['/'],[],onlyAttempts 1,⟨true,steps⟩⟩,methodGet,0,fun _ _ => none,rendered bodiesOnly ⟨[],[]⟩ steps⟩

def inOrder : Calls Str := ⟨fun i _ => ⟨statusOK,Decimal.digits i,none,none⟩,fun results => results,List.Perm.refl⟩
def lastFirst : Calls Str := ⟨inOrder.tries,List.reverse,List.reverse_perm⟩

end Gofly.Gateway
