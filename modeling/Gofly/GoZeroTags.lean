import Gofly.RestBinding
/-! The tags of go-zero API files, read twice: by the generator when it checks a file, and by the
binder when a request comes in. -/
namespace Gofly.Rest
open Text Governance Outcome
open Discovery (isSpace)

variable {S R : Type}

section
variable (parseFloat : Str → Option Float64)

def parseGoZeroAPIOptions (raw : Str) : List Str :=
  let raw := trimSpace raw
  if raw.head? = some '[' ∧ raw.getLast? = some ']' then
    let raw := trimSpace (raw.drop 1).dropLast
    if raw = [] then [] else (raw.splitOn ',').filter (· ≠ [])
  else if raw = [] then [] else raw.splitOn '|'

def parseGoZeroAPIRangeBound (raw : Str) : Option (Option Float64) :=
  let raw := trimSpace raw
  if raw = [] then some none else (parseFloat raw).map some

def readGoZeroAPIRange (raw : Str) : Option NumberRange :=
  let inner := (raw.drop 1).dropLast
  let leftText := inner.takeWhile (· != ':')
  let rightText := (inner.dropWhile (· != ':')).drop 1
  if raw.length < 3 ∨ raw.head? ≠ some '[' ∧ raw.head? ≠ some '(' ∨ raw.getLast? ≠ some ']' ∧ raw.getLast? ≠ some ')' then none
  else if ':' ∉ inner ∨ trimSpace leftText = [] ∧ trimSpace rightText = [] then none
  else
    match parseGoZeroAPIRangeBound parseFloat leftText, parseGoZeroAPIRangeBound parseFloat rightText with
    | some left,some right => some ⟨left,right,raw.head? = some '[',raw.getLast? = some ']'⟩
    | _,_ => none

def validateGoZeroAPINumberRange (raw : Str) : Option TagErr :=
  match readGoZeroAPIRange parseFloat raw with
  | some ⟨some left,some right,_,_⟩ =>
    if less right left ∨ same left right ∧ (raw.head? ≠ some '[' ∨ raw.getLast? ≠ some ']') then some (.invalidRange raw) else none
  | some _ => none
  | none => some (.invalidRange raw)

def validateAPIOption (rawOption : Str) : Option TagErr :=
  let option := trimSpace rawOption
  if option = "omitempty".toList ∨ option = "optional".toList ∨ option = "string".toList ∨ option = "inherit".toList then none
  else if "optional=".toList.isPrefixOf option then some .conditionalOptional
  else if "default=".toList.isPrefixOf option then if trimSpace (option.drop 8) = [] then some .emptyDefault else none
  else if "options=".toList.isPrefixOf option then
    if parseGoZeroAPIOptions (trimSpace (option.drop 8)) = [] then some .emptyOptions else none
  else if "range=".toList.isPrefixOf option then validateGoZeroAPINumberRange parseFloat (option.drop 6)
  else none

-- splitGoZeroAPITagParts is the binder's splitGoZeroTagParts, letter for letter
def validateGoZeroAPIFieldTag (raw : Str) : Option TagErr :=
  match splitGoZeroTagParts raw 0 [] [] with
  | .error fault => some fault
  | .ok parts => parts.tail.findSome? (validateAPIOption parseFloat)

def validateAPIFieldTag (f : StructField) : Option TagErr :=
  [f.json,f.form,f.path,f.header].findSome? (·.bind (validateGoZeroAPIFieldTag parseFloat))

def readAPIOption (opts : List Str × Option NumberRange) (option : Str) : List Str × Option NumberRange :=
  if "options=".toList.isPrefixOf option then (parseGoZeroAPIOptions (trimSpace (option.drop 8)),opts.2)
  else if "range=".toList.isPrefixOf option then (opts.1,readGoZeroAPIRange parseFloat (option.drop 6))
  else opts
end

theorem splitTrimmed (ok : splitGoZeroTagParts raw depth part parts = .ok out)
    (trimmed : ∀ p ∈ parts, trimSpace p = p) : ∀ p ∈ out, trimSpace p = p := by
  have more : ∀ part, ∀ p ∈ parts ++ [trimSpace part], trimSpace p = p := by
    intro part p mem
    rcases Roster.addMem mem with old | rfl
    · exact trimmed p old
    exact trimTwice isSpace part
  induction raw generalizing depth part parts with
  | nil =>
    simp only [splitGoZeroTagParts] at ok
    split at ok <;> cases ok
    exact more part
  | cons _ _ ih =>
    simp only [splitGoZeroTagParts] at ok
    split at ok
    · exact ih ok trimmed more
    split at ok
    · split at ok
      · contradiction
      · exact ih ok trimmed more
    split at ok
    · refine ih ok (more part) fun other p mem => ?_
      rcases Roster.addMem mem with old | rfl
      · exact more part p old
      exact trimTwice isSpace other
    exact ih ok trimmed more

theorem trimmedRest (trimmed : trimSpace (start ++ rest) = start ++ rest) : trimSpace rest = [] ↔ rest = [] := by
  refine ⟨fun gone => ?_,fun none => by rw [none]; rfl⟩
  by_contra full
  have ends := trimTrimmed isSpace (start ++ rest)
  rw [show trim isSpace (start ++ rest) = start ++ rest from trimmed] at ends
  have last : (start ++ rest).getLast? = some (rest.getLast full) := by
    rw [List.getLast?_append,List.getLast?_eq_some_getLast full]
    rfl
  obtain ⟨old,after,whole,spaces,also⟩ := trimSpread isSpace rest
  have blank : ∀ c ∈ rest, isSpace c = true := by
    intro c mem
    rw [whole,show trim isSpace rest = [] from gone,List.append_nil] at mem
    exact (List.mem_append.mp mem).elim (spaces c) (also c)
  exact absurd (ends.back _ last) (by simp [blank _ (List.getLast_mem full)])

section
variable (codec : Codec S R)

theorem boundAgrees (raw text) : parseBound codec raw text = match parseGoZeroAPIRangeBound codec.parseFloat text with
    | some bound => .ok bound
    | none => .error (.invalidRange raw) := by
  unfold parseBound parseGoZeroAPIRangeBound
  dsimp only
  split
  · rfl
  cases codec.parseFloat (trimSpace text) <;> rfl

theorem rangeAgrees (raw) : parseGoZeroNumberRange codec raw =
    match validateGoZeroAPINumberRange codec.parseFloat raw, readGoZeroAPIRange codec.parseFloat raw with
    | some fault,_ => .error fault
    | none,some rule => .ok rule
    | none,none => .error (.invalidRange raw) := by
  unfold parseGoZeroNumberRange validateGoZeroAPINumberRange readGoZeroAPIRange
  simp only [boundAgrees,not_or]
  split
  · rfl
  split
  · rfl
  generalize parseGoZeroAPIRangeBound codec.parseFloat _ = left
  generalize parseGoZeroAPIRangeBound codec.parseFloat _ = right
  cases left with
  | none => rfl
  | some left =>
    cases right with
    | none => rfl
    | some right =>
      cases left with
      | none => rfl
      | some =>
        cases right with
        | none => rfl
        | some =>
          simp only [bind,Except.bind,decide_eq_true_eq,not_and_or]
          split <;> rfl

theorem optionsAgree (text : Str) : let values := trimSpace text
    (values = [] ∨ (if values.head? = some '[' ∧ values.getLast? = some ']' then
        ((trimSpace (values.drop 1).dropLast).splitOn ',').filter (· ≠ []) else values.splitOn '|') = [] ↔
      parseGoZeroAPIOptions values = []) ∧
    (parseGoZeroAPIOptions values ≠ [] → (if values.head? = some '[' ∧ values.getLast? = some ']' then
        ((trimSpace (values.drop 1).dropLast).splitOn ',').filter (· ≠ []) else values.splitOn '|') =
      parseGoZeroAPIOptions values) := by
  intro values
  have again : trimSpace values = values := trimTwice isSpace text
  unfold parseGoZeroAPIOptions
  rw [again]
  dsimp only
  split
  · rename_i ith
    have full : values ≠ [] := by rintro none; simp [none] at ith
    split
    · rename_i none
      rw [none]
      simp
    simp [full]
  split
  · rename_i none
    simp [none]
  rename_i full
  simp [full]

inductive Agrees (reads : List Str × Option NumberRange) : Option TagErr → Except TagErr FieldOptions → Prop where
  | refused (fault : TagErr) : Agrees reads (some fault) (.error fault)
  | taken (o : FieldOptions) (same : (o.options,o.rangeRule) = reads) : Agrees reads none (.ok o)

theorem optionAgrees (opts) (trimmed : trimSpace option = option) :
    Agrees (readAPIOption codec.parseFloat (opts.options,opts.rangeRule) option) (validateAPIOption codec.parseFloat option)
      (readOption codec opts option) := by
  unfold validateAPIOption readOption
  rw [trimmed]
  by_cases plain : option = "omitempty".toList ∨ option = "optional".toList ∨ option = "string".toList ∨ option = "inherit".toList
  · rcases plain with rfl | rfl | rfl | rfl <;> exact .taken _ rfl
  have notOptional : option ≠ "optional".toList := fun eq => plain (.inr (.inl eq))
  rw [if_neg plain]
  split
  · exact .refused _
  split
  · rename_i start
    obtain ⟨rest,rfl⟩ := List.isPrefixOf_iff_prefix.mp start
    have drops : ("default=".toList ++ rest).drop 8 = rest := rfl
    simp only [drops,trimmedRest trimmed]
    split
    · exact .refused _
    exact .taken _ rfl
  unfold readAPIOption
  split
  · obtain ⟨exact,eq⟩ := optionsAgree (option.drop 8)
    simp only [exact]
    split
    · exact .refused _
    exact .taken _ (by rw [eq ‹_›])
  split
  · rw [rangeAgrees]
    cases verdict : validateGoZeroAPINumberRange codec.parseFloat (option.drop 6) with
    | some fault => exact .refused fault
    | none =>
      cases got : readGoZeroAPIRange codec.parseFloat (option.drop 6) with
      | some => exact .taken _ rfl
      | none => simp [validateGoZeroAPINumberRange,got] at verdict
  exact .taken opts rfl

theorem optionListAgrees (options : List Str) (opts) (trimmed : ∀ p ∈ options, trimSpace p = p) :
    Agrees (options.foldl (readAPIOption codec.parseFloat) (opts.options,opts.rangeRule))
      (options.findSome? (validateAPIOption codec.parseFloat)) (options.foldlM (readOption codec) opts) := by
  induction options generalizing opts with
  | nil => exact .taken opts rfl
  | cons option _ ih =>
    have first := optionAgrees codec opts (trimmed option List.mem_cons_self)
    rw [List.findSome?_cons,List.foldl_cons,List.foldlM_cons]
    generalize validateAPIOption codec.parseFloat option = verdict at first
    generalize readOption codec opts option = result at first
    cases first with
    | refused fault => exact .refused fault
    | taken o eq =>
      rw [← eq]
      exact ih o fun p mem => trimmed p (List.mem_cons_of_mem option mem)

def readAPITag (parseFloat : Str → Option Float64) (raw : Str) : List Str × Option NumberRange :=
  match splitGoZeroTagParts raw 0 [] [] with
  | .error _ => ([],none)
  | .ok parts => parts.tail.foldl (readAPIOption parseFloat) ([],none)

theorem tagAgrees (raw) : Agrees (readAPITag codec.parseFloat raw) (validateGoZeroAPIFieldTag codec.parseFloat raw)
    ((parseGoZeroFieldTag codec raw).map Prod.snd) := by
  unfold readAPITag validateGoZeroAPIFieldTag parseGoZeroFieldTag
  cases split : splitGoZeroTagParts raw 0 [] [] with
  | error fault => exact .refused fault
  | ok parts =>
    have trimmed := splitTrimmed split (by simp)
    have all := optionListAgrees codec parts.tail {} fun p mem => trimmed p (List.mem_of_mem_tail mem)
    simp only [bind,Except.bind]
    generalize parts.tail.foldlM (readOption codec) {} = result at all
    generalize parts.tail.findSome? (validateAPIOption codec.parseFloat) = verdict at all ⊢
    cases all with
    | refused fault => exact .refused fault
    | taken o eq => exact .taken o eq
end

section
variable {codec : Codec S R}

theorem eachFault
    (fails : each write k leaves = .error err) : ∃ i v, ∃ f ∈ leaves.map Leaf.info, write i f v = .error err := by
  induction leaves generalizing k with
  | nil => contradiction
  | cons leaf _ ih =>
    rcases bindError.mp fails with first | ⟨v,_,later⟩
    · exact ⟨k,leaf.value,leaf.info,by simp,first⟩
    obtain ⟨i,v,f,mem,later⟩ := ih (mapError.mp later)
    exact ⟨i,v,f,List.mem_cons_of_mem _ mem,later⟩

theorem bindValuesFault : bindValues codec source lookup t ≠ .error (.invalidTag name tag fault) := by
  intro fails
  obtain ⟨i,v,f,_,first⟩ := eachFault (mapError.mp fails)
  unfold bindField at first
  split at first
  · contradiction
  cases (mappedError first).choose_spec

theorem checksFault {w : Value S} {o : FieldOptions} :
    (do checkOptions codec f v o.options; checkRange codec f v o.rangeRule; Except.ok w) ≠ .error (.invalidTag name tag fault) := by
  intro fails
  rcases bindError.mp fails with first | ⟨_,_,fails⟩
  · unfold checkOptions at first
    split at first <;> cases first
  rcases bindError.mp fails with first | ⟨_,_,fails⟩
  · unfold checkRange at first
    split at first
    · cases first
    split at first
    · cases first
    split at first <;> cases first
  cases fails

theorem optionsFault : applyGoZeroFieldOptions codec f v here o ≠ .error (.invalidTag name tag fault) := by
  intro fails
  unfold applyGoZeroFieldOptions at fails
  split at fails
  · split at fails <;> cases fails
  split at fails
  · exact checksFault fails
  rcases bindError.mp fails with first | ⟨v,_,fails⟩
  · cases (mappedError first).choose_spec
  exact checksFault fails

theorem tagFault (fails : applyTag codec label raw here allocated f v = .error (.invalidTag name tag fault)) :
    name = f.name ∧ tag = label ∧ raw.bind (validateGoZeroAPIFieldTag codec.parseFloat) = some fault := by
  unfold applyTag at fails
  split at fails
  · contradiction
  split at fails
  · contradiction
  rename_i text
  have agrees := tagAgrees codec text
  split at fails
  · rename_i got
    cases fails
    rw [got] at agrees
    refine ⟨rfl,rfl,?_⟩
    rw [Option.bind_some]
    generalize validateGoZeroAPIFieldTag codec.parseFloat text = verdict at agrees ⊢
    cases agrees with
    | refused => rfl
  split at fails
  · contradiction
  exact absurd fails optionsFault

theorem sourceFault (fails : bindGoZeroSource codec source lookup t = .error (.invalidTag name tag fault)) :
    ∃ f ∈ t.infos, name = f.name ∧ tag = sourceLabel source ∧
      (goZeroSourceTag f source).bind (validateGoZeroAPIFieldTag codec.parseFloat) = some fault := by
  rcases bindError.mp fails with first | ⟨next,bound,later⟩
  · exact absurd first bindValuesFault
  obtain ⟨i,v,f,mem,first⟩ := eachFault (mapError.mp later)
  exact ⟨f,(bindValuesPassed bound).infos ▸ mem,tagFault first⟩

theorem sourceInfos (ok : bindGoZeroSource codec source lookup t = .ok next) : next.infos = t.infos := by
  obtain ⟨bound,first,later⟩ := bindOk.mp ok
  rw [(sourceTagsPassed later).infos,(bindValuesPassed first).infos]

theorem acceptedTags (ok : validateAPIFieldTag codec.parseFloat f = none) :
    ∀ raw ∈ [f.json,f.form,f.path,f.header], raw.bind (validateGoZeroAPIFieldTag codec.parseFloat) = none :=
  List.findSome?_eq_none_iff.mp ok

variable [Letters]

theorem bodyFault : bindGoZeroBody codec r t ≠ .error (.invalidTag name tag fault) := by
  intro fails
  unfold bindGoZeroBody decodeMembers at fails
  split at fails <;> try cases fails
  split at fails <;> try cases fails
  rcases bindError.mp fails with first | ⟨_,_,later⟩
  · split at first
    · cases first
    · obtain ⟨i,v,f,_,first⟩ := eachFault (mapError.mp first)
      cases (mappedError first).choose_spec
  split at later <;> cases later

theorem bodyInfos (ok : bindGoZeroBody codec r t = .ok (next,members)) : next.infos = t.infos := by
  unfold bindGoZeroBody at ok
  split at ok
  · split at ok <;> try contradiction
    obtain ⟨decoded,first,later⟩ := bindOk.mp ok
    split at later <;> cases later
    exact (decodePassed first).infos
  cases ok
  rfl

theorem queryTagFault (ok : ∀ f ∈ t.infos, validateAPIFieldTag codec.parseFloat f = none)
    (fails : bindGoZeroRequest codec validator r t = .error (.invalidTag name tag fault)) :
    tag = sourceLabel .query ∧ ∃ f ∈ t.infos, name = f.name ∧
      f.query.bind (validateGoZeroAPIFieldTag codec.parseFloat) = some fault := by
  have sound : ∀ f ∈ t.infos, ∀ raw ∈ [f.json,f.form,f.path,f.header],
      raw.bind (validateGoZeroAPIFieldTag codec.parseFloat) ≠ some fault := by
    intro f mem raw ith
    rw [acceptedTags (ok f mem) raw ith]
    exact nofun
  rcases bindError.mp fails with first | ⟨a,path,fails⟩
  · obtain ⟨f,mem,_,_,refused⟩ := sourceFault first
    exact absurd refused (sound f mem _ (by simp [goZeroSourceTag]))
  split at fails
  · cases fails
  rcases bindError.mp fails with first | ⟨b,query,fails⟩
  · obtain ⟨f,mem,eq,label,refused⟩ := sourceFault first
    rw [sourceInfos path] at mem
    refine ⟨label,f,mem,eq,?_⟩
    cases tagged : f.query with
    | none =>
      simp only [goZeroSourceTag,tagged] at refused
      exact absurd refused (sound f mem _ (by simp))
    | some => simpa [goZeroSourceTag,tagged] using refused
  rcases bindError.mp fails with first | ⟨c,header,fails⟩
  · obtain ⟨f,mem,_,_,refused⟩ := sourceFault first
    rw [sourceInfos query,sourceInfos path] at mem
    exact absurd refused (sound f mem _ (by simp [goZeroSourceTag]))
  rcases bindError.mp fails with first | ⟨⟨d,members⟩,body,fails⟩
  · exact absurd first bodyFault
  rcases bindError.mp fails with first | ⟨e,json,fails⟩
  · obtain ⟨i,v,f,mem,first⟩ := eachFault (mapError.mp first)
    change f ∈ d.infos at mem
    rw [bodyInfos body,sourceInfos header,sourceInfos query,sourceInfos path] at mem
    exact absurd (tagFault first).2.2 (sound f mem _ (by simp))
  unfold validateWith at fails
  split at fails <;> cases fails
end

theorem acceptedRead (codec : Codec S R) (raw) :
    validateGoZeroAPIFieldTag codec.parseFloat raw = none ↔ ∃ read, parseGoZeroFieldTag codec raw = .ok read := by
  have agrees := tagAgrees codec raw
  generalize validateGoZeroAPIFieldTag codec.parseFloat raw = verdict at agrees ⊢
  generalize parseGoZeroFieldTag codec raw = parsed at agrees ⊢
  cases parsed <;> cases agrees <;> simp

/-- The generator accepts the tags the binder accepts; what the binder then refuses of an accepted
field is its query tag. -/
theorem goZeroTagsAgree [Letters] (codec : Codec S R) :
    (∀ raw, (validateGoZeroAPIFieldTag codec.parseFloat raw = none ↔ ∃ read, parseGoZeroFieldTag codec raw = .ok read) ∧
      ∀ name o, parseGoZeroFieldTag codec raw = .ok (name,o) → (o.options,o.rangeRule) = readAPITag codec.parseFloat raw) ∧
    (∀ f, validateAPIFieldTag codec.parseFloat f = none →
      ((∀ source, ∀ raw ∈ goZeroSourceTag f source, ∃ read, parseGoZeroFieldTag codec raw = .ok read) ↔
        f.query.bind (validateGoZeroAPIFieldTag codec.parseFloat) = none)) ∧
    ∀ (validator : Target S → Option Str) (r : Request R) (t : Target S),
      (∀ f ∈ t.infos, validateAPIFieldTag codec.parseFloat f = none) → ∀ name tag fault,
      bindGoZeroRequest codec validator r t = .error (.invalidTag name tag fault) → tag = sourceLabel .query ∧
        ∃ f ∈ t.infos, name = f.name ∧ f.query.bind (validateGoZeroAPIFieldTag codec.parseFloat) = some fault := by
  refine ⟨fun raw => ⟨acceptedRead codec raw,fun name o ok => ?_⟩,fun f accepted => ?_,
    fun validator r t accepted name tag fault fails => queryTagFault accepted fails⟩
  · have agrees := tagAgrees codec raw
    rw [ok] at agrees
    generalize validateGoZeroAPIFieldTag codec.parseFloat raw = verdict at agrees
    cases agrees with
    | taken _ same => exact same
  have tags := acceptedTags accepted
  simp only [← acceptedRead,List.forall_mem_cons,Option.bind_eq_none_iff] at tags ⊢
  constructor
  · intro all raw tagged
    exact all .query raw (by simp [goZeroSourceTag,tagged])
  intro fine source raw tagged
  cases source with
  | path => exact tags.2.2.1 raw tagged
  | header => exact tags.2.2.2.1 raw tagged
  | query =>
    rcases Option.or_eq_some_iff.mp tagged with query | ⟨_,form⟩
    · exact fine raw query
    · exact tags.2.1 raw form

def queried (tag : Str) : Target Str := ⟨[⟨{ idField with path := none,query := some tag },.scalar []⟩],[]⟩

theorem queryTagMissed :
    let _ := asciiLetters
    (∀ f ∈ (queried "q,optional=x".toList).infos, validateAPIFieldTag texts.parseFloat f = none) ∧
      bindGoZeroRequest texts (fun _ => none) forged (queried "q,optional=x".toList) =
        .error (.invalidTag ['I','D'] "query".toList .conditionalOptional) := by
  intro letters
  exact ⟨by decide +kernel,rfl⟩

theorem queryTagBlamed :
    let _ := asciiLetters
    (∃ f ∈ (queried "q,optional=x".toList).infos, ['I','D'] = f.name ∧
        f.query.bind (validateGoZeroAPIFieldTag texts.parseFloat) = some .conditionalOptional) ∧
      ∀ f ∈ (queried "q,optional".toList).infos, ∀ source, ∀ raw ∈ goZeroSourceTag f source,
        ∃ read, parseGoZeroFieldTag texts raw = .ok read := by
  intro letters
  obtain ⟨_,fields,binds⟩ := goZeroTagsAgree texts
  refine ⟨(binds (fun _ => none) forged (queried "q,optional=x".toList) (by decide +kernel) _ _ _ rfl).2,fun f mem => ?_⟩
  cases List.mem_singleton.mp mem
  exact (fields _ (by decide +kernel)).mpr (by decide +kernel)

end Gofly.Rest
