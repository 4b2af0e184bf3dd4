import Gofly.GatewayRoute
/-! Gateway routes imported from an OpenAPI document. A document's maps are listed in the order
of their keys, which is the order the import goes through them. -/
namespace Gofly.Gateway
open Governance Ranking Text
open List (cons_ne_nil map_cons mem_cons)

structure Operation where
  operationID : Str
  tags : List Str
  aggregation : AggregationConfig
  deriving DecidableEq

structure Document where
  paths : List (Str × List (Str × Operation))
  ordered : paths.Pairwise fun a b => lexLess a.1 b.1 = true
  methodsOrdered : ∀ item ∈ paths, item.2.Pairwise fun a b => lexLess a.1 b.1 = true

structure Entry where
  path : Str
  method : Str
  operation : Operation
  deriving DecidableEq

def Document.entries (doc : Document) : List Entry :=
  doc.paths.flatMap fun item => item.2.map fun operation => ⟨item.1,operation.1,operation.2⟩

structure OpenAPIRouteGroup where
  name : Str
  matchTags : List Str
  namePrefix : Str
  gatewayPrefix : Str
  upstreamPrefix : Str
  service : Str
  targets : List Str
  deriving DecidableEq

structure OpenAPIRouteOptions where
  namePrefix : Str
  gatewayPrefix : Str
  upstreamPrefix : Str
  service : Str
  targets : List Str
  retry : RetryPolicy
  groups : List OpenAPIRouteGroup
  deriving DecidableEq

inductive OpenAPIErr where
  | pathsRequired
  | routeRequired
  | operationRouteRequired (method path : Str)
  | unsupportedMethod (method path : Str)
  | requestShape (method path fault : Str)
  | pathRequired
  | pathStart (path : Str)
  | emptySegment (path : Str)
  deriving DecidableEq

structure RouteConfig where
  source : Entry
  service : Str
  targets : List Str
  route : Route
  deriving DecidableEq

def methodPost : Str := ['P','O','S','T']
def methodPut : Str := ['P','U','T']
def methodPatch : Str := ['P','A','T','C','H']
def methodDelete : Str := ['D','E','L','E','T','E']

def openAPIMethods : List Str :=
  [methodGet,methodHead,methodPost,methodPut,methodPatch,methodDelete,methodOptions]
def templated (segment : Str) : Bool := segment.contains '{' || segment.contains '}'

def staticSegments (path : Str) : List Str → Except OpenAPIErr (List Str)
  | [] => .ok []
  | segment :: rest =>
    if segment = [] then .error (.emptySegment path)
    else if templated segment then .ok []
    else (staticSegments path rest).map (segment :: ·)

def segmentsOf (path : Str) : List Str := (Text.trim (· == '/') path).splitOn '/'

def openAPIStaticPrefix (path : Str) : Except OpenAPIErr Str :=
  let path := trimSpace path
  if path = [] then .error .pathRequired
  else if path.head? ≠ some '/' then .error (.pathStart path)
  else if path = ['/'] then .ok ['/']
  else (staticSegments path (segmentsOf path)).map fun static =>
    if static = [] then ['/'] else '/' :: Text.join '/' static

def openAPIUpstreamPrefix (start static : Str) : Str :=
  if trimSpace start = [] ∧ static = ['/'] then [] else joinURLPath [start,static]

section
variable [Letters]

def openAPIHTTPMethod (method : Str) : Option Str :=
  openAPIMethods.find? fun known => toLower known = toLower (trimSpace method)

def openAPIRouteName (method path static operationID namePrefix : Str) : Str :=
  let operationID := trimSpace operationID
  if operationID ≠ [] then trimSpace namePrefix ++ operationID
  else
    let name := toLower method ++
      if static = ['/'] then "-root".toList else static.map fun c => if c = '/' then '-' else c
    let name := if path.contains '{' then name ++ "-wildcard".toList else name
    Text.trim (· == '-') (namePrefix ++ '-' :: name)

def equalFold (a b : Str) : Bool := toLower (toUpper a) = toLower (toUpper b)
def openAPIGroupMatchesOperation (group : OpenAPIRouteGroup) (op : Operation) : Bool :=
  group.matchTags.any fun want => op.tags.any fun got => equalFold (trimSpace want) (trimSpace got)

def openAPIRouteOptionsForOperation (opts : OpenAPIRouteOptions) (op : Operation) : OpenAPIRouteOptions :=
  match opts.groups.find? (openAPIGroupMatchesOperation · op) with
  | none => { opts with groups := [] }
  | some group =>
    { namePrefix :=
        if group.namePrefix ≠ [] then group.namePrefix
        else if group.name ≠ [] then Text.trim (· == '-') group.name ++ ['-']
        else opts.namePrefix
      gatewayPrefix := if group.gatewayPrefix ≠ [] then group.gatewayPrefix else opts.gatewayPrefix
      upstreamPrefix := if group.upstreamPrefix ≠ [] then group.upstreamPrefix else opts.upstreamPrefix
      service := if group.service ≠ [] then group.service else opts.service
      targets := if group.targets ≠ [] then group.targets else opts.targets
      retry := opts.retry
      groups := [] }

def openAPIOptionsHaveAnyUpstream (opts : OpenAPIRouteOptions) : Bool :=
  opts.targets ≠ [] || trimSpace opts.service ≠ [] ||
    opts.groups.any fun group => group.targets ≠ [] || trimSpace group.service ≠ []

def openAPIRouteConfig (method : Str) (entry : Entry) (static : Str) (opts : OpenAPIRouteOptions) : RouteConfig where
  source := entry
  service := trimSpace opts.service
  targets := opts.targets
  route :=
    { name := openAPIRouteName method entry.path static entry.operation.operationID opts.namePrefix
      method := method
      pathPrefix := joinURLPath [opts.gatewayPrefix,static]
      upstreamPrefix := openAPIUpstreamPrefix opts.upstreamPrefix static
      retry := normalizeRetryPolicy opts.retry
      aggregation := normalizeAggregationConfig entry.operation.aggregation }

def entryConfig (shapeFault : Operation → Option Str) (opts : OpenAPIRouteOptions) (entry : Entry) :
    Except OpenAPIErr RouteConfig :=
  match openAPIHTTPMethod entry.method with
  | none => .error (.unsupportedMethod entry.method entry.path)
  | some method =>
    match openAPIStaticPrefix entry.path with
    | .error err => .error err
    | .ok static =>
      match shapeFault entry.operation with
      | some fault => .error (.requestShape method entry.path fault)
      | none =>
        let routeOpts := openAPIRouteOptionsForOperation opts entry.operation
        if routeOpts.targets = [] ∧ trimSpace routeOpts.service = [] then
          .error (.operationRouteRequired method entry.path)
        else .ok (openAPIRouteConfig method entry static routeOpts)

def configKey (config : RouteConfig) : Str := config.route.method ++ ' ' :: config.route.pathPrefix

def importLoop (shapeFault : Operation → Option Str) (opts : OpenAPIRouteOptions) :
    List Entry → (seen : List Str) → Except OpenAPIErr (List RouteConfig)
  | [],_ => .ok []
  | entry :: rest,seen =>
    match entryConfig shapeFault opts entry with
    | .error err => .error err
    | .ok config =>
      if seen.contains (configKey config) then importLoop shapeFault opts rest seen
      else (importLoop shapeFault opts rest (configKey config :: seen)).map (config :: ·)

def routeConfigsFromOpenAPI (shapeFault : Operation → Option Str) (opts : OpenAPIRouteOptions)
    (doc : Document) : Except OpenAPIErr (List RouteConfig) :=
  if doc.paths = [] then .error .pathsRequired
  else if !openAPIOptionsHaveAnyUpstream opts then .error .routeRequired
  else
    match importLoop shapeFault opts doc.entries [] with
    | .error err => .error err
    | .ok [] => .error .pathsRequired
    | .ok configs => .ok configs

def normalizeConfig (config : RouteConfig) : RouteConfig := { config with route := normalizeRoute config.route }
def matchImported (configs : List RouteConfig) (method path : Str) : Option RouteConfig :=
  matchRoute RouteConfig.route (configs.map normalizeConfig) method path

def entryMade (opts : OpenAPIRouteOptions) (entry : Entry) : RouteConfig :=
  openAPIRouteConfig ((openAPIHTTPMethod entry.method).getD []) entry
    ((openAPIStaticPrefix entry.path).toOption.getD ['/']) (openAPIRouteOptionsForOperation opts entry.operation)

def entryRoute (opts : OpenAPIRouteOptions) (entry : Entry) : Route := normalizeRoute (entryMade opts entry).route

theorem entryConfigMade (ok : entryConfig shapeFault opts entry = .ok config) :
    config = entryMade opts entry ∧ (∃ method, openAPIHTTPMethod entry.method = some method) ∧
      ∃ static, openAPIStaticPrefix entry.path = .ok static := by
  unfold entryConfig at ok
  split at ok <;> try contradiction
  rename_i method known
  split at ok <;> try contradiction
  rename_i static got
  split at ok <;> try contradiction
  simp only at ok
  split at ok <;> cases ok
  refine ⟨?_,⟨method,known⟩,static,got⟩
  simp only [entryMade,known,got,Option.getD_some,Except.toOption]

theorem importFirsts (ok : importLoop shapeFault opts entries seen = .ok configs) :
    configs = firsts configKey seen (entries.map (entryMade opts)) ∧
      ∀ entry ∈ entries, ∃ config, entryConfig shapeFault opts entry = .ok config := by
  induction entries generalizing seen configs with
  | nil =>
    cases ok
    exact ⟨rfl,nofun⟩
  | cons entry rest ih =>
    simp only [importLoop,List.contains_iff_mem] at ok
    split at ok <;> try contradiction
    rename_i made
    obtain ⟨rfl,_⟩ := entryConfigMade made
    split at ok
    · rename_i old
      obtain ⟨kept,all⟩ := ih ok
      refine ⟨by simpa only [map_cons,firsts,old,if_true] using kept,fun other mem => ?_⟩
      rcases mem_cons.mp mem with rfl | later
      · exact ⟨_,made⟩
      exact all other later
    rename_i new
    cases later : importLoop shapeFault opts rest (configKey (entryMade opts entry) :: seen) with
    | error => rw [later] at ok; cases ok
    | ok =>
      rw [later] at ok
      cases ok
      obtain ⟨kept,all⟩ := ih later
      refine ⟨by simp only [map_cons,firsts,new,if_false,← kept],fun other mem => ?_⟩
      rcases mem_cons.mp mem with rfl | later
      · exact ⟨_,made⟩
      exact all other later

theorem acceptedLoop (ok : routeConfigsFromOpenAPI shapeFault opts doc = .ok configs) :
    importLoop shapeFault opts doc.entries [] = .ok configs := by
  unfold routeConfigsFromOpenAPI at ok
  split at ok <;> try contradiction
  split at ok <;> try contradiction
  split at ok <;> cases ok
  assumption

theorem methodPlain (got : openAPIHTTPMethod method = some known) : ' ' ∉ known := by
  have mem : known ∈ openAPIMethods := List.mem_of_find?_eq_some got
  have plain : ∀ known ∈ openAPIMethods, ' ' ∉ known := by decide
  exact plain known mem

theorem keyExact (known : ∃ method, openAPIHTTPMethod a.method = some method)
    (also : ∃ method, openAPIHTTPMethod b.method = some method)
    (eq : configKey (entryMade opts a) = configKey (entryMade opts b)) :
    (entryMade opts a).route.method = (entryMade opts b).route.method ∧
      (entryMade opts a).route.pathPrefix = (entryMade opts b).route.pathPrefix := by
  obtain ⟨method,known⟩ := known
  obtain ⟨other,also⟩ := also
  have first : ' ' ∉ (entryMade opts a).route.method := by
    simpa [entryMade,openAPIRouteConfig,known] using methodPlain known
  have second : ' ' ∉ (entryMade opts b).route.method := by
    simpa [entryMade,openAPIRouteConfig,also] using methodPlain also
  exact markedSame first second eq

theorem keySame (method : (entryMade opts a).route.method = (entryMade opts b).route.method)
    (start : (entryMade opts a).route.pathPrefix = (entryMade opts b).route.pathPrefix) (m path) :
    (entryRoute opts a).takes m path = (entryRoute opts b).takes m path ∧
      longerPrefix (entryRoute opts) a b = false := by
  have prefixes : (entryRoute opts a).pathPrefix = (entryRoute opts b).pathPrefix := by
    simp only [entryRoute,normalizeRoute,start]
  have methods : (entryRoute opts a).method = (entryRoute opts b).method := by
    simp only [entryRoute,normalizeRoute,method]
  refine ⟨by simp only [Route.takes,prefixes,methods],?_⟩
  simp [longerPrefix,prefixes]

theorem importedBest (ok : routeConfigsFromOpenAPI shapeFault opts doc = .ok configs) (method path) :
    (matchImported configs method path).map RouteConfig.source =
      best (longerPrefix (entryRoute opts)) (fun entry => (entryRoute opts entry).takes method path)
        doc.entries := by
  obtain ⟨kept,all⟩ := importFirsts (acceptedLoop ok)
  have known : ∀ entry ∈ doc.entries, ∃ method, openAPIHTTPMethod entry.method = some method := by
    intro entry mem
    obtain ⟨config,made⟩ := all entry mem
    exact (entryConfigMade made).2.1
  have alike : ∀ a ∈ doc.entries, ∀ b ∈ doc.entries, configKey (entryMade opts a) = configKey (entryMade opts b) →
      (entryRoute opts a).takes method path = (entryRoute opts b).takes method path ∧
        longerPrefix (entryRoute opts) a b = false := by
    intro a mem b also eq
    obtain ⟨methods,prefixes⟩ := keyExact (known a mem) (known b also) eq
    exact keySame methods prefixes method path
  have eq := firstsBest (longerWeak (entryRoute opts)) [] alike
  rw [matchImported,matchBest,kept,firstsMap,List.map_map,bestMap,Option.map_map]
  simp only [List.not_mem_nil,not_false_eq_true,decide_true,List.filter_true] at eq
  exact (congrFun Option.map_id _).trans eq
end

abbrev SegmentFits (segment value : Str) : Prop := if templated segment then value ≠ [] else value = segment

def Instance (template path : Str) : Prop := List.Forall₂ SegmentFits (template.splitOn '/') (path.splitOn '/')

theorem staticKept (ok : staticSegments path segments = .ok static) :
    ∃ others, segments = static ++ others ∧ ∀ segment ∈ static, segment ≠ [] ∧ templated segment = false := by
  induction segments generalizing static with
  | nil =>
    cases ok
    exact ⟨[],rfl,nofun⟩
  | cons segment rest ih =>
    simp only [staticSegments] at ok
    split at ok <;> try contradiction
    rename_i full
    split at ok
    · cases ok
      exact ⟨segment :: rest,rfl,nofun⟩
    rename_i plain
    cases later : staticSegments path rest with
    | error => rw [later] at ok; cases ok
    | ok =>
      rw [later] at ok
      cases ok
      obtain ⟨others,whole,kept⟩ := ih later
      refine ⟨others,by rw [whole]; rfl,fun other member => ?_⟩
      rcases mem_cons.mp member with rfl | member
      · exact ⟨full,by simpa using plain⟩
      exact kept other member

theorem staticFits (plain : ∀ segment ∈ static, templated segment = false)
    (fits : List.Forall₂ SegmentFits (static ++ others) values) : ∃ rest, values = static ++ rest := by
  induction static generalizing values with
  | nil => exact ⟨values,rfl⟩
  | cons segment static ih =>
    cases fits with
    | cons first later =>
      obtain ⟨rest,rfl⟩ := ih (fun segment mem => plain segment (List.mem_cons_of_mem _ mem)) later
      simp only [SegmentFits,plain segment List.mem_cons_self] at first
      exact ⟨rest,by rw [first]; rfl⟩

structure Cut (static : List Str) (start path : Str) : Prop where
  whole : ∀ segment ∈ static, segment ≠ [] ∧ '/' ∉ segment
  start : start = if static = [] then ['/'] else '/' :: Text.join '/' static
  path : ∃ rest, static ++ rest ≠ [] ∧ path = '/' :: Text.join '/' (static ++ rest)

theorem instancePath (fits : Instance ('/' :: rest) path) :
    ∃ values, values ≠ [] ∧ List.Forall₂ SegmentFits (rest.splitOn '/') values ∧ path = '/' :: join '/' values := by
  rw [Instance] at fits
  generalize pieces : path.splitOn '/' = values at fits
  cases fits with
  | @cons _ value _ values first later =>
    cases (show value = [] from first)
    have some : values ≠ [] := by
      rintro rfl
      exact List.splitOn_ne_nil '/' rest (List.forall₂_nil_right_iff.mp later)
    refine ⟨values,some,later,?_⟩
    have back : join '/' (path.splitOn '/') = path := List.intercalate_splitOn '/'
    rw [← back,pieces]
    exact joinAppend '/' (cons_ne_nil [] []) some

theorem singleTrim (single : rest.head? ≠ some '/') :
    trim (· == '/') ('/' :: rest) = rest.rdropWhile (· == '/') := by
  have front : ('/' :: rest).dropWhile (· == '/') = rest := by
    cases rest with
    | nil => rfl
    | cons c =>
      have other : c ≠ '/' := by simpa using single
      simp [other]
  rw [trim,front]

theorem templateCut (ok : openAPIStaticPrefix template = .ok start)
    (single : (trimSpace template).tail.head? ≠ some '/') (fits : Instance (trimSpace template) path) :
    ∃ static, Cut static start path := by
  simp only [openAPIStaticPrefix] at ok
  split at ok <;> try contradiction
  split at ok <;> try contradiction
  rename_i slash
  obtain ⟨rest,whole⟩ : ∃ rest, trimSpace template = '/' :: rest := by
    rw [not_not] at slash
    exact List.head?_eq_some_iff.mp slash
  rw [whole] at ok fits single
  rw [List.tail_cons] at single
  obtain ⟨values,some,fitting,eq⟩ := instancePath fits
  split at ok
  · cases ok
    exact ⟨[],nofun,rfl,values,some,eq⟩
  cases got : staticSegments ('/' :: rest) (segmentsOf ('/' :: rest)) with
  | error => rw [got] at ok; cases ok
  | ok static =>
    rw [got] at ok
    cases ok
    obtain ⟨others,cut,kept⟩ := staticKept got
    rw [segmentsOf,singleTrim single] at cut
    have clean : ∀ segment ∈ static, '/' ∉ segment := fun segment mem =>
      pieceWhole (cut ▸ List.mem_append_left others mem)
    -- the slashes at the end of the template only add to the segments
    obtain ⟨more,longer⟩ : ∃ more, rest.splitOn '/' = static ++ more := by
      obtain ⟨tail,parts,slashes⟩ := trimmedTail (· == '/') rest
      cases tail with
      | nil =>
        rw [List.append_nil] at parts
        exact ⟨others,by rw [parts,cut]⟩
      | cons c tail =>
        have slash : c = '/' := by simpa using slashes c List.mem_cons_self
        subst slash
        refine ⟨others ++ tail.splitOn '/',?_⟩
        rw [parts,List.splitOn_append_cons_self,cut,List.append_assoc]
    rw [longer] at fitting
    obtain ⟨rest,rfl⟩ := staticFits (fun segment mem => (kept segment mem).2) fitting
    exact ⟨static,fun segment mem => ⟨(kept segment mem).1,clean segment mem⟩,rfl,rest,some,eq⟩

section
variable {start path : Str} {static : List Str} (gateway : Str)

def underPrefix (gateway path : Str) : Str :=
  let gateway := Text.trim (· == '/') gateway
  if gateway = [] then path else '/' :: gateway ++ path

def gatewayParts (gateway : Str) : List Str :=
  let gateway := Text.trim (· == '/') gateway
  if gateway = [] then [] else [gateway]

section
variable (cut : Cut static start path)
include cut

theorem joinedPrefix : joinURLPath [gateway,start] =
      if gatewayParts gateway ++ static = [] then ['/'] else '/' :: join '/' (gatewayParts gateway ++ static) := by
  have inner : trim (· == '/') start = join '/' static := by
    rw [cut.start]
    split
    · rename_i none
      rw [none]
      rfl
    refine (trimMark rfl _).trans (trimSelf (joinTrimmed fun segment mem => ?_))
    exact ⟨(cut.whole segment mem).1,cleanTrimmed (cut.whole segment mem).2⟩
  have full : static ≠ [] → join '/' static ≠ [] := by
    intro some
    obtain ⟨segment,rest,rfl⟩ := List.exists_cons_of_ne_nil some
    exact joinFilled '/' (cut.whole segment List.mem_cons_self).1 rest
  simp only [joinURLPath,gatewayParts,map_cons,inner]
  by_cases bare : trim (· == '/') gateway = [] <;> by_cases none : static = []
  · simp [bare,none]
  · simp [bare,none,full none]
  · simp [bare,none]
  have both := joinAppend '/' (cons_ne_nil (trim (· == '/') gateway) []) none
  have parts := joinAppend '/' (cons_ne_nil (trim (· == '/') gateway) [])
    (cons_ne_nil (join '/' static) [])
  simp only [List.cons_append,List.nil_append] at both parts
  simp [bare,full none,both,parts]

theorem requestPath : ∃ rest, gatewayParts gateway ++ static ++ rest ≠ [] ∧
      underPrefix gateway path = '/' :: join '/' (gatewayParts gateway ++ static ++ rest) := by
  obtain ⟨rest,some,eq⟩ := cut.path
  refine ⟨rest,by simp_all,?_⟩
  simp only [underPrefix,gatewayParts]
  split
  · exact eq
  rw [List.append_assoc,joinAppend '/' (cons_ne_nil _ _) some,eq]
  simp

theorem cutTaken (plain : trimSpace (joinURLPath [gateway,start]) = joinURLPath [gateway,start]) :
    matchPathPrefix (underPrefix gateway path) (routePrefix (joinURLPath [gateway,start])) = true := by
  obtain ⟨rest,some,eq⟩ := requestPath gateway cut
  have joined := joinedPrefix gateway cut
  by_cases none : gatewayParts gateway ++ static = []
  · rw [if_pos none] at joined
    rw [joined]
    rfl
  rw [if_neg none] at joined
  refine prefixTakes (by rw [joined]; rfl) plain ?_
  rw [joined,eq]
  by_cases spent : rest = []
  · rw [spent,List.append_nil]
    exact .inl rfl
  rw [joinAppend '/' none spent]
  exact .inr ⟨join '/' rest,by simp⟩
end
end

/-- A case mapping that leaves capital letters as they are. -/
class Capitals extends Letters where
  upperKept : ∀ c, c.isUpper = true → toUpper c = c

section
variable [Capitals] {shapeFault : Operation → Option Str} {opts : OpenAPIRouteOptions} {doc : Document}
  {configs : List RouteConfig}

/-- A template with one slash at its front, whose route prefix no trimming of spaces changes. -/
structure Plain (opts : OpenAPIRouteOptions) (entry : Entry) : Prop where
  single : (trimSpace entry.path).tail.head? ≠ some '/'
  unspaced : trimSpace (entryMade opts entry).route.pathPrefix = (entryMade opts entry).route.pathPrefix

def gatewayPrefixFor (opts : OpenAPIRouteOptions) (entry : Entry) : Str :=
  (openAPIRouteOptionsForOperation opts entry.operation).gatewayPrefix

theorem methodKept (got : openAPIHTTPMethod method = some known) : toUpper (trimSpace known) = known := by
  have mem : known ∈ openAPIMethods := List.mem_of_find?_eq_some got
  have capital : (openAPIMethods.all fun known => decide (trimSpace known = known) && known.all Char.isUpper) = true := by
    decide +kernel
  have both := List.all_eq_true.mp capital known mem
  simp only [Bool.and_eq_true,decide_eq_true_eq,List.all_eq_true] at both
  rw [both.1]
  exact (List.map_congr_left fun c mem => Capitals.upperKept c (both.2 c mem)).trans (List.map_id _)

theorem instanceTaken (ok : routeConfigsFromOpenAPI shapeFault opts doc = .ok configs)
    (mem : entry ∈ doc.entries) (plain : Plain opts entry)
    (known : openAPIHTTPMethod entry.method = some method) (fits : Instance (trimSpace entry.path) path) :
    (entryRoute opts entry).takes method (underPrefix (gatewayPrefixFor opts entry) path) = true := by
  obtain ⟨config,made⟩ := (importFirsts (acceptedLoop ok)).2 entry mem
  obtain ⟨_,_,start,got⟩ := entryConfigMade made
  obtain ⟨static,cut⟩ := templateCut got plain.single fits
  have eq : (entryMade opts entry).route.pathPrefix = joinURLPath [gatewayPrefixFor opts entry,start] := by
    simp only [entryMade,openAPIRouteConfig,got,Except.toOption,Option.getD_some,gatewayPrefixFor]
  have taken := cutTaken (gatewayPrefixFor opts entry) cut (eq ▸ plain.unspaced)
  have own : (entryRoute opts entry).method = method := by
    simp only [entryRoute,normalizeRoute,entryMade,openAPIRouteConfig,known,Option.getD_some,methodKept known]
  rw [← eq] at taken
  simp only [Route.takes,own,decide_true,Bool.or_true,Bool.true_and]
  exact taken

/-- The route made for an operation takes every instance of its template, and a request goes to
the operation that leads. -/
theorem operationsRouted (ok : routeConfigsFromOpenAPI shapeFault opts doc = .ok configs) :
    (∀ entry ∈ doc.entries, Plain opts entry → ∀ method path, openAPIHTTPMethod entry.method = some method →
      Instance (trimSpace entry.path) path →
      (entryRoute opts entry).takes method (underPrefix (gatewayPrefixFor opts entry) path) = true) ∧
    ∀ method request entry, (matchImported configs method request).map RouteConfig.source = some entry ↔
      ∃ i, Ranking.Leads (longerPrefix (entryRoute opts)) (fun entry => (entryRoute opts entry).takes method request)
        doc.entries i entry := by
  refine ⟨fun entry member plain method path known fits => instanceTaken ok member plain known fits,
    fun method request entry => ?_⟩
  rw [importedBest ok]
  exact bestLeads (longerWeak (entryRoute opts))
end

theorem asciiKept (capital : c.isUpper = true) : asciiLetters.toUpper c = c := by
  have bounds : 65 ≤ c.toNat ∧ c.toNat ≤ 90 := of_decide_eq_true capital
  refine Char.toNat_inj.mp ((upperVal c).trans ?_)
  split_ifs <;> omega

@[reducible]
def asciiCapitals : Capitals where
  toLetters := Governance.asciiLetters
  upperKept _ := asciiKept

def listEntry : Entry := ⟨"/u".toList,"get".toList,⟨"list".toList,[],⟨false,[]⟩⟩⟩
def itemEntry : Entry := ⟨"/u/{id}".toList,"get".toList,⟨"item".toList,[],⟨false,[]⟩⟩⟩

def usersDoc : Document where
  paths := [(listEntry.path,[(listEntry.method,listEntry.operation)]),
    (itemEntry.path,[(itemEntry.method,itemEntry.operation)])]
  ordered := by decide
  methodsOrdered := by decide

def usersOptions : OpenAPIRouteOptions := ⟨[],[],[],[],["http://h".toList],⟨0,0,[],[],0,0,0⟩,[]⟩

theorem itemFallsToList :
    let _ := asciiCapitals
    ∃ configs, routeConfigsFromOpenAPI (fun _ => none) usersOptions usersDoc = .ok configs ∧
      itemEntry ∈ usersDoc.entries ∧ Instance itemEntry.path "/u/7".toList ∧
      ¬ Instance listEntry.path "/u/7".toList ∧
      (matchImported configs methodGet "/u/7".toList).map RouteConfig.source = some listEntry ∧
      listEntry.operation.operationID ≠ itemEntry.operation.operationID := by
  exact ⟨_,rfl,by decide,by unfold Instance; decide,by unfold Instance; decide,by decide +kernel,by decide⟩

theorem listRouted :
    let _ := asciiCapitals
    (entryRoute usersOptions itemEntry).takes methodGet
        (underPrefix (gatewayPrefixFor usersOptions itemEntry) "/u/7".toList) = true ∧
      ∃ i, Leads (longerPrefix (entryRoute usersOptions))
        (fun entry => (entryRoute usersOptions entry).takes methodGet "/u/7".toList) usersDoc.entries i listEntry := by
  intro _
  have ok : routeConfigsFromOpenAPI (fun _ => none) usersOptions usersDoc =
      .ok [entryMade usersOptions listEntry] := by decide +kernel
  obtain ⟨taken,routed⟩ := operationsRouted ok
  exact ⟨taken itemEntry (by decide) ⟨by decide,by decide⟩ methodGet _ (by decide) (by unfold Instance; decide),
    (routed methodGet _ listEntry).mp (by decide +kernel)⟩

end Gofly.Gateway
