import Gofly.Governance
/-! Gateway routes: the policies a route carries, the normal form it is brought into, and
which route a request path falls to. Texts are lists of characters. -/
namespace Gofly.Gateway
open Governance

structure RetryPolicy where
  attempts : Int
  backoff : Int
  statuses : List Int
  methods : List Str
  budgetRate : Int
  budgetBurst : Int
  maxBodyBytes : Int
  deriving DecidableEq

def statusInternalServerError : Int := 500
def statusBadRequest : Int := 400
def statusOK : Int := 200
def statusBadGateway : Int := 502
def statusServiceUnavailable : Int := 503
def statusGatewayTimeout : Int := 504

def methodGet : Str := ['G','E','T']
def methodHead : Str := ['H','E','A','D']
def methodOptions : Str := ['O','P','T','I','O','N','S']

section
variable [Letters]

def normalizeMethods (methods : List Str) : List Str :=
  if methods = [] then [methodGet,methodHead,methodOptions]
  else (methods.map fun method => toUpper (trimSpace method)).filter (· ≠ [])

def normalizeRetryPolicy (policy : RetryPolicy) : RetryPolicy where
  attempts := if policy.attempts ≤ 0 then 1 else policy.attempts
  backoff := if policy.backoff < 0 then 0 else policy.backoff
  statuses :=
    if policy.statuses = [] then [statusBadGateway,statusServiceUnavailable,statusGatewayTimeout]
    else policy.statuses
  methods := normalizeMethods policy.methods
  budgetRate := policy.budgetRate
  budgetBurst :=
    if policy.budgetBurst ≤ 0 ∧ policy.budgetRate > 0 then policy.budgetRate else policy.budgetBurst
  maxBodyBytes := if policy.maxBodyBytes < 0 then 0 else policy.maxBodyBytes

theorem normalizedAttempts (policy) : 1 ≤ (normalizeRetryPolicy policy).attempts := by
  unfold normalizeRetryPolicy
  dsimp only
  split <;> omega

def RetryPolicy.matchesMethod (p : RetryPolicy) (method : Str) : Bool :=
  p.methods.any (· = toUpper method)
end

def RetryPolicy.shouldRetryStatus (p : RetryPolicy) (status : Int) : Bool :=
  p.statuses.any (· = status)

structure AggregationStep where
  name : Str
  method : Str
  required : Bool
  retry : RetryPolicy
  fallback : Str
  deriving DecidableEq

structure AggregationConfig where
  enabled : Bool
  steps : List AggregationStep
  deriving DecidableEq

structure Route where
  name : Str
  method : Str
  pathPrefix : Str
  upstreamPrefix : Str
  retry : RetryPolicy
  aggregation : AggregationConfig
  deriving DecidableEq

def trimRight (s : Str) : Str := s.rdropWhile (· == '/')

def cleanPrefix (s : Str) : Str :=
  let s := trimSpace s
  if s = [] then [] else trimRight (if s.head? = some '/' then s else '/' :: s)

def matchPathPrefix (path start : Str) : Bool :=
  start = ['/'] || path = start || (trimRight start ++ ['/']).isPrefixOf path
def routePrefix (s : Str) : Str := if cleanPrefix s = [] then ['/'] else cleanPrefix s

theorem prefixTakes (slash : start.head? = some '/') (plain : trimSpace start = start)
    (below : path = start ∨ start ++ ['/'] <+: path) : matchPathPrefix path (routePrefix start) = true := by
  have clean : cleanPrefix start = trimRight start := by
    have full : start ≠ [] := by rintro rfl; cases slash
    simp only [cleanPrefix,plain,if_neg full,if_pos slash]
  unfold routePrefix matchPathPrefix
  rw [clean]
  split
  · rfl
  have twice : trimRight (trimRight start) = trimRight start := List.rdropWhile_idempotent _ start
  obtain ⟨tail,whole,slashes⟩ := Text.trimmedTail (· == '/') start
  rw [twice,Bool.or_eq_true,Bool.or_eq_true,decide_eq_true_eq,decide_eq_true_eq, List.isPrefixOf_iff_prefix]
  change start = trimRight start ++ tail at whole
  cases tail with
  | nil =>
    rw [List.append_nil] at whole
    rw [← whole]
    exact below.imp .inr id
  | cons c tail =>
    have slash : c = '/' := by simpa using slashes c List.mem_cons_self
    have mem : trimRight start ++ ['/'] <+: start := ⟨tail,by rw [List.append_assoc,← slash]; exact whole.symm⟩
    refine .inr (mem.trans ?_)
    rcases below with rfl | below
    · exact List.prefix_refl _
    exact (List.prefix_append _ _).trans below

def joinURLPath (parts : List Str) : Str :=
  let out := (parts.map (Text.trim (· == '/'))).filter (· ≠ [])
  if out = [] then ['/'] else '/' :: Text.join '/' out

def routeKey (route : Route) : Str :=
  if route.name ≠ [] then route.name
  else if route.method ≠ [] then route.method ++ ' ' :: route.pathPrefix
  else route.pathPrefix

section
variable [Letters]

def normalizeAggregationConfig (conf : AggregationConfig) : AggregationConfig :=
  { conf with
    steps := conf.steps.map fun step =>
      { step with
        name := trimSpace step.name
        method := toUpper (trimSpace step.method)
        retry := normalizeRetryPolicy step.retry } }

-- the resolver, the copies and the validation of mappings and payloads are not part of it
def normalizeRoute (route : Route) : Route :=
  { route with
    pathPrefix := routePrefix route.pathPrefix
    upstreamPrefix := cleanPrefix route.upstreamPrefix
    method := toUpper (trimSpace route.method)
    retry := normalizeRetryPolicy route.retry
    aggregation := normalizeAggregationConfig route.aggregation }
end

section
variable {α : Type} (routeOf : α → Route)

def Route.takes (route : Route) (method path : Str) : Bool :=
  (route.method = [] || route.method = method) && matchPathPrefix path route.pathPrefix

def longerPrefix (a b : α) : Bool :=
  decide (Governance.utf8Len (routeOf a).pathPrefix > Governance.utf8Len (routeOf b).pathPrefix)
def sortRoutes (routes : List α) : List α := Ranking.stableSort (longerPrefix routeOf) routes
def matchRoute (routes : List α) (method path : Str) : Option α :=
  (sortRoutes routeOf routes).find? fun a => (routeOf a).takes method path

theorem longerWeak : Ranking.Weak (longerPrefix routeOf) := by
  refine ⟨fun above => ?_,fun first second => ?_⟩
  · simp only [longerPrefix,decide_eq_true_eq,decide_eq_false_iff_not] at above ⊢
    omega
  simp only [longerPrefix,decide_eq_false_iff_not] at first second ⊢
  omega

theorem matchBest (routes method path) : matchRoute routeOf routes method path =
      Ranking.best (longerPrefix routeOf) (fun a => (routeOf a).takes method path) routes :=
  Ranking.sortFind (longerWeak routeOf) routes
end

section
open Ranking
variable {δ ε : Type}

structure TableRoute (δ : Type) where
  route : Route
  rest : δ
  deriving DecidableEq

inductive TableErr (ε : Type) where
  | routeRequired
  | routeExists
  | noRoute
  | invalid (err : ε)
  deriving DecidableEq

abbrev Table (δ : Type) := List (TableRoute δ)
def TableRoute.has (method start : Str) (r : TableRoute δ) : Bool :=
  r.route.method = method && r.route.pathPrefix = start

def routeIndex (routes : Table δ) (method start : Str) : Option Nat := routes.findIdx? (TableRoute.has method start)
def sortTable (routes : Table δ) : Table δ := sortRoutes TableRoute.route routes

section
variable [Letters] (settle : Route → δ → Except ε δ)

def normalizeTableRoute (r : TableRoute δ) : Except (TableErr ε) (TableRoute δ) :=
  match settle r.route r.rest with
  | .error err => .error (.invalid err)
  | .ok rest => .ok ⟨normalizeRoute r.route,rest⟩

def normalizeAll : Table δ → Except (TableErr ε) (Table δ)
  | [] => .ok []
  | r :: rest =>
    match normalizeTableRoute settle r with
    | .error err => .error err
    | .ok normalized => (normalizeAll rest).map (normalized :: ·)

def normalizeRoutes (routes : Table δ) : Except (TableErr ε) (Table δ) := (normalizeAll settle routes).map sortTable
def setRoutes (routes : Table δ) : Except (TableErr ε) (Table δ) :=
  if routes = [] then .error .routeRequired else normalizeRoutes settle routes

def addRoute (table : Table δ) (r : TableRoute δ) : Except (TableErr ε) (Table δ) :=
  match normalizeTableRoute settle r with
  | .error err => .error err
  | .ok normalized =>
    match routeIndex table normalized.route.method normalized.route.pathPrefix with
    | some _ => .error .routeExists
    | none => .ok (sortTable (table ++ [normalized]))

def updateRoute (table : Table δ) (r : TableRoute δ) : Except (TableErr ε) (Table δ) :=
  match normalizeTableRoute settle r with
  | .error err => .error err
  | .ok normalized =>
    match routeIndex table normalized.route.method normalized.route.pathPrefix with
    | none => .error .noRoute
    | some i => .ok (sortTable (table.set i normalized))

def upsertRoute (table : Table δ) (r : TableRoute δ) : Except (TableErr ε) (Table δ) :=
  match normalizeTableRoute settle r with
  | .error err => .error err
  | .ok normalized =>
    match routeIndex table normalized.route.method normalized.route.pathPrefix with
    | none => .ok (sortTable (table ++ [normalized]))
    | some i => .ok (sortTable (table.set i normalized))

def removeRoute (table : Table δ) (method start : Str) : Bool × Table δ :=
  match routeIndex table (toUpper (trimSpace method)) (routePrefix start) with
  | none => (false,table)
  | some i => (true,table.eraseIdx i)

inductive TableOp (δ : Type) where
  | add (r : TableRoute δ)
  | update (r : TableRoute δ)
  | upsert (r : TableRoute δ)
  | remove (method start : Str)
  | replace (routes : Table δ)

def operate (table : Table δ) : TableOp δ → Table δ
  | .add r => ((addRoute settle table r).toOption).getD table
  | .update r => ((updateRoute settle table r).toOption).getD table
  | .upsert r => ((upsertRoute settle table r).toOption).getD table
  | .remove method start => (removeRoute table method start).2
  | .replace routes => ((setRoutes settle routes).toOption).getD table

def tableAfter (routes : Table δ) (ops : List (TableOp δ)) : Except (TableErr ε) (Table δ) :=
  (setRoutes settle routes).map fun table => ops.foldl (operate settle) table
end

def matchTable (table : Table δ) (method path : Str) : Option (TableRoute δ) :=
  table.find? fun r => r.route.takes method path

/-! The routes in the order of their arrival: a new one comes last, one that is replaced
keeps its place. -/

section
variable [Letters] (settle : Route → δ → Except ε δ)

def arrive (arrivals : Table δ) : TableOp δ → Table δ
  | .add r =>
    match normalizeTableRoute settle r with
    | .error _ => arrivals
    | .ok new =>
      if arrivals.any (TableRoute.has new.route.method new.route.pathPrefix) then arrivals else arrivals ++ [new]
  | .update r =>
    match normalizeTableRoute settle r with
    | .error _ => arrivals
    | .ok new => Ranking.replaceFirst (TableRoute.has new.route.method new.route.pathPrefix) new arrivals
  | .upsert r =>
    match normalizeTableRoute settle r with
    | .error _ => arrivals
    | .ok new =>
      if arrivals.any (TableRoute.has new.route.method new.route.pathPrefix) then
        Ranking.replaceFirst (TableRoute.has new.route.method new.route.pathPrefix) new arrivals
      else arrivals ++ [new]
  | .remove method start => arrivals.eraseP (TableRoute.has (toUpper (trimSpace method)) (routePrefix start))
  | .replace routes => if routes = [] then arrivals else ((normalizeAll settle routes).toOption).getD arrivals

def arrivals (routes : Table δ) (ops : List (TableOp δ)) : Table δ :=
  ops.foldl (arrive settle) (((normalizeAll settle routes).toOption).getD [])
end

section
variable {list : Table δ}

theorem hasLevel (first : r.has method start = true) (second : s.has method start = true) :
    longerPrefix TableRoute.route r s = false := by
  simp only [TableRoute.has,Bool.and_eq_true,decide_eq_true_eq] at first second
  simp [longerPrefix,first.2,second.2]

theorem indexSorted : routeIndex (sortTable list) method start = none ↔ list.any (TableRoute.has method start) = false := by
  rw [routeIndex,List.findIdx?_eq_none_iff,List.any_eq_false]
  simp only [sortTable,sortRoutes,memSort,Bool.not_eq_true]

theorem indexFound (got : routeIndex (sortTable list) method start = some i) :
    list.any (TableRoute.has method start) = true := by
  cases any : list.any (TableRoute.has method start) with
  | true => rfl
  | false =>
    rw [indexSorted.mpr any] at got
    cases got

theorem sortedAppend (new) : sortTable (sortTable list ++ [new]) = sortTable (list ++ [new]) :=
  sortAppend (longerWeak _) list new

theorem sortedReplace (own : new.has method start = true) (got : routeIndex (sortTable list) method start = some i) :
    sortTable ((sortTable list).set i new) = sortTable (replaceFirst (TableRoute.has method start) new list) := by
  have level : ∀ r : TableRoute δ, r.has method start = true →
      longerPrefix TableRoute.route new r = false ∧ longerPrefix TableRoute.route r new = false :=
    fun r has => ⟨hasLevel own has,hasLevel has own⟩
  rw [setFirst got,sortTable,sortRoutes,sortTable,sortRoutes,sortReplace (longerWeak _) level,
    sortTwice (longerWeak _)]
  rfl

theorem replacedNone (gone : list.any (TableRoute.has method start) = false) :
    replaceFirst (TableRoute.has method start) new list = list := by
  induction list with
  | nil => rfl
  | cons _ _ ih =>
    rw [List.any_cons,Bool.or_eq_false_iff] at gone
    simp [replaceFirst,gone.1,ih gone.2]

theorem sortedErase (got : routeIndex (sortTable list) method start = some i) :
    (sortTable list).eraseIdx i = sortTable (list.eraseP (TableRoute.has method start)) := by
  rw [eraseFirst got]
  exact sortErase (longerWeak _) (fun _ _ => hasLevel) list

variable [Letters]

theorem normalizedOwn (ok : normalizeTableRoute settle r = .ok new) :
    new.has new.route.method new.route.pathPrefix = true ∧ new.route = normalizeRoute r.route := by
  unfold normalizeTableRoute at ok
  split at ok <;> cases ok
  exact ⟨by simp [TableRoute.has],rfl⟩

theorem operateSorted (op) : operate settle (sortTable list) op = sortTable (arrive settle list op) := by
  cases op with
  | add =>
    simp only [operate,addRoute,arrive]
    split
    · rfl
    rename_i new ok
    split
    · rename_i got
      rw [if_pos (indexFound got)]
      rfl
    rename_i gone
    rw [if_neg (by rw [indexSorted.mp gone]; simp)]
    exact sortedAppend new
  | update =>
    simp only [operate,updateRoute,arrive]
    split
    · rfl
    rename_i ok
    split
    · rename_i gone
      rw [replacedNone (indexSorted.mp gone)]
      rfl
    exact sortedReplace (normalizedOwn ok).1 ‹_›
  | upsert =>
    simp only [operate,upsertRoute,arrive]
    split
    · rfl
    rename_i new ok
    split
    · rename_i gone
      rw [if_neg (by rw [indexSorted.mp gone]; simp)]
      exact sortedAppend new
    rename_i got
    rw [if_pos (indexFound got)]
    exact sortedReplace (normalizedOwn ok).1 got
  | remove =>
    simp only [operate,removeRoute,arrive]
    split
    · rename_i gone
      rw [List.eraseP_of_forall_not]
      intro r mem
      have none := List.any_eq_false.mp (indexSorted.mp gone) r mem
      simpa using none
    exact sortedErase ‹_›
  | replace routes =>
    simp only [operate,setRoutes,arrive,normalizeRoutes]
    split
    · rfl
    cases normalizeAll settle routes <;> rfl

theorem opsSorted (ops : List (TableOp δ)) :
    ops.foldl (operate settle) (sortTable list) = sortTable (ops.foldl (arrive settle) list) := by
  induction ops generalizing list with
  | nil => rfl
  | cons _ _ ih => rw [List.foldl_cons,operateSorted,ih,List.foldl_cons]

theorem tableSorted (built : tableAfter settle routes ops = .ok table) :
    table = sortTable (arrivals settle routes ops) := by
  simp only [tableAfter,setRoutes,normalizeRoutes] at built
  split at built
  · cases built
  cases all : normalizeAll settle routes with
  | error => rw [all] at built; cases built
  | ok =>
    rw [all] at built
    cases built
    rw [arrivals,all]
    exact opsSorted ops
end

section
variable {path : Str}

theorem utf8LenAppend (a b) : utf8Len (a ++ b) = utf8Len a + utf8Len b := by
  induction a with
  | nil => simp [utf8Len]
  | cons _ _ ih => simp only [List.cons_append,utf8Len,ih,Nat.add_assoc]

theorem utf8LenFilled (empty : utf8Len a = 0) : a = [] := by
  cases a with
  | nil => rfl
  | cons c =>
    have size : 0 < c.utf8Size := Char.utf8Size_pos c
    simp only [utf8Len] at empty
    omega

theorem prefixLen (first : a <+: path) (second : b <+: path) (eq : utf8Len a = utf8Len b) : a = b := by
  rcases List.prefix_or_prefix_of_prefix first second with ⟨more,whole⟩ | ⟨more,whole⟩
  · have sum := utf8LenAppend a more
    rw [whole] at sum
    rw [← whole,utf8LenFilled (show utf8Len more = 0 by omega),List.append_nil]
  have sum := utf8LenAppend b more
  rw [whole] at sum
  rw [← whole,utf8LenFilled (show utf8Len more = 0 by omega),List.append_nil]

theorem routePrefixNormal (s) :
    routePrefix s = ['/'] ∨ (routePrefix s).head? = some '/' ∧ trimRight (routePrefix s) = routePrefix s := by
  unfold routePrefix
  split
  · exact .inl rfl
  rename_i full
  refine .inr ?_
  unfold cleanPrefix at full ⊢
  simp only at full ⊢
  split
  · rename_i empty
    rw [if_pos empty] at full
    contradiction
  rename_i some
  rw [if_neg some] at full
  refine ⟨?_,List.rdropWhile_idempotent _ _⟩
  generalize text : (if (trimSpace s).head? = Option.some '/' then trimSpace s else '/' :: trimSpace s) = whole at full ⊢
  have slash : whole.head? = Option.some '/' := by
    rw [← text]
    split
    · assumption
    rfl
  obtain ⟨tail,parts⟩ : trimRight whole <+: whole := List.rdropWhile_prefix (· == '/') whole
  rw [← parts,List.head?_append_of_ne_nil _ full] at slash
  exact slash

theorem normalSame (first : matchPathPrefix path (routePrefix a) = true)
    (second : matchPathPrefix path (routePrefix b) = true)
    (eq : utf8Len (routePrefix a) = utf8Len (routePrefix b)) : routePrefix a = routePrefix b := by
  have root : ∀ s : Str, utf8Len s = utf8Len ['/'] → s.head? = some '/' → s = ['/'] := by
    intro s size slash
    obtain ⟨rest,rfl⟩ := List.head?_eq_some_iff.mp slash
    have none : utf8Len rest = 0 := by simpa [utf8Len] using size
    rw [utf8LenFilled none]
  have above : ∀ s : Str, trimRight s = s → s ≠ ['/'] → matchPathPrefix path s = true → s <+: path := by
    intro s trimmed other taken
    simp only [matchPathPrefix,trimmed,other,decide_false,Bool.false_or,Bool.or_eq_true,decide_eq_true_eq,
      List.isPrefixOf_iff_prefix] at taken
    rcases taken with rfl | below
    · exact List.prefix_refl _
    exact (List.prefix_append _ _).trans below
  by_cases one : routePrefix a = ['/']
  · rw [one] at eq ⊢
    rcases routePrefixNormal b with slash | ⟨slash,_⟩
    · exact slash.symm
    exact (root _ eq.symm slash).symm
  by_cases two : routePrefix b = ['/']
  · rw [two] at eq ⊢
    rcases routePrefixNormal a with slash | ⟨slash,_⟩
    · exact slash
    exact root _ eq slash
  obtain ⟨_,trimmed⟩ := (routePrefixNormal a).resolve_left one
  obtain ⟨_,also⟩ := (routePrefixNormal b).resolve_left two
  exact prefixLen (above _ trimmed one first) (above _ also two second) eq
end

section
variable [Letters] {settle : Route → δ → Except ε δ}

def Normal (list : Table δ) : Prop := ∀ r ∈ list, ∃ route, r.route = normalizeRoute route

theorem normalNew (ok : normalizeTableRoute settle r = .ok new) (normal : Normal list) :
    Normal (list ++ [new]) ∧ ∀ q, Normal (replaceFirst q new list) := by
  have own : ∃ route, new.route = normalizeRoute route := ⟨r.route,(normalizedOwn ok).2⟩
  refine ⟨fun s mem => ?_,fun q s mem => ?_⟩
  · rcases Roster.addMem mem with before | last
    · exact normal s before
    · rwa [last]
  rcases replaceMember mem with rfl | before
  · exact own
  exact normal s before

theorem allNormal (ok : normalizeAll settle routes = .ok list) : Normal list := by
  induction routes generalizing list with
  | nil =>
    cases ok
    exact nofun
  | cons r rest ih =>
    simp only [normalizeAll] at ok
    split at ok <;> try contradiction
    rename_i made
    cases later : normalizeAll settle rest with
    | error => rw [later] at ok; cases ok
    | ok =>
      rw [later] at ok
      cases ok
      intro s member
      rcases List.mem_cons.mp member with rfl | member
      · exact ⟨r.route,(normalizedOwn made).2⟩
      exact ih later s member

theorem arriveNormal (normal : Normal list) (op) : Normal (arrive settle list op) := by
  cases op with
  | add =>
    simp only [arrive]
    split
    · exact normal
    rename_i ok
    split
    · exact normal
    exact (normalNew ok normal).1
  | update =>
    simp only [arrive]
    split
    · exact normal
    exact (normalNew ‹_› normal).2 _
  | upsert =>
    simp only [arrive]
    split
    · exact normal
    rename_i ok
    split
    · exact (normalNew ok normal).2 _
    exact (normalNew ok normal).1
  | remove => exact fun r mem => normal r (List.mem_of_mem_eraseP mem)
  | replace routes =>
    simp only [arrive]
    split
    · exact normal
    cases ok : normalizeAll settle routes with
    | error => exact normal
    | ok => exact allNormal ok

theorem arrivalsNormal (routes ops) : Normal (arrivals settle routes ops) := by
  have every : ∀ list : Table δ, Normal list → Normal (ops.foldl (arrive settle) list) := by
    induction ops with
    | nil => exact fun _ normal => normal
    | cons op _ ih => exact fun list normal => ih _ (arriveNormal normal op)
  refine every _ ?_
  cases ok : normalizeAll settle routes with
  | error => exact nofun
  | ok => exact allNormal ok
end

def Single (table : Table δ) : Prop :=
  ∀ r ∈ table, ∀ s ∈ table, r.route.method = s.route.method → r.route.pathPrefix = s.route.pathPrefix → r = s

structure Rivals (method : Str) (named general : TableRoute δ) : Prop where
  names : named.route.method = method
  asks : method ≠ []
  every : general.route.method = []
  same : named.route.pathPrefix = general.route.pathPrefix

theorem takenMethod {route : Route} (taken : route.takes method path = true) :
    route.method = [] ∨ route.method = method := by
  simp only [Route.takes,Bool.and_eq_true,Bool.or_eq_true,decide_eq_true_eq] at taken
  exact taken.1

section
variable [Letters] {settle : Route → δ → Except ε δ} {routes table : Table δ} {ops : List (TableOp δ)}

section
variable (built : tableAfter settle routes ops = .ok table)
include built

theorem matchArrival (method path) : matchTable table method path =
      best (longerPrefix TableRoute.route) (fun r => r.route.takes method path) (arrivals settle routes ops) := by
  rw [tableSorted built]
  exact sortFind (longerWeak _) _

theorem tableMember : r ∈ table ↔ r ∈ arrivals settle routes ops := by
  rw [tableSorted built,sortTable,sortRoutes,memSort]

theorem matchLongest
    (got : matchTable table method path = some r) (mem : s ∈ table) (taken : s.route.takes method path = true) :
    utf8Len s.route.pathPrefix ≤ utf8Len r.route.pathPrefix := by
  rw [matchArrival built] at got
  have below := bestAbove (longerWeak _) got ((tableMember built).mp mem) taken
  simpa [longerPrefix] using below

theorem levelRivals (single : Single table) (mem : r ∈ table) (other : s ∈ table) (taken : r.route.takes method path = true)
    (too : s.route.takes method path = true) (level : utf8Len r.route.pathPrefix = utf8Len s.route.pathPrefix) :
    r = s ∨ Rivals method r s ∨ Rivals method s r := by
  obtain ⟨a,first⟩ := arrivalsNormal routes ops r ((tableMember built).mp mem)
  obtain ⟨b,second⟩ := arrivalsNormal routes ops s ((tableMember built).mp other)
  have eq : r.route.pathPrefix = s.route.pathPrefix := by
    have above := (Bool.and_eq_true_iff.mp taken).2
    have beside := (Bool.and_eq_true_iff.mp too).2
    rw [first] at above level ⊢
    rw [second] at beside level ⊢
    exact normalSame above beside level
  rcases takenMethod taken with any | named <;> rcases takenMethod too with all | also
  · exact .inl (single r mem s other (any.trans all.symm) eq)
  · by_cases asks : method = []
    · exact .inl (single r mem s other (any.trans (also.trans asks).symm) eq)
    · exact .inr (.inr ⟨also,asks,any,eq.symm⟩)
  · by_cases asks : method = []
    · exact .inl (single r mem s other ((named.trans asks).trans all.symm) eq)
    · exact .inr (.inl ⟨named,asks,all,eq⟩)
  exact .inl (single r mem s other (named.trans also.symm) eq)
end

/-- A request falls to the longest of the prefixes above its path, and of two rivals to the one
that came first. -/
theorem requestsRouted (built : tableAfter settle routes ops = .ok table) (method path : Str) :
    (∀ r, matchTable table method path = some r ↔
      ∃ i, Ranking.Leads (longerPrefix TableRoute.route) (fun r => r.route.takes method path)
        (arrivals settle routes ops) i r) ∧
    (matchTable table method path = none ↔ ∀ r ∈ table, r.route.takes method path = false) ∧
    ∀ others more also, tableAfter settle others more = .ok also → Single table → (∀ r, r ∈ table ↔ r ∈ also) →
      (matchTable table method path = matchTable also method path ∨ ∃ named general, Rivals method named general ∧
        (matchTable table method path = some named ∧ matchTable also method path = some general ∨
          matchTable table method path = some general ∧ matchTable also method path = some named)) := by
  refine ⟨fun r => ?_,?_,fun others more also rebuilt single same => ?_⟩
  · rw [matchArrival built]
    exact bestLeads (longerWeak _)
  · rw [matchTable,List.find?_eq_none]
    simp only [Bool.not_eq_true]
  cases found : matchTable table method path with
  | none =>
    refine .inl (Eq.symm (List.find?_eq_none.mpr fun r member => ?_))
    exact List.find?_eq_none.mp found r ((same r).mpr member)
  | some r =>
    have taken := List.find?_some found
    have member := List.mem_of_find?_eq_some found
    cases beside : matchTable also method path with
    | none => exact absurd taken (List.find?_eq_none.mp beside r ((same r).mp member))
    | some s =>
      have too := List.find?_some beside
      have other := (same s).mpr (List.mem_of_find?_eq_some beside)
      have level := Nat.le_antisymm (matchLongest rebuilt beside ((same r).mp member) taken)
        (matchLongest built found other too)
      rcases levelRivals built single member other taken too level with rfl | rivals | rivals
      · exact .inl rfl
      · exact .inr ⟨r,s,rivals,.inl ⟨rfl,rfl⟩⟩
      · exact .inr ⟨s,r,rivals,.inr ⟨rfl,rfl⟩⟩
end

def anyRoute : TableRoute Unit := ⟨⟨['a'],[],['/','a'],[],⟨1,0,[502],[methodGet],0,0,0⟩,⟨false,[]⟩⟩,()⟩
def getRoute : TableRoute Unit :=
  ⟨⟨['g'],methodGet,['/','a'],[],⟨1,0,[502],[methodGet],0,0,0⟩,⟨false,[]⟩⟩,()⟩

theorem orderDecides :
    let _ := asciiLetters
    let settle : Route → Unit → Except Str Unit := fun _ rest => .ok rest
    tableAfter settle [anyRoute] [.add getRoute] = .ok [anyRoute,getRoute] ∧
      tableAfter settle [getRoute] [.add anyRoute] = .ok [getRoute,anyRoute] ∧ Single [anyRoute,getRoute] ∧
      matchTable [anyRoute,getRoute] methodGet ['/','a'] = some anyRoute ∧
      matchTable [getRoute,anyRoute] methodGet ['/','a'] = some getRoute := by
  exact ⟨by decide +kernel,by decide +kernel,by unfold Single; decide,by decide,by decide⟩

theorem orderRouted :
    let _ := asciiLetters
    let settle : Route → Unit → Except Str Unit := fun _ rest => .ok rest
    (∃ i, Leads (longerPrefix TableRoute.route) (fun r => r.route.takes methodGet ['/','a'])
        (arrivals settle [anyRoute] [.add getRoute]) i anyRoute) ∧
      ∃ named general, Rivals methodGet named general ∧
        (some anyRoute = some named ∧ some getRoute = some general ∨
          some anyRoute = some general ∧ some getRoute = some named) := by
  intro _ settle
  have built : tableAfter settle [anyRoute] [.add getRoute] = .ok [anyRoute,getRoute] := by decide +kernel
  have rebuilt : tableAfter settle [getRoute] [.add anyRoute] = .ok [getRoute,anyRoute] := by decide +kernel
  obtain ⟨leads,_,either⟩ := requestsRouted built methodGet ['/','a']
  have choice := either _ _ _ rebuilt (by unfold Single; decide) (fun _ => List.Perm.mem_iff (.swap _ _ _))
  exact ⟨(leads anyRoute).mp (by decide),choice.resolve_left (by decide)⟩

end
end Gofly.Gateway
