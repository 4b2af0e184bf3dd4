import Gofly.GatewayRoute
import Gofly.UrlPath
/-! The upstream path of a proxied request: the endpoint's base path, the route's upstream
prefix, and what the decoded request path has after the route's own prefix. -/
namespace Gofly.Gateway
open Text
open Governance
open UrlPath

structure Url where
  scheme : Str
  host : Str
  path : Str
  rawPath : Str
  rawQuery : Str
  deriving DecidableEq

inductive TargetErr where
  | parseEndpoint (err : Str)
  | schemeAndHost
  deriving DecidableEq

def rewritePath (route : Route) (requestPath : Str) : Str :=
  if route.pathPrefix = ['/'] then
    if route.upstreamPrefix = [] then requestPath else joinURLPath [route.upstreamPrefix,requestPath]
  else if route.pathPrefix.isPrefixOf requestPath then
    let suffix := requestPath.drop route.pathPrefix.length
    if route.upstreamPrefix = [] then if suffix = [] then ['/'] else suffix
    else joinURLPath [route.upstreamPrefix,suffix]
  else requestPath

def buildTargetURL (parse : Str → Except Str Url) (endpoint : Str) (route : Route) (original : Url) :
    Except TargetErr Url :=
  match parse endpoint with
  | .error err => .error (.parseEndpoint err)
  | .ok base =>
    if base.scheme = [] ∨ base.host = [] then .error .schemeAndHost
    else .ok { base with
      path := joinURLPath [base.path,rewritePath route original.path]
      rawPath := []
      rawQuery := original.rawQuery }

def remainder (route : Route) (path : Str) : Str :=
  if route.pathPrefix = ['/'] then path else path.drop route.pathPrefix.length

def trimSlash (s : Str) : Str := Text.trim (· == '/') s
def partsOf (parts : List Str) : List Str := (parts.map trimSlash).filter (· ≠ [])

theorem joinedParts (parts) :
    joinURLPath parts = if partsOf parts = [] then ['/'] else '/' :: join '/' (partsOf parts) := rfl

theorem partsFilled (mem : part ∈ partsOf parts) : part ≠ [] ∧ Trimmed (· == '/') part := by
  obtain ⟨inside,full⟩ := List.mem_filter.mp mem
  obtain ⟨source,_,rfl⟩ := List.mem_map.mp inside
  exact ⟨by simpa using full,trimTrimmed _ source⟩

theorem trimJoined (parts) : trimSlash (joinURLPath parts) = join '/' (partsOf parts) := by
  rw [joinedParts]
  split
  · rename_i none
    rw [none]
    rfl
  exact (trimMark rfl _).trans (trimSelf (joinTrimmed fun part => partsFilled))

theorem joinedNone (some : partsOf parts ≠ []) : join '/' (partsOf parts) ≠ [] := by
  obtain ⟨part,rest,eq⟩ := List.exists_cons_of_ne_nil some
  rw [eq]
  exact joinFilled '/' (partsFilled (eq ▸ List.mem_cons_self)).1 rest

theorem joinedTwice (base parts) : joinURLPath [base,joinURLPath parts] = joinURLPath (base :: parts) := by
  have inner : partsOf [base,joinURLPath parts] =
      partsOf [base] ++ if partsOf parts = [] then [] else [join '/' (partsOf parts)] := by
    rw [show [base,joinURLPath parts] = [base] ++ [joinURLPath parts] from rfl,partsOf,List.map_append,
      List.filter_append]
    congr 1
    rw [List.map_singleton,trimJoined]
    split
    · rename_i none
      rw [none]
      rfl
    rename_i some
    simp [joinedNone some]
  have outer : partsOf (base :: parts) = partsOf [base] ++ partsOf parts := by
    rw [show base :: parts = [base] ++ parts from rfl,partsOf,List.map_append,List.filter_append]
    rfl
  rw [joinedParts [base,joinURLPath parts],joinedParts (base :: parts),inner,outer]
  by_cases none : partsOf parts = []
  · simp [none]
  by_cases bare : partsOf [base] = []
  · simp [none,bare]
  rw [if_neg none,if_neg (by simp),if_neg (by simp [bare]),
    joinAppend '/' bare (List.cons_ne_nil _ []),joinAppend '/' bare none,joinOne]

theorem joinedMore (parts last) : joinURLPath (parts ++ [last]) =
      if trimSlash last = [] then joinURLPath parts else if partsOf parts = [] then '/' :: trimSlash last
      else joinURLPath parts ++ '/' :: trimSlash last := by
  have whole : partsOf (parts ++ [last]) = partsOf parts ++ if trimSlash last = [] then [] else [trimSlash last] := by
    rw [partsOf,List.map_append,List.filter_append]
    congr 1
    rw [List.map_singleton]
    split
    · rename_i none
      rw [none]
      rfl
    rename_i some
    simp [some]
  rw [joinedParts,whole,joinedParts]
  by_cases none : trimSlash last = []
  · simp [none]
  by_cases bare : partsOf parts = []
  · simp [none,bare]
  rw [if_neg none,if_neg (by simp),if_neg none,if_neg bare,if_neg bare,
    joinAppend '/' bare (List.cons_ne_nil _ []),joinOne,List.cons_append]

section
variable {route : Route}

theorem prefixKept (s) (inner : routePrefix s ≠ ['/']) : trimRight (routePrefix s) = routePrefix s := by
  unfold routePrefix at inner ⊢
  split at inner
  · exact absurd rfl inner
  rename_i some
  rw [if_neg some]
  unfold cleanPrefix at some ⊢
  dsimp only at some ⊢
  split at some
  · exact absurd rfl some
  rename_i full
  rw [if_neg full]
  exact List.rdropWhile_idempotent _ _

theorem takenPrefix (inner : route.pathPrefix ≠ ['/']) (kept : trimRight route.pathPrefix = route.pathPrefix)
    (taken : matchPathPrefix path route.pathPrefix = true) : route.pathPrefix.isPrefixOf path = true := by
  rw [List.isPrefixOf_iff_prefix]
  simp only [matchPathPrefix,kept,Bool.or_eq_true,decide_eq_true_eq, List.isPrefixOf_iff_prefix] at taken
  rcases taken with (root | same) | below
  · exact absurd root inner
  · exact same ▸ List.prefix_refl _
  exact (List.prefix_append _ _).trans below

theorem rewrittenPath (base) (kept : route.pathPrefix ≠ ['/'] → trimRight route.pathPrefix = route.pathPrefix)
    (taken : matchPathPrefix path route.pathPrefix = true) :
    joinURLPath [base,rewritePath route path] = joinURLPath [base,route.upstreamPrefix,remainder route path] := by
  have bare : ∀ rest, route.upstreamPrefix = [] →
      joinURLPath [base,rest] = joinURLPath [base,route.upstreamPrefix,rest] := by
    intro rest none
    rw [none]
    rfl
  unfold rewritePath remainder
  by_cases root : route.pathPrefix = ['/']
  · rw [if_pos root]
    split
    · exact bare path ‹_›
    exact joinedTwice base _
  rw [if_neg root,if_pos (takenPrefix root (kept root) taken)]
  dsimp only
  split
  · rename_i none
    split
    · rename_i spent
      rw [spent,← bare [] none]
      rfl
    exact bare _ none
  exact joinedTwice base _
end

def segmentsBelow (path : Str) : List Str := (trimSlash path).splitOn '/'

theorem segmentsWhole {segment} (mem : segment ∈ segmentsBelow path) : '/' ∉ segment := pieceWhole mem

theorem segmentsJoined (path) : join '/' (segmentsBelow path) = trimSlash path := List.intercalate_splitOn '/'

theorem joinedInside (parts last) : Inside (joinURLPath parts) (joinURLPath (parts ++ [last])) := by
  rw [joinedMore]
  split
  · exact .inr (.inl rfl)
  split
  · exact .inl (by rw [joinedParts,if_pos ‹_›])
  exact .inr (.inr ⟨trimSlash last,by simp⟩)

theorem joinedRemoved (plain : UrlPath.Plain (segmentsBelow (joinURLPath parts)))
    (still : stays 0 (segmentsBelow last) = true) :
    Inside (joinURLPath parts) (removeDotSegments (joinURLPath (parts ++ [last]))) := by
  by_cases none : partsOf parts = []
  · exact .inl (by rw [joinedParts,if_pos none])
  have outer : joinURLPath parts = '/' :: join '/' (segmentsBelow (joinURLPath parts)) := by
    rw [segmentsJoined,trimJoined,joinedParts,if_neg none]
  have some : segmentsBelow (joinURLPath parts) ≠ [] := List.splitOn_ne_nil _ _
  have more : segmentsBelow last ≠ [] := List.splitOn_ne_nil _ _
  rw [joinedMore,if_neg none]
  split
  · have alone : stays 0 [] = true := rfl
    have inside := insideRemoved some (fun segment mem => segmentsWhole (by simpa using mem)) plain alone
    rwa [List.append_nil,← outer] at inside
  have inside := insideRemoved some (fun segment mem =>
    (List.mem_append.mp mem).elim segmentsWhole segmentsWhole) plain still
  rwa [joinAppend '/' some more,segmentsJoined last,← List.cons_append,← outer] at inside

theorem joinedSame (parts a b) :
    joinURLPath (parts ++ [a]) = joinURLPath (parts ++ [b]) ↔ trimSlash a = trimSlash b := by
  refine ⟨fun eq => ?_,fun eq => by rw [joinedMore,joinedMore,eq]⟩
  rw [joinedMore,joinedMore] at eq
  by_cases none : partsOf parts = []
  · have bare : joinURLPath parts = ['/'] := by rw [joinedParts,if_pos none]
    rw [if_pos none,if_pos none,bare] at eq
    split at eq <;> split at eq <;> simp_all
  rw [if_neg none,if_neg none] at eq
  split at eq <;> split at eq <;> simp_all


theorem builtPath [Letters] (parsed : parse endpoint = .ok base)
    (taken : matchPathPrefix original.path (normalizeRoute route).pathPrefix = true)
    (built : buildTargetURL parse endpoint (normalizeRoute route) original = .ok url) :
    url.path = joinURLPath ([base.path,(normalizeRoute route).upstreamPrefix] ++
      [remainder (normalizeRoute route) original.path]) := by
  simp only [buildTargetURL,parsed] at built
  split at built <;> cases built
  exact rewrittenPath base.path (prefixKept route.pathPrefix) taken

/-- A request is sent to the base path or below it, and two requests to one path exactly when the
rests of their paths agree. -/
theorem targetsBelow [Letters] (parse : Str → Except Str Url) (endpoint : Str) (config : Route) (base : Url)
    (parsed : parse endpoint = .ok base) :
    let route := normalizeRoute config
    let outer := joinURLPath [base.path,route.upstreamPrefix]
    (∀ original url, matchPathPrefix original.path route.pathPrefix = true →
      buildTargetURL parse endpoint route original = .ok url → Inside outer url.path ∧
        (UrlPath.Plain (segmentsBelow outer) → stays 0 (segmentsBelow (remainder route original.path)) = true →
          Inside outer (removeDotSegments url.path))) ∧
    ∀ original url other url', matchPathPrefix original.path route.pathPrefix = true →
      matchPathPrefix other.path route.pathPrefix = true →
      buildTargetURL parse endpoint route original = .ok url → buildTargetURL parse endpoint route other = .ok url' →
      (url.path = url'.path ↔
        trimSlash (remainder route original.path) = trimSlash (remainder route other.path)) := by
  refine ⟨fun original url taken built => ?_,fun original url other url' taken also built again => ?_⟩
  · rw [builtPath parsed taken built]
    exact ⟨joinedInside _ _,joinedRemoved⟩
  · rw [builtPath parsed taken built,builtPath parsed also again]
    exact joinedSame _ _ _

def hostUrl (path : Str) : Url := ⟨"http".toList,['h'],path,[],[]⟩
def parseHost (_ : Str) : Except Str Url := .ok (hostUrl [])
def apiRoute : Route := ⟨[],[],['/','a'],['/','v'],⟨0,0,[],[],0,0,0⟩,⟨false,[]⟩⟩

theorem pathsEscapeAndMeet :
    let _ := asciiLetters
    let route := normalizeRoute apiRoute
    let build := fun path => buildTargetURL parseHost "http://h".toList route (hostUrl path)
    joinURLPath [[],route.upstreamPrefix] = ['/','v'] ∧
    (matchPathPrefix "/a/../x".toList route.pathPrefix = true ∧
      build "/a/../x".toList = .ok (hostUrl "/v/../x".toList) ∧
      ¬ Inside ['/','v'] (removeDotSegments "/v/../x".toList)) ∧
    matchPathPrefix "/a/p/q".toList route.pathPrefix = true ∧
      unescape "/a/p%2Fq".toList = some "/a/p/q".toList ∧
      unescape "/a/p/q".toList = some "/a/p/q".toList ∧
      segmentsBelow (remainder route "/a/p%2Fq".toList) ≠ segmentsBelow (remainder route "/a/p/q".toList) ∧
      build "/a/p/q".toList = .ok (hostUrl "/v/p/q".toList) := by
  intro letters route build
  refine ⟨by decide +kernel,⟨by decide +kernel,by decide +kernel,?_⟩,by decide +kernel,by decide +kernel,
    by decide +kernel,by decide +kernel,by decide +kernel⟩
  rintro (root | same | below)
  · exact absurd root (by decide)
  · exact absurd same (by decide +kernel)
  exact absurd (List.isPrefixOf_iff_prefix.mpr below) (by decide +kernel)

theorem itemBelow :
    let _ := asciiLetters
    Inside ['/','v'] ['/','v','/','p'] ∧ Inside ['/','v'] (removeDotSegments ['/','v','/','p']) := by
  intro letters
  have built := (targetsBelow parseHost [] apiRoute (hostUrl []) rfl).1 (hostUrl ['/','a','/','p'])
    (hostUrl ['/','v','/','p']) (by decide +kernel) (by decide +kernel)
  exact ⟨built.1,built.2 ⟨by decide +kernel,by decide +kernel⟩ (by decide +kernel)⟩

end Gofly.Gateway
