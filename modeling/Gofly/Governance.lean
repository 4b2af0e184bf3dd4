import Mathlib.Algebra.Order.Ring.Rat
import Gofly.Discovery
import Gofly.Ranking
import Gofly.Roster
/-! Governance rules: the one form of rules and requests, when a rule matches, how specific it
is, the key that stands for it, and which lists of rules are valid. -/
namespace Gofly.Governance
open Text Discovery

abbrev Str := List Char

/-- The case mapping of single letters. -/
class Letters where
  toLower : Char → Char
  toUpper : Char → Char
  lowerTwice : ∀ c, toLower (toLower c) = toLower c
  upperTwice : ∀ c, toUpper (toUpper c) = toUpper c
  lowerSpace : ∀ c, isSpace (toLower c) = isSpace c
  upperSpace : ∀ c, isSpace (toUpper c) = isSpace c

def lexLess (a b : Str) : Bool := List.lex a b fun c d => decide (c < d)

@[ext] structure StringMap where
  entries : List (Str × Str)
  ordered : entries.Pairwise fun a b => lexLess a.1 b.1 = true
  deriving DecidableEq
instance : EmptyCollection StringMap := ⟨⟨[],.nil⟩⟩

def StringMap.get (m : StringMap) (key : Str) : Str := (m.entries.lookup key).getD []

inductive Float64 where
  | nan
  | infinite (negative : Bool)
  | finite (value : Rat)
  deriving DecidableEq

namespace Float64

def below (bound : Rat) : Float64 → Bool
  | nan => false
  | infinite negative => negative
  | finite value => value < bound

def above (bound : Rat) : Float64 → Bool
  | nan => false
  | infinite negative => !negative
  | finite value => bound < value

def isNaN : Float64 → Bool
  | nan => true
  | _ => false

def isInf : Float64 → Bool
  | infinite _ => true
  | _ => false

end Float64

structure RetryPolicy where
  attempts : Int := 0
  backoff : Int := 0
  statuses : List Int := []
  methods : List Str := []
  deriving DecidableEq

structure BreakerPolicy where
  enabled : Bool := false
  openTimeout : Int := 0
  window : Int := 0
  buckets : Int := 0
  minRequests : Int := 0
  failureRatio : Float64 := .finite 0
  deriving DecidableEq

structure RateLimitPolicy where
  rate : Int := 0
  burst : Int := 0
  deriving DecidableEq

structure ConcurrencyPolicy where
  limit : Int := 0
  deriving DecidableEq

structure CanaryPolicy where
  ratio : Float64 := .finite 0
  service : Str := []
  target : Str := []
  targets : List Str := []
  upstreamPrefix : Str := []
  headers : StringMap := ∅
  matchHeaders : StringMap := ∅
  matchCookies : StringMap := ∅
  deriving DecidableEq

structure Policy where
  timeout : Int := 0
  maxBodyBytes : Int := 0
  retry : RetryPolicy := {}
  breaker : BreakerPolicy := {}
  rateLimit : RateLimitPolicy := {}
  concurrency : ConcurrencyPolicy := {}
  canary : CanaryPolicy := {}
  headers : StringMap := ∅
  metadata : StringMap := ∅
  disableFallback : Bool := false
  deriving DecidableEq

structure Rule where
  name : Str := []
  priority : Int := 0
  transport : Str := []
  service : Str := []
  method : Str := []
  path : Str := []
  tags : StringMap := ∅
  policy : Policy := {}
  deriving DecidableEq

structure Request where
  transport : Str := []
  service : Str := []
  method : Str := []
  path : Str := []
  tags : StringMap := ∅
  headers : StringMap := ∅
  cookies : StringMap := ∅
  deriving DecidableEq

structure Decision where
  matched : Bool := false
  ruleKey : Str := []
  ruleName : Str := []
  policy : Policy := {}
  deriving DecidableEq

def transportREST : Str := "rest".toList
def transportRPC : Str := "rpc".toList
def transportGateway : Str := "gateway".toList
def transportMQ : Str := "mq".toList

section
variable [Letters]

def trimSpace (s : Str) : Str := Text.trim isSpace s
def toLower (s : Str) : Str := s.map Letters.toLower
def toUpper (s : Str) : Str := s.map Letters.toUpper

def normalizeRequest (req : Request) : Request :=
  let path := trimSpace req.path
  { req with
    transport := toLower (trimSpace req.transport)
    service := trimSpace req.service
    method := toUpper (trimSpace req.method)
    path := if path ≠ [] ∧ path.head? ≠ some '/' then '/' :: path else path }

-- normalizeRequest copies the three maps besides
def normalizeRequestForMatch (req : Request) : Request := normalizeRequest req

def normalizeRule (rule : Rule) : Rule :=
  let path := trimSpace rule.path
  { rule with
    transport := toLower (trimSpace rule.transport)
    service := trimSpace rule.service
    method := toUpper (trimSpace rule.method)
    path := if path ≠ [] ∧ path ≠ ['*'] ∧ path.head? ≠ some '/' then '/' :: path else path }

def cloneRules (rules : List Rule) : List Rule := rules.map normalizeRule

theorem trimLower (s) : trimSpace (toLower (trimSpace s)) = toLower (trimSpace s) :=
  trimSelf (trimmedMap Letters.lowerSpace (trimTrimmed isSpace s))

theorem trimUpper (s) : trimSpace (toUpper (trimSpace s)) = toUpper (trimSpace s) :=
  trimSelf (trimmedMap Letters.upperSpace (trimTrimmed isSpace s))

theorem lowerTwice (s) : toLower (toLower s) = toLower s := by simp [toLower,Letters.lowerTwice]

theorem upperTwice (s) : toUpper (toUpper s) = toUpper s := by simp [toUpper,Letters.upperTwice]

theorem normalizeTwice (rule) : normalizeRule (normalizeRule rule) = normalizeRule rule := by
  have path : ∀ path : Str, trimSpace path = path → trimSpace ('/' :: path) = '/' :: path := by
    intro path trimmed
    have ends := trimTrimmed isSpace path
    rw [show trim isSpace path = path from trimmed] at ends
    exact trimSelf (trimmedCons rfl ends)
  have trimmed : trimSpace (trimSpace rule.path) = trimSpace rule.path := trimTwice isSpace rule.path
  have service : trimSpace (trimSpace rule.service) = trimSpace rule.service := trimTwice isSpace rule.service
  simp only [normalizeRule,trimLower,trimUpper,lowerTwice,upperTwice,service]
  congr 1
  split_ifs <;> simp_all

theorem cloneTwice (rules) : cloneRules (cloneRules rules) = cloneRules rules := by
  simp [cloneRules,normalizeTwice]

theorem cloneNormal (mem : rule ∈ cloneRules rules) : normalizeRule rule = rule := by
  obtain ⟨original,_,rfl⟩ := List.mem_map.mp mem
  exact normalizeTwice original
end

def pathMatches (pattern path : Str) : Bool :=
  if pattern = [] ∨ pattern = ['*'] then true
  else if pattern = path then true
  else if pattern.getLast? = some '*' then pattern.dropLast.isPrefixOf path
  else if pattern = ['/'] then ['/'].isPrefixOf path
  else false

def tagMatches (req : Request) (tag : Str × Str) : Bool := req.tags.get tag.1 = tag.2

def ruleMatches (rule : Rule) (req : Request) : Bool :=
  if rule.transport ≠ [] ∧ rule.transport ≠ req.transport then false
  else if rule.service ≠ [] ∧ rule.service ≠ req.service then false
  else if rule.method ≠ [] ∧ rule.method ≠ req.method then false
  else if rule.path ≠ [] ∧ pathMatches rule.path req.path = false then false
  else rule.tags.entries.all (tagMatches req)

inductive Reason where
  | matched
  | transport (rule request : Str)
  | service (rule request : Str)
  | method (rule request : Str)
  | path (rule request : Str)
  | tag (key rule request : Str)
  deriving DecidableEq

-- the order in which the tags are looked at decides which of them is named
def explainRule (order : List Nat) (rule : Rule) (req : Request) : Bool × Reason :=
  if rule.transport ≠ [] ∧ rule.transport ≠ req.transport then
    (false,.transport rule.transport req.transport)
  else if rule.service ≠ [] ∧ rule.service ≠ req.service then (false,.service rule.service req.service)
  else if rule.method ≠ [] ∧ rule.method ≠ req.method then (false,.method rule.method req.method)
  else if rule.path ≠ [] ∧ pathMatches rule.path req.path = false then (false,.path rule.path req.path)
  else
    match (Roster.shuffle order rule.tags.entries).find? fun tag => !tagMatches req tag with
    | some tag => (false,.tag tag.1 tag.2 (req.tags.get tag.1))
    | none => (true,.matched)

theorem explainMatches (order rule req) : (explainRule order rule req).1 = ruleMatches rule req := by
  unfold explainRule ruleMatches
  have eq := (Roster.shufflePerm order rule.tags.entries).all_eq (f := tagMatches req)
  split_ifs <;> try rfl
  rw [← eq]
  split
  · rename_i tag got
    have differs := List.find?_some got
    symm
    rw [List.all_eq_false]
    exact ⟨tag,List.mem_of_find?_eq_some got,by simpa using differs⟩
  rename_i none
  symm
  rw [List.all_eq_true]
  intro tag mem
  simpa using List.find?_eq_none.mp none tag mem

def utf8Len : Str → Nat
  | [] => 0
  | c :: rest => c.utf8Size + utf8Len rest

def ruleSpecificity (rule : Rule) : Nat :=
  (if rule.transport ≠ [] then 1 else 0) + (if rule.service ≠ [] then 1 else 0) +
    (if rule.method ≠ [] then 1 else 0) +
    (if rule.path ≠ [] ∧ rule.path ≠ ['*'] then utf8Len rule.path else 0) + rule.tags.entries.length

def tagText (tag : Str × Str) : Str := tag.1 ++ '=' :: tag.2
def tagTexts (tags : StringMap) : List Str := Ranking.stableSort lexLess (tags.entries.map tagText)

def ruleKey (rule : Rule) : Str :=
  if rule.name ≠ [] then "name:".toList ++ rule.name
  else
    let parts := [rule.transport,rule.service,rule.method,rule.path]
    if rule.tags.entries = [] then Text.join '|' parts
    else Text.join '|' (parts ++ [Text.join ',' (tagTexts rule.tags)])

def diffRuleKey [Letters] (rule : Rule) : Str :=
  let rule := normalizeRule rule
  if rule.name ≠ [] then "name:".toList ++ rule.name else ruleKey rule

inductive Cause where
  | duplicate
  | transport (unknown : Str)
  | policy (message : String)
  deriving DecidableEq

structure Invalid where
  index : Nat
  name : Str
  cause : Cause
  deriving DecidableEq

def validateTransport (transport : Str) : Option Cause :=
  if transport = [] ∨ transport = transportREST ∨ transport = transportRPC ∨ transport = transportGateway ∨
    transport = transportMQ then none
  else some (.transport transport)

def nonNegative (value : Int) (field : String) : Option String :=
  if value < 0 then some (field ++ " must be non-negative") else none

def ratio (value : Float64) (field : String) : Option String :=
  if value.below 0 || value.above 1 || value.isNaN || value.isInf then some (field ++ " must be between 0 and 1")
  else none

def retryStatus (transport : Str) (status : Int) : Option String :=
  if transport = transportRPC then
    if status < 1 ∨ 16 < status then some ("retry status " ++ toString status ++ " is outside gRPC code range") else none
  else if status < 100 ∨ 599 < status then some ("retry status " ++ toString status ++ " is outside HTTP status range")
  else none

def validatePolicy (transport : Str) (policy : Policy) : Option String :=
  [nonNegative policy.timeout "timeout",
    nonNegative policy.maxBodyBytes "max body bytes",
    nonNegative policy.retry.attempts "retry attempts",
    nonNegative policy.retry.backoff "retry backoff",
    policy.retry.statuses.findSome? (retryStatus transport),
    nonNegative policy.breaker.openTimeout "breaker open timeout",
    nonNegative policy.breaker.window "breaker window",
    nonNegative policy.breaker.buckets "breaker buckets",
    nonNegative policy.breaker.minRequests "breaker min requests",
    ratio policy.breaker.failureRatio "breaker failure ratio",
    nonNegative policy.rateLimit.rate "rate limit rate",
    nonNegative policy.rateLimit.burst "rate limit burst",
    nonNegative policy.concurrency.limit "concurrency limit",
    ratio policy.canary.ratio "canary ratio"].findSome? id

def validateRule (rule : Rule) : Option Cause :=
  match validateTransport rule.transport with
  | some cause => some cause
  | none => (validatePolicy rule.transport rule.policy).map .policy

def Distinct (rules : List Rule) : Prop := ((rules.map Rule.name).filter (· ≠ [])).Nodup

theorem distinctUnnamed (unnamed : rule.name = []) : Distinct (rule :: rest) ↔ Distinct rest := by
  simp [Distinct,unnamed]

theorem distinctNamed (named : rule.name ≠ []) :
    Distinct (rule :: rest) ↔ (∀ r ∈ rest, r.name ≠ rule.name) ∧ Distinct rest := by
  simp [Distinct,named]

section
variable [Letters]

def validateFrom (index : Nat) (seenNames : List Str) : List Rule → Option Invalid
  | [] => none
  | rule :: rest =>
    let rule := normalizeRule rule
    if rule.name ≠ [] ∧ rule.name ∈ seenNames then some ⟨index,rule.name,.duplicate⟩
    else
      match validateRule rule with
      | some cause => some ⟨index,rule.name,cause⟩
      | none => validateFrom (index + 1) (if rule.name ≠ [] then rule.name :: seenNames else seenNames) rest

def validateRules (rules : List Rule) : Option Invalid := validateFrom 0 [] rules

theorem validatedFrom : validateFrom index seenNames rules = none ↔
      (∀ rule ∈ rules, validateRule (normalizeRule rule) = none ∧ (rule.name ≠ [] → rule.name ∉ seenNames)) ∧
      Distinct rules := by
  induction rules generalizing index seenNames with
  | nil => simp [validateFrom,Distinct]
  | cons rule _ ih =>
    have eq : (normalizeRule rule).name = rule.name := rfl
    rw [validateFrom,eq,List.forall_mem_cons]
    by_cases seen : rule.name ≠ [] ∧ rule.name ∈ seenNames
    · simp [seen]
    rw [if_neg seen]
    cases valid : validateRule (normalizeRule rule) with
    | some => simp
    | none =>
      by_cases name : rule.name = []
      · simp [ih,name,distinctUnnamed name]
      have new : rule.name ∉ seenNames := fun mem => seen ⟨name,mem⟩
      simp only [ne_eq,name,not_false_eq_true,if_true,ih,List.mem_cons,not_or,distinctNamed name,new,
        true_and,implies_true]
      constructor
      · rintro ⟨each,nodup⟩
        refine ⟨fun r mem => ⟨(each r mem).1,fun full => ((each r mem).2 full).2⟩,?_,nodup⟩
        exact fun r mem eq => ((each r mem).2 (eq ▸ name)).1 eq
      rintro ⟨each,rest,nodup⟩
      exact ⟨fun r mem => ⟨(each r mem).1,fun full => ⟨rest r mem,(each r mem).2 full⟩⟩, nodup⟩

theorem validated :
    validateRules rules = none ↔ (∀ rule ∈ rules, validateRule (normalizeRule rule) = none) ∧ Distinct rules := by
  rw [validateRules,validatedFrom]
  simp

theorem cloneDistinct : Distinct (cloneRules rules) ↔ Distinct rules := by
  rw [Distinct,cloneRules,List.map_map]
  rfl

theorem cloneValid (valid : validateRules rules = none) : validateRules (cloneRules rules) = none := by
  obtain ⟨each,nodup⟩ := validated.mp valid
  refine validated.mpr ⟨fun rule mem => ?_,cloneDistinct.mpr nodup⟩
  obtain ⟨r,inside,rfl⟩ := List.mem_map.mp mem
  rw [normalizeTwice]
  exact each r inside
end

theorem lowerVal (c : Char) : c.toLower.toNat = if 65 ≤ c.toNat ∧ c.toNat ≤ 90 then c.toNat + 32 else c.toNat := by
  unfold Char.toLower
  split
  · rename_i upper
    have low : 65 ≤ c.val.toNat := UInt32.le_iff_toNat_le.mp upper.1
    have high : c.val.toNat ≤ 90 := UInt32.le_iff_toNat_le.mp upper.2
    rw [if_pos ⟨low,high⟩]
    show (c.val + 32).toNat = c.val.toNat + 32
    rw [UInt32.toNat_add]
    exact Nat.mod_eq_of_lt (Nat.lt_of_le_of_lt (Nat.add_le_add_right high _) (by decide))
  rename_i other
  rw [if_neg]
  exact fun both => other ⟨UInt32.le_iff_toNat_le.mpr both.1,UInt32.le_iff_toNat_le.mpr both.2⟩

theorem upperVal (c : Char) : c.toUpper.toNat = if 97 ≤ c.toNat ∧ c.toNat ≤ 122 then c.toNat - 32 else c.toNat := by
  unfold Char.toUpper
  split
  · rename_i lower
    have low : 97 ≤ c.val.toNat := UInt32.le_iff_toNat_le.mp lower.1
    have high : c.val.toNat ≤ 122 := UInt32.le_iff_toNat_le.mp lower.2
    rw [if_pos ⟨low,high⟩]
    show (c.val + 4294967264).toNat = c.val.toNat - 32
    rw [UInt32.toNat_add]
    show (c.val.toNat + 4294967264) % 4294967296 = c.val.toNat - 32
    omega
  rename_i other
  rw [if_neg]
  exact fun both => other ⟨UInt32.le_iff_toNat_le.mpr both.1,UInt32.le_iff_toNat_le.mpr both.2⟩

theorem spaceSame (eq : c.toNat = d.toNat ∨
    (65 ≤ c.toNat ∧ c.toNat ≤ 122 ∧ 65 ≤ d.toNat ∧ d.toNat ≤ 122)) : isSpace c = isSpace d := by
  unfold isSpace
  rcases eq with eq | ⟨a,b,e,f⟩
  · rw [eq]
  rw [Bool.eq_iff_iff]
  simp
  omega

@[reducible]
def asciiLetters : Letters where
  toLower := Char.toLower
  toUpper := Char.toUpper
  lowerTwice c := Char.toNat_inj.mp (by rw [lowerVal,lowerVal c]; split_ifs <;> omega)
  upperTwice c := Char.toNat_inj.mp (by rw [upperVal,upperVal c]; split_ifs <;> omega)
  lowerSpace c := spaceSame (by rw [lowerVal]; split_ifs <;> omega)
  upperSpace c := spaceSame (by rw [upperVal]; split_ifs <;> omega)

end Gofly.Governance
