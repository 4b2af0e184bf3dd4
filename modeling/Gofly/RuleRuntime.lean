import Gofly.RuleSet
/-! What the governed message broker keeps for each rule: a rate limiter, a concurrency limiter
and a breaker, found again under the key of the rule that decided. -/
namespace Gofly.RuleRuntime
open Governance RuleSet Transition
open Function (update)

structure Criteria where
  transport : Str
  service : Str
  method : Str
  path : Str
  tags : StringMap
  deriving DecidableEq

def criteria (rule : Rule) : Criteria := ⟨rule.transport,rule.service,rule.method,rule.path,rule.tags⟩

def mqGovernanceRuntimeKey (decision : Decision) (method topic group : Str) : Str :=
  if decision.ruleKey ≠ [] then decision.ruleKey
  else if decision.ruleName ≠ [] then "name:".toList ++ decision.ruleName
  else if group = [] then method ++ ':' :: topic
  else method ++ ':' :: topic ++ ':' :: group

structure Cached (σ : Type) where
  setting : σ
  handle : Nat
  deriving DecidableEq

structure MqRuleRuntime where
  rateLimits : Str → Option (Cached (Int × Int)) := fun _ => none
  concurrency : Str → Option (Cached Int) := fun _ => none
  breakers : Str → Option (Cached BreakerPolicy) := fun _ => none
  made : List Str := []

def hit {σ : Type} (same : σ → σ → Bool) (cache : Str → Option (Cached σ)) (key : Str) (setting : σ) : Option Nat :=
  ((cache key).filter fun cached => same cached.setting setting).map Cached.handle

-- a ratio that is no number equals nothing
def samePolicy (x y : BreakerPolicy) : Bool := x = y && !x.failureRatio.isNaN

namespace MqRuleRuntime

def ruleRateLimiter (r : MqRuleRuntime) (key : Str) (policy : RateLimitPolicy) : Option Nat × MqRuleRuntime :=
  if policy.rate ≤ 0 ∧ policy.burst ≤ 0 then (none,r)
  else
    let setting := (policy.rate,if policy.burst ≤ 0 then policy.rate else policy.burst)
    match hit (· == ·) r.rateLimits key setting with
    | some limiter => (some limiter,r)
    | none => (some r.made.length,{ r with
        rateLimits := update r.rateLimits key (some ⟨setting,r.made.length⟩),made := r.made ++ [key] })

def ruleConcurrencyLimiter (r : MqRuleRuntime) (key : Str) (policy : ConcurrencyPolicy) :
    Option Nat × MqRuleRuntime :=
  if policy.limit ≤ 0 then (none,r)
  else
    match hit (· == ·) r.concurrency key policy.limit with
    | some limiter => (some limiter,r)
    | none => (some r.made.length,{ r with
        concurrency := update r.concurrency key (some ⟨policy.limit,r.made.length⟩),made := r.made ++ [key] })

def ruleBreaker (r : MqRuleRuntime) (key : Str) (policy : BreakerPolicy) : Option Nat × MqRuleRuntime :=
  if policy.enabled = false then (none,r)
  else
    match hit samePolicy r.breakers key policy with
    | some brk => (some brk,r)
    | none => (some r.made.length,{ r with
        breakers := update r.breakers key (some ⟨policy,r.made.length⟩),made := r.made ++ [key] })

end MqRuleRuntime

inductive Kind where
  | rate
  | concurrency
  | breaker
  deriving DecidableEq

structure Act where
  kind : Kind
  method : Str
  topic : Str
  group : Str
  req : Request
  deriving DecidableEq

structure World where
  runtime : MqRuleRuntime := {}
  uses : List (Nat × Request) := []

section
variable [Letters]

def lookUp (rules : RuleSet) (r : MqRuleRuntime) (a : Act) : Option Nat × MqRuleRuntime :=
  let decision := rules.decide a.req
  let key := mqGovernanceRuntimeKey decision a.method a.topic a.group
  match a.kind with
  | .rate => r.ruleRateLimiter key decision.policy.rateLimit
  | .concurrency => r.ruleConcurrencyLimiter key decision.policy.concurrency
  | .breaker => r.ruleBreaker key decision.policy.breaker

def step (rules : RuleSet) (w : World) (a : Act) : Option World :=
  let (found,runtime) := lookUp rules w.runtime a
  some ⟨runtime,w.uses ++ (found.map fun handle => (handle,a.req)).toList⟩
end

def keyFields (rule : Rule) : List Str :=
  [rule.transport,rule.service,rule.method,rule.path] ++
    if rule.tags.entries = [] then [] else [Text.join ',' (tagTexts rule.tags)]

/-- The texts of a rule without the marks that ruleKey puts between them. -/
def Plain (rule : Rule) : Prop :=
  (∀ text ∈ [rule.service,rule.method,rule.path], '|' ∉ text) ∧
    ∀ tag ∈ rule.tags.entries, '=' ∉ tag.1 ∧ ∀ text ∈ [tag.1,tag.2], '|' ∉ text ∧ ',' ∉ text

instance (rule : Rule) : Decidable (Plain rule) := by unfold Plain; infer_instance

section
variable {rules : List Rule}

theorem criteriaMatch (eq : criteria x = criteria y) (req) : ruleMatches x req = ruleMatches y req := by
  obtain ⟨transport,service,method,path,tags⟩ := (Criteria.mk.injEq ..).mp eq
  simp only [ruleMatches,transport,service,method,path,tags]

theorem unnamedKey (unnamed : rule.name = []) : ruleKey rule = Text.join '|' (keyFields rule) := by
  unfold ruleKey keyFields
  split_ifs <;> simp_all

theorem unnamedStart (unnamed : rule.name = []) : ∃ rest, ruleKey rule = rule.transport ++ '|' :: rest := by
  rw [unnamedKey unnamed,keyFields,List.cons_append,List.cons_append,Text.join,List.intercalate_cons_cons,
    List.append_assoc]
  exact ⟨_,rfl⟩

theorem namedKey (named : rule.name ≠ []) : ruleKey rule = "name:".toList ++ rule.name := by
  rw [ruleKey,if_pos named]

theorem keyFilled (rule) : ruleKey rule ≠ [] := by
  by_cases name : rule.name = []
  · obtain ⟨rest,eq⟩ := unnamedStart name
    simp [eq]
  simp [namedKey name]

theorem transportKnown (valid : validateRule rule = none) : rule.transport = [] ∨ rule.transport = transportREST ∨
    rule.transport = transportRPC ∨ rule.transport = transportGateway ∨ rule.transport = transportMQ := by
  have transport : validateTransport rule.transport = none := by
    unfold validateRule at valid
    split at valid <;> simp_all
  unfold validateTransport at transport
  split at transport <;> simp_all

theorem namedApart (named : x.name ≠ []) (unnamed : y.name = []) (valid : validateRule y = none) :
    ruleKey x ≠ ruleKey y := by
  obtain ⟨rest,eq⟩ := unnamedStart unnamed
  have start : ∀ c, (y.transport ++ '|' :: rest).head? = some c → c ≠ 'n' := by
    intro c first
    rcases transportKnown valid with known | known | known | known | known <;> rw [known] at first <;> cases first <;> decide
  rw [namedKey named,eq]
  exact fun equal => start 'n' (equal ▸ rfl) rfl

theorem tagClean (plain : Plain rule) : ∀ text ∈ tagTexts rule.tags, '|' ∉ text ∧ ',' ∉ text := by
  intro text mem
  obtain ⟨tag,inside,rfl⟩ := List.mem_map.mp (Ranking.memSort.mp mem)
  obtain ⟨_,clean⟩ := plain.2 tag inside
  have key := clean tag.1 (by simp)
  have value := clean tag.2 (by simp)
  simp [tagText,key,value]

theorem tagsFilled {tags : StringMap} (some : tags.entries ≠ []) : tagTexts tags ≠ [] := by
  obtain ⟨tag,mem⟩ := List.exists_mem_of_ne_nil _ some
  exact List.ne_nil_of_mem (Ranking.memSort.mpr (List.mem_map_of_mem mem))

theorem barClean {d : Char} {parts : List Str} (ne : c ≠ d) (clean : ∀ part ∈ parts, c ∉ part) :
    c ∉ Text.join d parts := by
  induction parts with
  | nil => simp
  | cons part rest ih =>
    obtain ⟨first,later⟩ := List.forall_mem_cons.mp clean
    cases rest with
    | nil => simpa using first
    | cons =>
      have behind := ih later
      unfold Text.join at behind ⊢
      simp [first,ne,behind]

theorem fieldsClean (valid : validateRule rule = none) (plain : Plain rule) : ∀ field ∈ keyFields rule, '|' ∉ field := by
  have transport : '|' ∉ rule.transport := by
    rcases transportKnown valid with known | known | known | known | known <;> rw [known] <;> decide
  have tags := barClean (d := ',') (by decide) fun text mem => (tagClean plain text mem).1
  have texts := plain.1
  intro field mem
  unfold keyFields at mem
  split at mem <;> grind

theorem lexAsymm (below : lexLess a b = true) : ¬ lexLess b a = true := by
  simp only [lexLess,List.lex_eq_true_iff_lex,decide_eq_true_eq] at *
  exact List.lt_asymm below

theorem tagsTellApart (first : Plain x) (second : Plain y) (same : tagTexts x.tags = tagTexts y.tags) :
    x.tags = y.tags := by
  -- cut at its first equality sign a text gives back its tag
  let untag (text : Str) : Str × Str := (text.takeWhile (· != '='),(text.dropWhile (· != '=')).tail)
  have back {rule : Rule} (plain : Plain rule) : (rule.tags.entries.map tagText).map untag = rule.tags.entries := by
    rw [List.map_map]
    refine (List.map_congr_left fun tag inside => ?_).trans (List.map_id _)
    have key : ∀ c ∈ tag.1, (c != '=') = true := by
      intro c mem
      simpa using fun eq : c = '=' => (plain.2 tag inside).1 (eq ▸ mem)
    simp [untag,tagText,List.takeWhile_append_of_pos key,List.dropWhile_append_of_pos key]
  have perm : (x.tags.entries.map tagText).Perm (y.tags.entries.map tagText) :=
    ((List.perm_insertionSort _ _).symm.trans (List.Perm.of_eq same)).trans (List.perm_insertionSort _ _)
  have entries := perm.map untag
  rw [back first,back second] at entries
  refine StringMap.ext (entries.eq_of_pairwise (fun a b _ _ below above => ?_) x.tags.ordered y.tags.ordered)
  exact absurd above (lexAsymm below)

theorem distinctSame (nodup : Distinct rules) (first : x ∈ rules) (second : y ∈ rules) (named : x.name ≠ [])
    (eq : x.name = y.name) : x = y := by
  induction rules with
  | nil => cases first
  | cons rule rest ih =>
    by_cases name : rule.name = []
    · have inside : ∀ {r : Rule}, r.name ≠ [] → r ∈ rule :: rest → r ∈ rest := by
        intro r full mem
        exact (List.mem_cons.mp mem).resolve_left fun eq => full (eq ▸ name)
      exact ih ((distinctUnnamed name).mp nodup) (inside named first) (inside (eq ▸ named) second)
    obtain ⟨ne,nodup⟩ := (distinctNamed name).mp nodup
    rcases List.mem_cons.mp first with rfl | inside <;> rcases List.mem_cons.mp second with rfl | behind
    · rfl
    · exact absurd eq.symm (ne y behind)
    · exact absurd eq (ne x inside)
    exact ih nodup inside behind

theorem plainKeys (valid : validateRule x = none) (also : validateRule y = none) (first : Plain x) (second : Plain y)
    (unnamed : x.name = []) (too : y.name = []) (eq : ruleKey x = ruleKey y) : criteria x = criteria y := by
  rw [unnamedKey unnamed,unnamedKey too] at eq
  have fields := Text.joinClean (by simp [keyFields]) (by simp [keyFields]) (fieldsClean valid first)
    (fieldsClean also second) eq
  obtain ⟨texts,tagged⟩ := List.append_inj fields rfl
  have tags : x.tags = y.tags := by
    split at tagged <;> split at tagged
    · exact StringMap.ext (by simp_all)
    · cases tagged
    · cases tagged
    rename_i some more
    refine tagsTellApart first second (Text.joinClean (tagsFilled some) (tagsFilled more) ?_ ?_ (List.singleton_inj.mp tagged))
    · exact fun text mem => (tagClean first text mem).2
    · exact fun text mem => (tagClean second text mem).2
  simp only [List.cons.injEq,and_true] at texts
  simp [criteria,texts,tags]

theorem keysTellApart (valid : ∀ rule ∈ rules, validateRule rule = none) (nodup : Distinct rules)
    (plain : ∀ rule ∈ rules, rule.name = [] → Plain rule) (first : x ∈ rules) (second : y ∈ rules)
    (eq : ruleKey x = ruleKey y) : criteria x = criteria y := by
  by_cases unnamed : x.name = [] <;> by_cases also : y.name = []
  · exact plainKeys (valid x first) (valid y second) (plain x first unnamed) (plain y second also) unnamed also eq
  · exact absurd eq.symm (namedApart also unnamed (valid x first))
  · exact absurd eq (namedApart unnamed also (valid y second))
  rw [namedKey unnamed,namedKey also,List.append_cancel_left_eq] at eq
  rw [distinctSame nodup first second unnamed eq]
end

section
variable {σ : Type} {made : List Str} {cache : Str → Option (Cached σ)} {key : Str}

def Owned (made : List Str) (cache : Str → Option (Cached σ)) : Prop :=
  ∀ key cached, cache key = some cached → made[cached.handle]? = some key

theorem ownedHit (owned : Owned made cache)
    (got : hit eq cache key setting = some handle) : made[handle]? = some key := by
  obtain ⟨cached,kept,rfl⟩ := Option.map_eq_some_iff.mp got
  exact owned key cached (Option.filter_eq_some_iff.mp kept).1

theorem ownedMore (owned : Owned made cache) (key) : Owned (made ++ [key]) cache :=
  fun other cached seen => Roster.addBehind (owned other cached seen)

theorem ownedNew (owned : Owned made cache) (key setting) :
    Owned (made ++ [key]) (update cache key (some ⟨setting,made.length⟩)) := by
  intro other cached seen
  by_cases eq : other = key
  · subst eq
    rw [Function.update_self] at seen
    cases seen
    simp
  rw [Function.update_of_ne eq] at seen
  exact ownedMore owned key other cached seen
end

structure Fair (r : MqRuleRuntime) : Prop where
  rateLimits : Owned r.made r.rateLimits
  concurrency : Owned r.made r.concurrency
  breakers : Owned r.made r.breakers

structure Served (r : MqRuleRuntime) (key : Str) (out : Option Nat × MqRuleRuntime) : Prop where
  fair : Fair out.2
  known : ∀ {handle : Nat} {other : Str}, r.made[handle]? = some other → out.2.made[handle]? = some other
  served : ∀ handle, out.1 = some handle → out.2.made[handle]? = some key

theorem servedNothing (fair : Fair r) : Served r key (none,r) := ⟨fair,id,nofun⟩

theorem servedAgain (fair : Fair r) (mine : r.made[handle]? = some key) : Served r key (some handle,r) := by
  refine ⟨fair,id,fun _ eq => ?_⟩
  cases eq
  exact mine

theorem servedNew (fair : Fair next) (more : next.made = r.made ++ [key]) :
    Served r key (some r.made.length,next) := by
  refine ⟨fair,fun got => more ▸ Roster.addBehind got,fun _ eq => ?_⟩
  cases eq
  simp [more]

theorem rateServed (fair : Fair r) (key policy) : Served r key (r.ruleRateLimiter key policy) := by
  unfold MqRuleRuntime.ruleRateLimiter
  split
  · exact servedNothing fair
  dsimp only
  split
  · exact servedAgain fair (ownedHit fair.rateLimits ‹_›)
  exact servedNew ⟨ownedNew fair.rateLimits key _,ownedMore fair.concurrency key,ownedMore fair.breakers key⟩ rfl

theorem concurrencyServed (fair : Fair r) (key policy) : Served r key (r.ruleConcurrencyLimiter key policy) := by
  unfold MqRuleRuntime.ruleConcurrencyLimiter
  split
  · exact servedNothing fair
  split
  · exact servedAgain fair (ownedHit fair.concurrency ‹_›)
  exact servedNew ⟨ownedMore fair.rateLimits key,ownedNew fair.concurrency key _,ownedMore fair.breakers key⟩ rfl

theorem breakerServed (fair : Fair r) (key policy) : Served r key (r.ruleBreaker key policy) := by
  unfold MqRuleRuntime.ruleBreaker
  split
  · exact servedNothing fair
  split
  · exact servedAgain fair (ownedHit fair.breakers ‹_›)
  exact servedNew ⟨ownedMore fair.rateLimits key,ownedMore fair.concurrency key,ownedNew fair.breakers key _⟩ rfl

section
variable [Letters] {rules : List Rule}

theorem lookUpServed (fair : Fair r) (set a) :
    Served r (mqGovernanceRuntimeKey (set.decide a.req) a.method a.topic a.group) (lookUp set r a) := by
  unfold lookUp
  cases a.kind with
  | rate => exact rateServed fair _ _
  | concurrency => exact concurrencyServed fair _ _
  | breaker => exact breakerServed fair _ _

def Leader (rules : List Rule) (req : Request) (i : Nat) (rule : Rule) : Prop :=
  Ranking.Leads less (ruleMatches · (normalizeRequest req)) (cloneRules rules) i rule

theorem lookUpLeader (got : (lookUp (newRuleSet rules) r a).1 = some handle) : ∃ i rule, Leader rules a.req i rule ∧
      mqGovernanceRuntimeKey ((newRuleSet rules).decide a.req) a.method a.topic a.group = ruleKey rule := by
  unfold lookUp at got
  rw [decideBest] at got ⊢
  cases best : Ranking.best less (ruleMatches · (normalizeRequest a.req)) (cloneRules rules) with
  | none =>
    rw [best] at got
    cases kind : a.kind <;> rw [kind] at got <;>
      simp [MqRuleRuntime.ruleRateLimiter,MqRuleRuntime.ruleConcurrencyLimiter,MqRuleRuntime.ruleBreaker] at got
  | some rule =>
    obtain ⟨i,leads⟩ := (Ranking.bestLeads lessWeak).mp best
    exact ⟨i,rule,leads,if_pos (keyFilled rule)⟩

structure Kept (rules : List Rule) (w : World) : Prop where
  fair : Fair w.runtime
  uses : ∀ use ∈ w.uses, ∃ i rule, Leader rules use.2 i rule ∧ w.runtime.made[use.1]? = some (ruleKey rule)

theorem stepKept (w a next) (kept : Kept rules w) (_ : Free w a)
    (ran : step (newRuleSet rules) w a = some next) : Kept rules next := by
  have served := lookUpServed kept.fair (newRuleSet rules) a
  cases ran
  refine ⟨served.fair,fun use mem => ?_⟩
  rcases List.mem_append.mp mem with old | new
  · obtain ⟨i,rule,leads,mine⟩ := kept.uses use old
    exact ⟨i,rule,leads,served.known mine⟩
  obtain ⟨handle,got,rfl⟩ := Option.map_eq_some_iff.mp (Option.mem_toList.mp new)
  obtain ⟨i,rule,leads,key⟩ := lookUpLeader got
  exact ⟨i,rule,leads,key ▸ served.served handle got⟩

theorem runKept (ran : Trace (step (newRuleSet rules)) Free {} as w) : Kept rules w :=
  traceInvariant stepKept ran ⟨⟨nofun,nofun,nofun⟩,nofun⟩

theorem leadersSame (leads : Leader rules req i x) (also : Leader rules other j y)
    (eq : criteria x = criteria y) : i = j := by
  obtain ⟨below,old⟩ := leads.beats j y also.found (criteriaMatch eq _ ▸ leads.meets)
  obtain ⟨above,after⟩ := also.beats i x leads.found (criteriaMatch eq _ ▸ also.meets)
  exact Nat.le_antisymm (old above) (after below)

/-- Rules that ask for different things have keys of their own, and so limiters and breakers of
their own, if the unnamed ones hold no mark of the key in their texts. -/
theorem runtimePerRule (valid : validateRules rules = none)
    (plain : ∀ rule ∈ cloneRules rules, rule.name = [] → Plain rule) :
    (∀ x ∈ cloneRules rules, ∀ y ∈ cloneRules rules, criteria x ≠ criteria y → ruleKey x ≠ ruleKey y) ∧
      ∀ as w, Trace (step (newRuleSet rules)) Free {} as w →
        ∀ handle req other, (handle,req) ∈ w.uses → (handle,other) ∈ w.uses →
          ∃ i rule, Chosen rules req i rule ∧ Chosen rules other i rule := by
  obtain ⟨each,distinct⟩ := validated.mp (cloneValid valid)
  have keys {x y : Rule} := keysTellApart (x := x) (y := y)
    (fun rule member => by simpa only [cloneNormal member] using each rule member) distinct plain
  refine ⟨fun x first y second differ eq => differ (keys first second eq),fun as w ran handle req other used again => ?_⟩
  have kept := runKept ran
  obtain ⟨i,x,leads,mine⟩ := kept.uses _ used
  obtain ⟨j,y,also,yours⟩ := kept.uses _ again
  have same := keys (List.mem_of_getElem? leads.found) (List.mem_of_getElem? also.found) (Option.mem_unique mine yours)
  cases leadersSame leads also same
  obtain ⟨original,_,chosen⟩ := chosenLeads leads
  obtain ⟨twin,_,picked⟩ := chosenLeads also
  cases Option.some.inj (chosen.found.symm.trans picked.found)
  exact ⟨i,original,chosen,picked⟩
end

theorem topicsApart :
    let _ := asciiLetters
    let rules : List Rule := [{ transport := transportMQ,path := "/a".toList,policy := { rateLimit := ⟨1,0⟩ } },
      { transport := transportMQ,path := "/b".toList,policy := { rateLimit := ⟨1,0⟩ } }]
    validateRules rules = none ∧
      ∀ x ∈ cloneRules rules, ∀ y ∈ cloneRules rules, criteria x ≠ criteria y → ruleKey x ≠ ruleKey y := by
  intro letters rules
  have valid : validateRules rules = none := by decide +kernel
  exact ⟨valid,(runtimePerRule valid (by decide +kernel)).1⟩

def sharing : List Rule :=
  [⟨[("mq.group".toList,"g,mq.topic=t".toList)],by decide⟩,
    ⟨[("mq.group".toList,"g".toList),("mq.topic".toList,"t".toList)],by decide⟩].map fun tags =>
      { transport := transportMQ,tags,policy := { rateLimit := ⟨1,1⟩ } }

def consumeTags (topic group : Str) : StringMap :=
  ⟨[("mq.group".toList,group),("mq.topic".toList,topic)],List.pairwise_pair.mpr rfl⟩

def consume (topic group : Str) : Request :=
  ⟨transportMQ,"mq".toList,"CONSUME".toList,'/' :: topic,consumeTags topic group,∅,∅⟩

theorem keyShared :
    let _ := asciiLetters
    validateRules sharing = none ∧
    (∃ x ∈ cloneRules sharing, ∃ y ∈ cloneRules sharing, criteria x ≠ criteria y ∧ ruleKey x = ruleKey y) ∧
    ∃ as w, run (step (newRuleSet sharing)) {} as = some w ∧ ∃ handle req other,
      (handle,req) ∈ w.uses ∧ (handle,other) ∈ w.uses ∧
      ¬∃ i rule, Chosen sharing req i rule ∧ Chosen sharing other i rule := by
  intro letters
  let first := consume "u".toList "g,mq.topic=t".toList
  let second := consume "t".toList "g".toList
  have seen : (run (step (newRuleSet sharing)) {} [⟨.rate,"CONSUME".toList,"u".toList,"g,mq.topic=t".toList,first⟩,
        ⟨.rate,"CONSUME".toList,"t".toList,"g".toList,second⟩]).any
      (fun w => w.uses == [(0,first),(0,second)]) = true := by decide +kernel
  obtain ⟨w,ran,uses⟩ := (Option.any_eq_true _ _).mp seen
  rw [beq_iff_eq] at uses
  refine ⟨by decide +kernel,by decide +kernel,_,w,ran,0,first,second,by simp [uses],by simp [uses],?_⟩
  rintro ⟨i,rule,one,two⟩
  have apart : ∀ rule ∈ sharing, ruleMatches (normalizeRule rule) (normalizeRequest first) = true →
      ruleMatches (normalizeRule rule) (normalizeRequest second) = false := by decide +kernel
  have none := apart rule (List.mem_of_getElem? one.found) one.matched
  rw [two.matched] at none
  cases none

end Gofly.RuleRuntime
