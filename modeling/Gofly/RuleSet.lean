import Gofly.Governance
import Gofly.Transition
/-! The rule set: the rules in force, sorted by priority and specificity, and the versions and
events that replacing them leaves behind. -/
namespace Gofly.Governance

def defaultRuleSetEventLimit : Nat := 32
def defaultRuleSetVersionLimit : Nat := 16

inductive LoadError where
  | store (err : String)
  | pluginName
  | pluginDuplicated (name : Str)
  | pluginInvalid (name : Str) (err : Invalid)
  deriving DecidableEq

inductive Failure where
  | invalid (err : Invalid)
  | nilProvider
  | provider (err : LoadError)
  | version
  | notFound (version : Int)
  deriving DecidableEq

structure RuleSetEvent where
  version : Int
  action : String
  source : String
  success : Bool
  rules : Nat
  error : Option Failure
  deriving DecidableEq

structure RuleSetVersion where
  version : Int
  action : String
  source : String
  rules : List Rule
  deriving DecidableEq

structure RuleSet where
  rules : List Rule := []
  version : Int := 0
  lastError : Option Failure := none
  events : List RuleSetEvent := []
  versions : List RuleSetVersion := []
  deriving DecidableEq

structure RuleEvaluation where
  ruleKey : Str
  ruleName : Str
  priority : Int
  specificity : Nat
  matched : Bool
  reason : Reason
  deriving DecidableEq

structure RuleExplain where
  request : Request
  decision : Decision
  evaluations : List RuleEvaluation
  deriving DecidableEq

def latest {α : Type} (limit : Nat) (list : List α) : List α := list.drop (list.length - limit)

def less (x y : Rule) : Bool :=
  if x.priority ≠ y.priority then decide (y.priority < x.priority)
  else decide (ruleSpecificity y < ruleSpecificity x)

def ruleDecision (rule : Rule) : Decision := ⟨true,ruleKey rule,rule.name,rule.policy⟩

namespace RuleSet

def appendEventLocked (r : RuleSet) (event : RuleSetEvent) : RuleSet :=
  { r with events := latest defaultRuleSetEventLimit (r.events ++ [event]) }

def appendVersionLocked [Letters] (r : RuleSet) (version : RuleSetVersion) : RuleSet :=
  let version := { version with rules := cloneRules version.rules }
  { r with versions := latest defaultRuleSetVersionLimit (r.versions ++ [version]) }

def recordFailure (r : RuleSet) (action source : String) (err : Failure) : RuleSet :=
  { r with lastError := some err }.appendEventLocked ⟨r.version,action,source,false,r.rules.length,some err⟩

section
variable [Letters]

def replaceWith (r : RuleSet) (rules : List Rule) (action source : String) : RuleSet :=
  let normalized := Ranking.stableSort less (cloneRules rules)
  let r := { r with rules := normalized,version := r.version + 1,lastError := none }
  (r.appendEventLocked ⟨r.version,action,source,true,normalized.length,none⟩).appendVersionLocked
    ⟨r.version,action,source,normalized⟩

def replace (r : RuleSet) (rules : List Rule) : RuleSet := r.replaceWith rules "replace" ""

def replaceValidated (r : RuleSet) (rules : List Rule) : Option Failure × RuleSet :=
  match validateRules rules with
  | some err => (some (.invalid err),r.recordFailure "replace" "" (.invalid err))
  | none => (none,r.replaceWith rules "replace" "")

def rollback (r : RuleSet) (version : Int) : Option Failure × RuleSet :=
  if version ≤ 0 then (some .version,r.recordFailure "rollback" "" .version)
  else
    match r.versions.find? fun item => item.version == version with
    | none => (some (.notFound version),
        r.recordFailure "rollback" ("version:" ++ toString version) (.notFound version))
    | some item => (none,r.replaceWith (cloneRules item.rules) "rollback" ("version:" ++ toString version))

structure Provider where
  source : String
  load : Except LoadError (List Rule)

def load (r : RuleSet) (provider : Option Provider) : Option Failure × RuleSet :=
  match provider with
  | none => (some .nilProvider,r.recordFailure "load" "" .nilProvider)
  | some provider =>
    match provider.load with
    | .error err => (some (.provider err),r.recordFailure "load" provider.source (.provider err))
    | .ok rules =>
      match validateRules rules with
      | some err => (some (.invalid err),r.recordFailure "load" provider.source (.invalid err))
      | none => (none,r.replaceWith rules "load" provider.source)

def firstMatch (req : Request) : List Rule → Decision
  | [] => {}
  | rule :: rest => if ruleMatches rule req then ruleDecision rule else firstMatch req rest

def decide (r : RuleSet) (req : Request) : Decision := firstMatch (normalizeRequestForMatch req) r.rules

def evaluate (order : List Nat) (out : RuleExplain) (rule : Rule) : RuleExplain :=
  let (matched,reason) := explainRule order rule out.request
  { out with
    evaluations := out.evaluations ++
      [⟨ruleKey rule,rule.name,rule.priority,ruleSpecificity rule,matched,reason⟩]
    decision := if matched && !out.decision.matched then ruleDecision rule else out.decision }

def explainLoop : List (List Nat) → RuleExplain → List Rule → RuleExplain
  | _,out,[] => out
  | orders,out,rule :: rest => explainLoop orders.tail (evaluate (orders.headD []) out rule) rest

def explain (r : RuleSet) (orders : List (List Nat)) (req : Request) : RuleExplain :=
  explainLoop orders ⟨normalizeRequest req,{},[]⟩ r.rules
end
end RuleSet

def newRuleSet [Letters] (rules : List Rule) : RuleSet := RuleSet.replace {} rules

open RuleSet Ranking

theorem lessWeak : Weak less := by
  constructor
  · intro x y above
    unfold less at *
    split at above <;> split <;> simp_all
    all_goals omega
  intro x y z first second
  unfold less at *
  split at first <;> split at second <;> split <;> simp_all
  all_goals omega

structure Chosen [Letters] (rules : List Rule) (req : Request) (i : Nat) (rule : Rule) : Prop where
  found : rules[i]? = some rule
  matched : ruleMatches (normalizeRule rule) (normalizeRequest req) = true
  highest : ∀ j other, rules[j]? = some other → ruleMatches (normalizeRule other) (normalizeRequest req) = true →
    other.priority < rule.priority ∨ other.priority = rule.priority ∧
      (ruleSpecificity (normalizeRule other) < ruleSpecificity (normalizeRule rule) ∨
        ruleSpecificity (normalizeRule other) = ruleSpecificity (normalizeRule rule) ∧ i ≤ j)

theorem firstMatchFind (req rules) :
    firstMatch req rules = ((rules.find? (ruleMatches · req)).map ruleDecision).getD {} := by
  induction rules with
  | nil => rfl
  | cons =>
    rw [firstMatch]
    split <;> simp_all

theorem explainSettled (orders rules)
    (done : out.decision.matched = true) : (explainLoop orders out rules).decision = out.decision := by
  induction rules generalizing orders out with
  | nil => rfl
  | cons rule rest ih =>
    have kept : (evaluate (orders.headD []) out rule).decision = out.decision := by simp [evaluate,done]
    rw [explainLoop,ih _ (kept ▸ done),kept]

theorem explainFirst (orders) {out} (rules) (fresh : out.decision = {}) :
    (explainLoop orders out rules).decision = firstMatch out.request rules := by
  induction rules generalizing orders out with
  | nil => exact fresh
  | cons rule rest ih =>
    rw [explainLoop,firstMatch]
    cases fits : ruleMatches rule out.request with
    | true =>
      have chosen : (evaluate (orders.headD []) out rule).decision = ruleDecision rule := by
        simp [evaluate,explainMatches,fits,fresh]
      rw [explainSettled _ _ (by rw [chosen]; rfl),chosen]
      rfl
    | false =>
      have passed : (evaluate (orders.headD []) out rule).decision = {} := by
        simp [evaluate,explainMatches,fits,fresh]
      exact ih _ passed

section
variable [Letters] {rules : List Rule} {i : Nat}

theorem cloneForall {P : Rule → Prop} : (∀ rule ∈ cloneRules rules, P rule) ↔ ∀ rule ∈ rules, P (normalizeRule rule) :=
  List.forall_mem_map

theorem decideBest (rules req) : (newRuleSet rules).decide req =
      ((best less (ruleMatches · (normalizeRequest req)) (cloneRules rules)).map ruleDecision).getD {} := by
  rw [← sortFind lessWeak,← firstMatchFind]
  rfl

theorem chosenLeads (leads : Leads less (ruleMatches · (normalizeRequest req)) (cloneRules rules) i rule) :
    ∃ original, normalizeRule original = rule ∧ Chosen rules req i original := by
  have got := leads.found
  rw [cloneRules,List.getElem?_map] at got
  obtain ⟨original,here,rfl⟩ := Option.map_eq_some_iff.mp got
  refine ⟨original,rfl,here,leads.meets,fun j other seen also => ?_⟩
  have seen : (cloneRules rules)[j]? = some (normalizeRule other) := by rw [cloneRules,List.getElem?_map,seen]; rfl
  obtain ⟨below,order⟩ := leads.beats j _ seen also
  have priority : ∀ r : Rule, (normalizeRule r).priority = r.priority := fun _ => rfl
  simp only [less] at below order
  split at below <;> split at order <;> simp_all
  all_goals omega

/-- Decide and Explain decide by the matching rule of the highest priority and specificity, the
first among equals. -/
theorem decisionIsBest (rules : List Rule) (req : Request) (orders : List (List Nat)) :
    (newRuleSet rules).decide req = ((newRuleSet rules).explain orders req).decision ∧
    (((newRuleSet rules).decide req).matched = true → ∃ i rule, Chosen rules req i rule ∧
      (newRuleSet rules).decide req = ruleDecision (normalizeRule rule)) ∧
    (((newRuleSet rules).decide req).matched = false ↔
      ∀ rule ∈ rules, ruleMatches (normalizeRule rule) (normalizeRequest req) = false) := by
  refine ⟨(@explainFirst orders ⟨normalizeRequest req,{},[]⟩ (newRuleSet rules).rules rfl).symm,?_,?_⟩
  · intro matched
    rw [decideBest] at matched ⊢
    cases found : best less (ruleMatches · (normalizeRequest req)) (cloneRules rules) with
    | none => simp [found] at matched
    | some =>
      obtain ⟨i,leads⟩ := (bestLeads lessWeak).mp found
      obtain ⟨original,rfl,chosen⟩ := chosenLeads leads
      exact ⟨i,original,chosen,rfl⟩
  · refine Iff.trans ?_ ((@bestNone _ less (ruleMatches · (normalizeRequest req)) _).trans cloneForall)
    rw [decideBest]
    cases best less (ruleMatches · (normalizeRequest req)) (cloneRules rules) <;> simp [ruleDecision]
end

open Transition Roster

inductive Call where
  | replace (rules : List Rule)
  | replaceValidated (rules : List Rule)
  | load (provider : Option Provider)
  | rollback (version : Int)

def RuleSet.call [Letters] (r : RuleSet) : Call → Option Failure × RuleSet
  | .replace rules => (none,r.replace rules)
  | .replaceValidated rules => r.replaceValidated rules
  | .load provider => r.load provider
  | .rollback version => r.rollback version

/-- A rule set with every version there has been and the rules in force under it. -/
structure Chronicle where
  set : RuleSet
  past : List (Int × List Rule)

namespace Chronicle

def begin [Letters] (rules : List Rule) : Chronicle :=
  ⟨newRuleSet rules,[((newRuleSet rules).version,(newRuleSet rules).rules)]⟩

def step [Letters] (w : Chronicle) (c : Call) : Option Chronicle :=
  match w.set.call c with
  | (some _,set) => some { w with set := set }
  | (none,set) => some ⟨set,w.past ++ [(set.version,set.rules)]⟩

end Chronicle

open Chronicle

section
variable {α β : Type} {limit : Nat}

theorem latestSuffix (limit) (list : List α) : latest limit list <:+ list := List.drop_suffix _ _

theorem latestMap (f : α → β) (limit list) : (latest limit list).map f = latest limit (list.map f) := by
  rw [latest,latest,List.map_drop,List.length_map]

theorem latestAgain (limit) (list : List α) (x) :
    latest limit (latest limit list ++ [x]) = latest limit (list ++ [x]) := by
  unfold latest
  rcases Nat.le_total list.length limit with few | many
  · rw [Nat.sub_eq_zero_of_le few,List.drop_zero]
  rw [← List.drop_append_of_le_length (Nat.sub_le _ _),List.drop_drop,List.length_drop,List.length_append]
  congr 1
  omega
end

def Settled [Letters] (rules : List Rule) : Prop := cloneRules rules = rules ∧ Ranking.stableSort less rules = rules
def RuleSetVersion.record (item : RuleSetVersion) : Int × List Rule := (item.version,item.rules)

structure Unmoved (r next : RuleSet) : Prop where
  rules : next.rules = r.rules
  version : next.version = r.version
  versions : next.versions = r.versions

structure Chronicle.Kept [Letters] (w : Chronicle) : Prop where
  last : w.past.getLast? = some (w.set.version,w.set.rules)
  increasing : w.past.Pairwise fun a b => a.1 < b.1
  positive : ∀ entry ∈ w.past, 0 < entry.1
  retained : w.set.versions.map RuleSetVersion.record = latest defaultRuleSetVersionLimit w.past
  settled : ∀ entry ∈ w.past, Settled entry.2

theorem failureUnmoved (r action source err) : Unmoved r (r.recordFailure action source err) := ⟨rfl,rfl,rfl⟩

section
variable [Letters] {w next : Chronicle} {version : Int}

theorem sortSettled (rules) : Settled (stableSort less (cloneRules rules)) := by
  have normal : ∀ rule ∈ stableSort less (cloneRules rules), normalizeRule rule = id rule := by
    intro rule mem
    obtain ⟨original,_,rfl⟩ := List.mem_map.mp (memSort.mp mem)
    exact normalizeTwice original
  exact ⟨(List.map_congr_left normal).trans (List.map_id _),sortTwice lessWeak _⟩

theorem settledAgain {rules} (done : Settled rules) :
    stableSort less (cloneRules (cloneRules rules)) = rules := by
  rw [cloneTwice,done.1,done.2]

theorem callExact (r c) : (∃ err set, r.call c = (some err,set) ∧ Unmoved r set) ∨
    ∃ rules action source, r.call c = (none,r.replaceWith rules action source) := by
  cases c with
  | replace rules => exact .inr ⟨rules,_,_,rfl⟩
  | replaceValidated rules =>
    simp only [call,replaceValidated]
    split
    · exact .inl ⟨_,_,rfl,failureUnmoved ..⟩
    exact .inr ⟨rules,_,_,rfl⟩
  | load =>
    simp only [call,load]
    split
    · exact .inl ⟨_,_,rfl,failureUnmoved ..⟩
    split
    · exact .inl ⟨_,_,rfl,failureUnmoved ..⟩
    split
    · exact .inl ⟨_,_,rfl,failureUnmoved ..⟩
    exact .inr ⟨_,_,_,rfl⟩
  | rollback =>
    simp only [call,rollback]
    split
    · exact .inl ⟨_,_,rfl,failureUnmoved ..⟩
    split
    · exact .inl ⟨_,_,rfl,failureUnmoved ..⟩
    exact .inr ⟨_,_,_,rfl⟩

theorem replaceRecords (r : RuleSet) (rules action source) :
    (r.replaceWith rules action source).versions.map RuleSetVersion.record =
      latest defaultRuleSetVersionLimit (r.versions.map RuleSetVersion.record ++
        [((r.replaceWith rules action source).version,(r.replaceWith rules action source).rules)]) := by
  have done := (sortSettled rules).1
  simp only [replaceWith,appendVersionLocked,appendEventLocked,latestMap,List.map_append,List.map_cons,List.map_nil,
    RuleSetVersion.record,done]

theorem replacedKept (kept : w.Kept) (rules action source) (set : next.set = w.set.replaceWith rules action source)
    (past : next.past = w.past ++ [(next.set.version,next.set.rules)]) : next.Kept := by
  have version : next.set.version = w.set.version + 1 := by rw [set]; rfl
  have top : ∀ entry ∈ w.past, entry.1 ≤ w.set.version := by
    intro entry mem
    obtain ⟨before,eq⟩ := List.getLast?_eq_some_iff.mp kept.last
    have increasing := kept.increasing
    rw [eq] at mem increasing
    rcases addMem mem with old | new
    · exact Int.le_of_lt ((List.pairwise_append.mp increasing).2.2 entry old _ List.mem_cons_self)
    rw [new]
  refine ⟨?_,?_,?_,?_,?_⟩
  · rw [past,List.getLast?_concat]
  · rw [past]
    refine List.pairwise_append.mpr ⟨kept.increasing,List.pairwise_singleton _ _,fun entry mem last one => ?_⟩
    rw [List.mem_singleton.mp one]
    have := top entry mem
    omega
  · rw [past]
    intro entry mem
    rcases addMem mem with old | new
    · exact kept.positive entry old
    rw [new]
    have := kept.positive _ (List.mem_of_getLast? kept.last)
    omega
  · rw [past,set,replaceRecords,kept.retained,latestAgain]
  rw [past]
  intro entry mem
  rcases addMem mem with old | new
  · exact kept.settled entry old
  rw [new,set]
  exact sortSettled rules

theorem stepKept (w : Chronicle) (c next) (kept : w.Kept) (_ : Free w c)
    (ran : w.step c = some next) : next.Kept := by
  rcases callExact w.set c with ⟨err,set,eq,unmoved⟩ | ⟨rules,action,source,eq⟩
  · simp only [step,eq] at ran
    cases ran
    refine { kept with last := ?_,retained := ?_ }
    · rw [unmoved.version,unmoved.rules,kept.last]
    rw [unmoved.versions,kept.retained]
  simp only [step,eq] at ran
  cases ran
  exact replacedKept kept rules action source rfl rfl

theorem beginKept (rules) : (begin rules).Kept := by
  refine ⟨rfl,List.pairwise_singleton _ _,?_,?_,?_⟩
  · intro entry mem
    rw [List.mem_singleton.mp mem]
    show (0 : Int) < 0 + 1
    decide
  · exact replaceRecords {} rules "replace" ""
  intro entry mem
  rw [List.mem_singleton.mp mem]
  exact sortSettled rules

theorem runKept {rules} (ran : Trace step Free (begin rules) calls w) : w.Kept :=
  traceInvariant stepKept ran (beginKept rules)

theorem rollbackRetained (kept : w.Kept) (mem : version ∈ w.set.versions.map RuleSetVersion.version) :
    (w.set.call (.rollback version)).1 = none ∧ (version,(w.set.call (.rollback version)).2.rules) ∈ w.past := by
  obtain ⟨item,inside,eq⟩ := List.mem_map.mp mem
  cases got : w.set.versions.find? fun item => item.version == version with
  | none => exact absurd eq (by simpa using List.find?_eq_none.mp got item inside)
  | some target =>
    have version : target.version = version := by simpa using List.find?_some got
    have record : target.record ∈ w.past := by
      refine (latestSuffix defaultRuleSetVersionLimit w.past).subset ?_
      rw [← kept.retained]
      exact List.mem_map_of_mem (List.mem_of_find?_eq_some got)
    have pos : ¬ target.version ≤ 0 := Int.not_le.mpr (kept.positive _ record)
    have again : stableSort less (cloneRules (cloneRules target.rules)) = target.rules :=
      settledAgain (kept.settled _ record)
    subst version
    simp only [call,rollback,if_neg pos,got,true_and]
    change (_,stableSort less (cloneRules (cloneRules target.rules))) ∈ w.past
    rw [again]
    exact record

/-- A failing call changes nothing, a succeeding one raises the version, and a rollback brings
back the rules of a kept version. -/
theorem historyKept {rules : List Rule} {calls : List Call} (ran : Trace step Free (begin rules) calls w) :
    (∀ c err, (w.set.call c).1 = some err →
      (w.set.call c).2.rules = w.set.rules ∧ (w.set.call c).2.version = w.set.version) ∧
    (∀ c, (w.set.call c).1 = none → w.set.version < (w.set.call c).2.version) ∧
    w.set.versions.map RuleSetVersion.record = latest 16 w.past ∧
    w.past.Pairwise (fun a b => a.1 < b.1) ∧ w.past.getLast? = some (w.set.version,w.set.rules) ∧
    ∀ version ∈ w.set.versions.map RuleSetVersion.version, (w.set.call (.rollback version)).1 = none ∧
      (version,(w.set.call (.rollback version)).2.rules) ∈ w.past := by
  have kept := runKept ran
  refine ⟨fun c err failed => ?_,fun c ok => ?_,kept.retained,kept.increasing,kept.last,
    fun version member => rollbackRetained kept member⟩
  · rcases callExact w.set c with ⟨err,set,same,unmoved⟩ | ⟨rules,action,source,same⟩
    · rw [same]
      exact ⟨unmoved.rules,unmoved.version⟩
    · simp [same] at failed
  rcases callExact w.set c with ⟨err,set,same,unmoved⟩ | ⟨rules,action,source,same⟩
  · simp [same] at ok
  · rw [same]
    exact Int.lt_succ _
end

def plainRule (name : String) (priority : Int) : Rule := { name := name.toList,priority := priority }

def rolledBack : List Call :=
  [.replaceValidated [plainRule "b" 0,plainRule "a" 1],.replaceValidated [plainRule "a" 1,plainRule "a" 2],
    .load none,.replace [],.rollback 2]

theorem rolledBackKept : ∃ w, @Transition.run _ _ (@step asciiLetters) (@begin asciiLetters [plainRule "c" 0]) rolledBack =
    some w ∧ w.set.version = 4 ∧ w.set.rules.map Rule.name = ["a".toList,"b".toList] ∧
    w.set.versions.map RuleSetVersion.record = latest 16 w.past := by
  let _ := asciiLetters
  have ran : (run step (begin [plainRule "c" 0]) rolledBack).any (fun w =>
      w.set.version == 4 && w.set.rules.map Rule.name == ["a".toList,"b".toList]) = true := by decide +kernel
  obtain ⟨w,ran,seen⟩ := (Option.any_eq_true _ _).mp ran
  simp only [Bool.and_eq_true,beq_iff_eq] at seen
  obtain ⟨_,_,retained,_⟩ := historyKept (runFree ran)
  exact ⟨w,ran,seen.1,seen.2,retained⟩

end Gofly.Governance
