import Gofly.RuleSet
/-! The difference between two lists of rules, rule by rule under their keys. -/
namespace Gofly.Governance
open RuleSet Ranking

structure RuleDiff where
  added : List Rule := []
  removed : List Rule := []
  changed : List (Rule × Rule) := []
  unchanged : Nat := 0
  deriving DecidableEq

section
variable [Letters]

-- filled from the front, so that the last rule with a key stays
def beforeByKey (before : List Rule) (key : Str) : Option Rule :=
  before.reverse.find? fun rule => diffRuleKey rule == key

def compare (before : List Rule) (diff : RuleDiff) (rule : Rule) : RuleDiff :=
  match beforeByKey before (diffRuleKey rule) with
  | none => { diff with added := diff.added ++ [rule] }
  | some previous =>
    if normalizeRule previous = normalizeRule rule then { diff with unchanged := diff.unchanged + 1 }
    else { diff with changed := diff.changed ++ [(previous,rule)] }

def diffRules (before after : List Rule) : RuleDiff :=
  let before := cloneRules before
  let after := cloneRules after
  let diff := after.foldl (compare before) {}
  { diff with removed := before.filter fun rule => !after.any fun other => diffRuleKey other == diffRuleKey rule }

def RuleDiff.quiet (diff : RuleDiff) : Bool := diff.added.isEmpty && diff.removed.isEmpty && diff.changed.isEmpty
end

def Survives [Letters] (rules : List Rule) (rule : Rule) : Prop :=
  beforeByKey rules (diffRuleKey rule) = some rule
instance [Letters] (rules : List Rule) (rule : Rule) : Decidable (Survives rules rule) :=
  inferInstanceAs (Decidable (beforeByKey rules (diffRuleKey rule) = some rule))

section
variable [Letters] {a b rules : List Rule}

theorem survivesMem (survives : Survives rules rule) : rule ∈ rules :=
  List.mem_reverse.mp (List.mem_of_find?_eq_some survives)

theorem survivesOnly (survives : Survives rules rule) (also : Survives rules other)
    (eq : diffRuleKey rule = diffRuleKey other) : rule = other := by
  unfold Survives at survives also
  rw [eq] at survives
  exact Option.mem_unique survives also

theorem survivesKey (mem : rule ∈ rules) : ∃ other, Survives rules other ∧ diffRuleKey other = diffRuleKey rule := by
  cases got : beforeByKey rules (diffRuleKey rule) with
  | none => exact absurd (List.find?_eq_none.mp got rule (List.mem_reverse.mpr mem)) (by simp)
  | some other =>
    have key : diffRuleKey other = diffRuleKey rule := by simpa using List.find?_some got
    exact ⟨other,by rw [Survives,key,got],key⟩

theorem comparedQuiet {old after : List Rule} {diff : RuleDiff} :
    (after.foldl (compare old) diff).added = [] ∧ (after.foldl (compare old) diff).changed = [] ↔
      (diff.added = [] ∧ diff.changed = []) ∧ ∀ rule ∈ after, ∃ previous,
        beforeByKey old (diffRuleKey rule) = some previous ∧ normalizeRule previous = normalizeRule rule := by
  induction after generalizing diff with
  | nil => simp
  | cons rule rest ih =>
    rw [List.foldl_cons,ih]
    unfold compare
    split
    · simp_all
    split <;> simp_all

theorem quietSurvivors : (diffRules a b).quiet = true ↔ ∀ rule, rule ∈ cloneRules b ↔ Survives (cloneRules a) rule := by
  have fold := @comparedQuiet _ (cloneRules a) (cloneRules b) {}
  have removed : ((cloneRules a).filter fun rule =>
      !(cloneRules b).any fun other => diffRuleKey other == diffRuleKey rule) = [] ↔
      ∀ rule ∈ cloneRules a, ∃ other ∈ cloneRules b, diffRuleKey other = diffRuleKey rule := by
    simp
  have split : (diffRules a b).quiet = true ↔
      ((∀ rule ∈ cloneRules b, ∃ previous, beforeByKey (cloneRules a) (diffRuleKey rule) = some previous ∧
        normalizeRule previous = normalizeRule rule) ∧
      ∀ rule ∈ cloneRules a, ∃ other ∈ cloneRules b, diffRuleKey other = diffRuleKey rule) := by
    simp only [RuleDiff.quiet,Bool.and_eq_true,List.isEmpty_iff]
    tauto
  rw [split]
  constructor
  · rintro ⟨known,met⟩ rule
    have survives : ∀ rule ∈ cloneRules b, Survives (cloneRules a) rule := by
      intro rule mem
      obtain ⟨previous,got,eq⟩ := known rule mem
      have inside := List.mem_reverse.mp (List.mem_of_find?_eq_some got)
      rw [cloneNormal inside,cloneNormal mem] at eq
      rwa [eq] at got
    refine ⟨survives rule,fun kept => ?_⟩
    obtain ⟨other,mem,eq⟩ := met rule (survivesMem kept)
    rwa [← survivesOnly (survives other mem) kept eq]
  intro exactly
  refine ⟨fun rule mem => ⟨rule,(exactly rule).mp mem,rfl⟩,fun rule mem => ?_⟩
  obtain ⟨other,survives,key⟩ := survivesKey mem
  exact ⟨other,(exactly other).mpr survives,key⟩
end

section
variable [Letters] {a b : List Rule} {i : Nat}

def Top (rules : List Rule) (req : Request) (rule : Rule) : Prop :=
  Survives rules rule ∧ ruleMatches rule (normalizeRequest req) = true ∧
    ∀ other, Survives rules other → ruleMatches other (normalizeRequest req) = true → less other rule = false

/-- Whenever a rule leads the list for a request, the surviving rules of the highest rank that
match it say the same. -/
def Unambiguous (rules : List Rule) : Prop :=
  ∀ req i rule, Ranking.Leads less (ruleMatches · (normalizeRequest req)) rules i rule →
    (∃ other, Survives rules other ∧ ruleMatches other (normalizeRequest req) = true) ∧
    ∀ other, Top rules req other → ruleDecision other = ruleDecision rule

theorem decideLeads (leads : Leads less (ruleMatches · (normalizeRequest req)) (cloneRules a) i rule) :
    (newRuleSet a).decide req = ruleDecision rule := by
  rw [decideBest,(bestLeads lessWeak).mpr ⟨i,leads⟩]
  rfl

theorem decideNone (none : ∀ rule ∈ cloneRules a, ruleMatches rule (normalizeRequest req) = false) :
    (newRuleSet a).decide req = {} := by
  rw [decideBest,bestNone.mpr none]
  rfl

theorem unambiguousSound (clear : Unambiguous (cloneRules a)) (quiet : (diffRules a b).quiet = true) (req) :
    (newRuleSet a).decide req = (newRuleSet b).decide req := by
  have exactly := quietSurvivors.mp quiet
  cases got : best less (ruleMatches · (normalizeRequest req)) (cloneRules a) with
  | none =>
    have silent := bestNone.mp got
    rw [decideNone silent,decideNone fun rule mem => silent rule (survivesMem ((exactly rule).mp mem))]
  | some rule =>
    obtain ⟨i,leads⟩ := (bestLeads lessWeak).mp got
    obtain ⟨⟨kept,survives,fits⟩,agree⟩ := clear req i rule leads
    cases also : best less (ruleMatches · (normalizeRequest req)) (cloneRules b) with
    | none =>
      have silent := bestNone.mp also kept ((exactly kept).mpr survives)
      rw [fits] at silent
      cases silent
    | some other =>
      obtain ⟨j,wins⟩ := (bestLeads lessWeak).mp also
      have top : Top (cloneRules a) req other := by
        refine ⟨(exactly other).mp (List.mem_of_getElem? wins.found),wins.meets,fun third stays matched => ?_⟩
        obtain ⟨place,seen⟩ := List.mem_iff_getElem?.mp ((exactly third).mpr stays)
        exact (wins.beats place third seen matched).1
      rw [decideLeads leads,decideLeads wins,agree other top]

theorem survivorsQuiet (valid : validateRules a = none)
    (eq : list.Perm ((cloneRules a).filter fun rule => Survives (cloneRules a) rule)) :
    cloneRules list = list ∧ validateRules list = none ∧ (diffRules a list).quiet = true := by
  have mem : ∀ rule, rule ∈ list ↔ Survives (cloneRules a) rule := fun rule =>
    eq.mem_iff.trans (by simpa using survivesMem)
  have clone : cloneRules list = list :=
    (List.map_congr_left fun rule inside => cloneNormal (survivesMem ((mem rule).mp inside))).trans (List.map_id' _)
  obtain ⟨each,nodup⟩ := validated.mp (cloneValid valid)
  refine ⟨clone,validated.mpr ⟨fun rule inside => each rule (survivesMem ((mem rule).mp inside)),?_⟩,?_⟩
  · exact ((eq.map _).filter _).nodup_iff.mpr (nodup.sublist ((List.filter_sublist.map _).filter _))
  rw [quietSurvivors,clone]
  exact mem

theorem soundUnambiguous (valid : validateRules a = none)
    (sound : ∀ b, validateRules b = none → (diffRules a b).quiet = true →
      ∀ req, (newRuleSet a).decide req = (newRuleSet b).decide req) : Unambiguous (cloneRules a) := by
  intro req i rule leads
  constructor
  · by_contra none
    obtain ⟨clone,fine,quiet⟩ := survivorsQuiet valid (List.Perm.refl _)
    have silent := @decideNone _ ((cloneRules a).filter fun rule => Survives (cloneRules a) rule) req (by
      intro other inside
      rw [clone,List.mem_filter,decide_eq_true_eq] at inside
      exact Bool.eq_false_iff.mpr fun fits => none ⟨other,inside.2,fits⟩)
    have decided := sound _ fine quiet req
    rw [decideLeads leads,silent] at decided
    exact Bool.noConfusion (congrArg Decision.matched decided)
  intro other ⟨survives,fits,top⟩
  -- the rule that ties is put first
  have inside : other ∈ (cloneRules a).filter fun rule => Survives (cloneRules a) rule := by
    simpa using ⟨survivesMem survives,survives⟩
  have ran := (List.perm_cons_erase inside).symm
  obtain ⟨clone,fine,quiet⟩ := survivorsQuiet valid ran
  have first : Leads less (ruleMatches · (normalizeRequest req))
      (other :: ((cloneRules a).filter fun rule => Survives (cloneRules a) rule).erase other) 0 other := by
    refine ⟨rfl,fits,fun j third seen matched => ⟨top third ?_ matched,fun _ => Nat.zero_le j⟩⟩
    have mem := ran.mem_iff.mp (List.mem_of_getElem? seen)
    rw [List.mem_filter,decide_eq_true_eq] at mem
    exact mem.2
  rw [← clone] at first
  rw [← decideLeads leads,← decideLeads first]
  exact (sound _ fine quiet req).symm

/-- A quiet diff is proof of the same decisions exactly for the lists whose decisions hang on
neither places nor replaced rules. -/
theorem quietDiffSound (valid : validateRules a = none) :
    (∀ b, validateRules b = none → (diffRules a b).quiet = true →
      ∀ req, (newRuleSet a).decide req = (newRuleSet b).decide req) ↔ Unambiguous (cloneRules a) :=
  ⟨soundUnambiguous valid,fun clear _ _ quiet => unambiguousSound clear quiet⟩
end

theorem rankedDiffSound :
    let _ := asciiLetters
    let a : List Rule := [{ name := ['a'],priority := 1 },{ name := ['b'] }]
    validateRules a = none ∧ ∀ b, validateRules b = none → (diffRules a b).quiet = true →
      ∀ req, (newRuleSet a).decide req = (newRuleSet b).decide req := by
  intro letters a
  have valid : validateRules a = none := by decide +kernel
  refine ⟨valid,(quietDiffSound valid).mpr ?_⟩
  have noTags : (∅ : StringMap).entries = [] := rfl
  have clone : cloneRules a = a := by decide +kernel
  rw [clone]
  intro req i rule leads
  have fits : ∀ rule ∈ a, ruleMatches rule (normalizeRequest req) = true := by simp [a,ruleMatches,noTags]
  have only : ∀ rule ∈ a, less { name := ['a'],priority := 1 } rule = false →
      rule = { name := ['a'],priority := 1 } := by decide +kernel
  have first : Survives a { name := ['a'],priority := 1 } := by decide +kernel
  have lead := only rule (List.mem_of_getElem? leads.found) (leads.beats 0 _ rfl (fits _ (survivesMem first))).1
  refine ⟨⟨_,first,fits _ (survivesMem first)⟩,fun other ⟨survives,_,top⟩ => ?_⟩
  rw [lead,only other (survivesMem survives) (top _ first (fits _ (survivesMem first)))]

theorem reorderedDiffQuiet :
    let _ := asciiLetters
    ∃ a b req, validateRules a = none ∧ validateRules b = none ∧ (diffRules a b).quiet = true ∧
      (newRuleSet a).decide req ≠ (newRuleSet b).decide req := by
  refine ⟨[{ name := ['a'] },{ name := ['b'] }],[{ name := ['b'] },{ name := ['a'] }],{},?_⟩
  decide +kernel

end Gofly.Governance
