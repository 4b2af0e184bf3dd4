import Gofly.Overlay
import Gofly.RuleSet
/-! Rules laid over rules by name: the rules of plugins under those of the store. The manager
saves rules without the plugins' and merges them again when it loads. -/
namespace Gofly.Governance
open RuleSet

structure Merge where
  out : List Rule
  index : Str → Option Nat

def indexFrom (i : Nat) (index : Str → Option Nat) : List Rule → Str → Option Nat
  | [] => index
  | rule :: rest => indexFrom (i + 1) (if rule.name ≠ [] then Function.update index rule.name (some i) else index) rest

section
variable [Letters]

def mergeRule (m : Merge) (rule : Rule) : Merge :=
  let rule := normalizeRule rule
  if rule.name ≠ [] then
    match m.index rule.name with
    | some i => { m with out := m.out.set i rule }
    | none => ⟨m.out ++ [rule],Function.update m.index rule.name (some m.out.length)⟩
  else { m with out := m.out ++ [rule] }

def mergeRules (base : List Rule) (overlays : List (List Rule)) : List Rule :=
  let out := cloneRules base
  let m : Merge := ⟨out,indexFrom 0 (fun _ => none) out⟩
  (overlays.foldl (List.foldl mergeRule) m).out
end

structure Plugin where
  name : Str
  rules : List Rule
  deriving DecidableEq

structure Suite where
  plugins : List Plugin := []
  rules : List Rule := []

structure Store where
  source : String
  saver : Bool
  deriving DecidableEq

inductive RuleProvider where
  | plain (store : Store)
  | pluginRuleProvider (base : Store) (plugins : List (Option Plugin))
  deriving DecidableEq

inductive ManagerError where
  | provider
  | unsupported
  | plugin (err : LoadError)
  | invalid (err : Invalid)
  | save (err : String)
  | failure (err : Failure)
  deriving DecidableEq

section
variable [Letters]

-- a nil plugin is passed over
def Suite.add (s : Suite) : Option Plugin → Except LoadError Suite
  | none => .ok s
  | some plugin =>
    if plugin.name = [] then .error .pluginName
    else if s.plugins.any fun existing => existing.name == plugin.name then .error (.pluginDuplicated plugin.name)
    else
      match validateRules plugin.rules with
      | some err => .error (.pluginInvalid plugin.name err)
      | none => .ok ⟨s.plugins ++ [plugin],mergeRules s.rules [plugin.rules]⟩

def newSuite (plugins : List (Option Plugin)) : Except LoadError Suite := plugins.foldlM Suite.add {}
def rulesFromPlugins (plugins : List (Option Plugin)) : Except LoadError (List Rule) :=
  (newSuite plugins).map fun s => cloneRules s.rules

namespace RuleProvider

def load (loaded : Except LoadError (List Rule)) : RuleProvider → Except LoadError (List Rule)
  | plain _ => loaded
  | pluginRuleProvider _ plugins => do
    let base ← loaded
    let pluginRules ← rulesFromPlugins plugins
    return mergeRules pluginRules [base]

end RuleProvider
end

namespace RuleProvider

def plugins : RuleProvider → List (Option Plugin)
  | plain _ => []
  | pluginRuleProvider _ plugins => plugins

-- the provider with plugins always has a Save
def saver : RuleProvider → Bool
  | plain store => store.saver
  | pluginRuleProvider _ _ => true

def save (saved : Option String) : RuleProvider → Option ManagerError
  | plain _ => saved.map .save
  | pluginRuleProvider base _ => if base.saver then saved.map .save else some .unsupported

def source : RuleProvider → String
  | plain store => store.source
  | pluginRuleProvider base _ => if base.source.endsWith "+plugins" then base.source else base.source ++ "+plugins"

end RuleProvider

structure Manager where
  rules : RuleSet
  plugins : List (Option Plugin)
  provider : Option RuleProvider
  confRules : List Rule
  source : String
  wired : ∀ p, provider = some p → p.plugins = plugins

namespace Manager

def wire (plugins : List (Option Plugin)) (store : Store) : RuleProvider :=
  if plugins ≠ [] then .pluginRuleProvider store plugins else .plain store

theorem wirePlugins (plugins store) : (wire plugins store).plugins = plugins := by
  unfold wire
  split <;> simp_all [RuleProvider.plugins]

section
variable [Letters]

def newManager (confRules : List Rule) (rules : Option RuleSet) (plugins : List (Option Plugin)) (store : Option Store) :
    Except ManagerError Manager := do
  let rules ← match rules with
    | none =>
      match rulesFromPlugins plugins with
      | .error err => .error (.plugin err)
      | .ok pluginRules =>
        let merged := mergeRules pluginRules [confRules]
        match validateRules merged with
        | some err => .error (.invalid err)
        | none => .ok (newRuleSet merged)
    | some rules =>
      match validateRules rules.rules with
      | some err => .error (.invalid err)
      | none => .ok rules
  return { rules,plugins,provider := store.map (wire plugins),confRules
           source := (store.map (wire plugins)).elim "static" RuleProvider.source
           wired := fun p found => by
            obtain ⟨given,_,rfl⟩ := Option.map_eq_some_iff.mp found
            exact wirePlugins plugins given }

def pluginRules (m : Manager) : Except LoadError (List Rule) :=
  if m.plugins = [] then .ok [] else rulesFromPlugins m.plugins

def saveRules (m : Manager) (rules : List Rule) (saved : Option String) : Option ManagerError × Manager :=
  match m.provider with
  | none => (some .unsupported,m)
  | some provider =>
    if provider.saver = false then (some .unsupported,m)
    else
      match m.pluginRules with
      | .error err => (some (.plugin err),m)
      | .ok pluginRules =>
        let merged := mergeRules pluginRules [rules]
        match validateRules merged with
        | some err => (some (.invalid err),m)
        | none =>
          match provider.save saved with
          | some err => (some err,m)
          | none =>
            match m.rules.replaceValidated merged with
            | (some err,set) => (some (.failure err),{ m with rules := set })
            | (none,set) => (none,{ m with rules := set,confRules := [],source := provider.source })

def reload (m : Manager) (loaded : Except LoadError (List Rule)) : Option ManagerError × Manager :=
  match m.provider with
  | none => (some .provider,m)
  | some provider =>
    let (err,rules) := m.rules.load (some ⟨provider.source,provider.load loaded⟩)
    (err.map .failure,{ m with rules := rules })
end
end Manager

def nameOf (rule : Rule) : Option Str := if rule.name = [] then none else some rule.name

theorem nameOfNone : nameOf rule = none ↔ rule.name = [] := by simp [nameOf]

theorem nameOfNamed (named : rule.name ≠ []) : nameOf rule = some rule.name := if_neg named

theorem sameName : Overlay.same nameOf x y = false ↔ (x.name ≠ [] → y.name ≠ x.name) := by
  by_cases first : x.name = []
  · simp [Overlay.same,nameOf,first]
  by_cases second : y.name = []
  · simp [Overlay.same,nameOf,second]
  simp [Overlay.same,nameOf,second,ne_comm]

theorem distinctUnique (rules) : Overlay.Unique nameOf rules ↔ Distinct rules := by
  induction rules with
  | nil => simp [Overlay.Unique,Distinct]
  | cons rule _ ih =>
    by_cases name : rule.name = []
    · simp [distinctUnnamed name,← ih,Overlay.Unique,sameName,name]
    simp [distinctNamed name,← ih,Overlay.Unique,sameName,name]

theorem indexFromIndexed (indexed : Overlay.Indexed nameOf out index) (unique : Overlay.Unique nameOf (out ++ rest)) :
    Overlay.Indexed nameOf (out ++ rest) (indexFrom out.length index rest) := by
  induction rest generalizing out index with
  | nil => simpa [indexFrom] using indexed
  | cons rule rest ih =>
    rw [indexFrom,List.append_cons]
    have later : Overlay.Unique nameOf (out ++ [rule] ++ rest) := by simpa using unique
    split
    · rename_i named
      have missing : index rule.name = none := by
        cases found : index rule.name with
        | none => rfl
        | some i =>
          obtain ⟨old,seen,under⟩ := (indexed rule.name i).mp found
          have ne := (List.pairwise_append.mp unique).2.2 old (List.mem_of_getElem? seen) rule List.mem_cons_self
          rw [Overlay.same,under,nameOfNamed named] at ne
          simp at ne
      have grown := ih (Overlay.indexedAdd indexed (nameOfNamed named) missing).2 later
      rwa [List.length_append] at grown
    rename_i unnamed
    have grown := ih (Overlay.indexedLoose indexed (nameOfNone.mpr (not_not.mp unnamed))).2 later
    rwa [List.length_append] at grown

section
variable [Letters]

theorem mergeRuleExact (indexed : Overlay.Indexed nameOf m.out m.index) (rule) :
    (mergeRule m rule).out = Overlay.put nameOf m.out (normalizeRule rule) ∧
      Overlay.Indexed nameOf (mergeRule m rule).out (mergeRule m rule).index := by
  unfold mergeRule
  dsimp only
  split
  · rename_i named
    split
    · exact Overlay.indexedSet indexed (nameOfNamed named) ‹_›
    exact Overlay.indexedAdd indexed (nameOfNamed named) ‹_›
  exact Overlay.indexedLoose indexed (nameOfNone.mpr (not_not.mp ‹_›))

theorem mergeRuleFold (indexed : Overlay.Indexed nameOf m.out m.index) (rules) :
    (rules.foldl mergeRule m).out = (cloneRules rules).foldl (Overlay.put nameOf) m.out := by
  induction rules generalizing m with
  | nil => rfl
  | cons rule _ ih =>
    obtain ⟨eq,still⟩ := mergeRuleExact indexed rule
    rw [List.foldl_cons,ih still,eq]
    rfl

theorem mergeLayer (nodup : Distinct base) (overlays) :
    mergeRules base overlays = Overlay.layer nameOf (cloneRules (base ++ overlays.flatten)) := by
  have unique : Overlay.Unique nameOf (cloneRules base) := (distinctUnique _).mpr (cloneDistinct.mpr nodup)
  have indexed : Overlay.Indexed nameOf (cloneRules base) (indexFrom 0 (fun _ => none) (cloneRules base)) := by
    have empty : Overlay.Indexed nameOf [] (fun _ => none) := fun k i => by simp
    simpa using indexFromIndexed empty (by simpa using unique)
  have append : cloneRules (base ++ overlays.flatten) = cloneRules base ++ cloneRules overlays.flatten := List.map_append
  rw [mergeRules,← List.foldl_flatten,mergeRuleFold indexed,append,Overlay.layerAppend,Overlay.layerSelf unique]

theorem mergeDistinct (nodup : Distinct base) (overlays) : Distinct (mergeRules base overlays) := by
  rw [mergeLayer nodup]
  exact (distinctUnique _).mp (Overlay.layerUnique _ _)

theorem mergeNormal (nodup : Distinct base) (overlays) :
    cloneRules (mergeRules base overlays) = mergeRules base overlays := by
  rw [mergeLayer nodup]
  exact (List.map_congr_left fun rule mem => cloneNormal (Overlay.layerMem mem)).trans (List.map_id' _)

theorem cloneAppend (a b) : cloneRules (a ++ b) = cloneRules a ++ cloneRules b := List.map_append

theorem mergeRight (nodup : Distinct a) (also : Distinct b) :
    mergeRules a [mergeRules b [c]] = mergeRules a [b,c] := by
  rw [mergeLayer nodup,mergeLayer nodup,List.flatten_singleton,cloneAppend,mergeNormal also,mergeLayer also,
    Overlay.layerAppend,Overlay.foldLayer,← Overlay.layerAppend,← cloneAppend]
  rfl

theorem mergeLeft (nodup : Distinct a) : mergeRules (mergeRules a [b]) [c] = mergeRules a [b,c] := by
  have unique := (distinctUnique _).mpr (mergeDistinct nodup [b])
  rw [mergeLayer (mergeDistinct nodup [b]),cloneAppend,mergeNormal nodup,Overlay.layerAppend,
    Overlay.layerSelf unique,mergeLayer nodup,← Overlay.layerAppend,← cloneAppend,mergeLayer nodup]
  simp
end

section
variable [Letters] {m next : Manager} {rules : List Rule}

theorem addDistinct {s : Suite} (nodup : Distinct s.rules)
    (added : s.add plugin = .ok grown) : Distinct grown.rules := by
  unfold Suite.add at added
  split at added
  · cases added
    exact nodup
  split at added <;> try contradiction
  split at added <;> try contradiction
  split at added <;> cases added
  exact mergeDistinct nodup _

theorem suiteDistinct {plugins : List (Option Plugin)} {s grown} (nodup : Distinct s.rules)
    (added : plugins.foldlM Suite.add s = .ok grown) : Distinct grown.rules := by
  induction plugins generalizing s with
  | nil =>
    cases added
    exact nodup
  | cons plugin _ ih =>
    rw [List.foldlM_cons] at added
    cases first : s.add plugin with
    | error =>
      rw [first] at added
      cases added
    | ok =>
      rw [first] at added
      exact ih (addDistinct nodup first) added

theorem pluginsDistinct (brought : m.pluginRules = .ok found) : Distinct found := by
  unfold Manager.pluginRules at brought
  split at brought
  · cases brought
    exact List.nodup_nil
  cases made : newSuite m.plugins with
  | error =>
    rw [rulesFromPlugins,made] at brought
    cases brought
  | ok =>
    rw [rulesFromPlugins,made] at brought
    cases brought
    exact cloneDistinct.mpr (@suiteDistinct _ _ {} _ List.nodup_nil made)

theorem savedExact (done : m.saveRules rules saved = (none,next)) :
    ∃ found, m.pluginRules = .ok found ∧ next.plugins = m.plugins ∧
      next.rules.rules = Ranking.stableSort less (cloneRules (mergeRules found [rules])) := by
  unfold Manager.saveRules at done
  split at done <;> try cases done
  split at done <;> try cases done
  split at done <;> try cases done
  rename_i found brought
  refine ⟨found,brought,?_⟩
  dsimp only at done
  split at done <;> try cases done
  rename_i valid
  split at done <;> try cases done
  rw [replaceValidated,valid] at done
  cases done
  exact ⟨rfl,rfl⟩

theorem loadedExact (r : RuleSet) (source list) :
    (r.load (some ⟨source,.ok list⟩)).2.rules = r.rules ∨ validateRules list = none ∧
      (r.load (some ⟨source,.ok list⟩)).2.rules = Ranking.stableSort less (cloneRules list) := by
  unfold RuleSet.load
  dsimp only
  split
  · exact .inl rfl
  exact .inr ⟨‹_›,rfl⟩

theorem providerLoads {p : RuleProvider} (brought : m.pluginRules = .ok found) (wired : p.plugins = m.plugins)
    (eq : cloneRules loaded = cloneRules rules) : ∃ list, p.load (.ok loaded) = .ok list ∧
      (validateRules list = none → cloneRules list = cloneRules (mergeRules found [rules])) := by
  have nodup := pluginsDistinct brought
  have merged : mergeRules found [loaded] = mergeRules found [rules] := by
    rw [mergeLayer nodup,mergeLayer nodup,cloneAppend,cloneAppend]
    simp [eq]
  cases p with
  | plain =>
    refine ⟨loaded,rfl,fun valid => ?_⟩
    have empty : found = [] := by
      rw [Manager.pluginRules,if_pos (show m.plugins = [] from wired.symm)] at brought
      exact (Except.ok.inj brought).symm
    have unique := (distinctUnique _).mpr (validated.mp (cloneValid valid)).2
    rw [mergeNormal nodup,← merged,mergeLayer nodup,empty]
    simpa using (Overlay.layerSelf unique).symm
  | pluginRuleProvider _ plugins =>
    refine ⟨mergeRules found [loaded],?_,fun _ => by rw [merged]⟩
    have brings : rulesFromPlugins plugins = .ok found := by
      rw [show plugins = m.plugins from wired]
      unfold Manager.pluginRules at brought
      split at brought
      · rename_i none
        rw [none,← brought]
        rfl
      exact brought
    rw [RuleProvider.load,brings]
    rfl

theorem reloadKeeps (done : m.saveRules rules saved = (none,next))
    (eq : cloneRules loaded = cloneRules rules) : (next.reload (.ok loaded)).2.rules.rules = next.rules.rules := by
  obtain ⟨found,brought,plugins,active⟩ := savedExact done
  unfold Manager.reload
  split
  · rfl
  rename_i p provider
  obtain ⟨list,loads,equal⟩ := providerLoads brought ((next.wired p provider).trans plugins) eq
  rw [loads]
  rcases loadedExact next.rules p.source list with kept | ⟨valid,replaced⟩
  · exact kept
  rw [active,← equal valid]
  exact replaced
end

/-- The overlay is associative, the last rule of a name stands, and rules saved and loaded again
decide as before. -/
theorem mergeLastWins [Letters] {a b c : List Rule} (distinctA : Distinct a) (distinctB : Distinct b) :
    mergeRules a [mergeRules b [c]] = mergeRules a [b,c] ∧ mergeRules (mergeRules a [b]) [c] = mergeRules a [b,c] ∧
    mergeRules a [b,c] = (Overlay.firsts nameOf (cloneRules (a ++ b ++ c))).map
      (Overlay.final nameOf (cloneRules (a ++ b ++ c))) ∧ Distinct (mergeRules a [b,c]) ∧
    (mergeRules a [b,c]).filter (fun rule => (nameOf rule).isNone) =
      (cloneRules (a ++ b ++ c)).filter (fun rule => (nameOf rule).isNone) ∧
    ∀ (m next : Manager) rules saved loaded req, m.saveRules rules saved = (none,next) →
      cloneRules loaded = cloneRules rules →
      (next.reload (.ok loaded)).2.rules.decide req = next.rules.decide req := by
  have layered : mergeRules a [b,c] = Overlay.layer nameOf (cloneRules (a ++ b ++ c)) := by
    rw [mergeLayer distinctA]
    simp
  refine ⟨mergeRight distinctA distinctB,mergeLeft distinctA,?_,mergeDistinct distinctA _,?_,?_⟩
  · rw [layered,Overlay.layerShape]
  · rw [layered,Overlay.layerLoose]
  · intro m next rules saved loaded req done same
    rw [RuleSet.decide,RuleSet.decide,reloadKeeps done same]

theorem overriddenLastWins :
    let _ := asciiLetters
    let a : List Rule := [{ name := ['x'],priority := 1 }]
    let b : List Rule := [{},{ name := ['y'] }]
    let c : List Rule := [{ name := ['x'],priority := 2 }]
    Distinct a ∧ Distinct b ∧ mergeRules a [mergeRules b [c]] = [{ name := ['x'],priority := 2 },{},{ name := ['y'] }] ∧
    ∃ m next, Manager.newManager [] none [some ⟨['p'],a⟩] (some ⟨"kv",true⟩) = .ok m ∧
      m.saveRules c none = (none,next) ∧ ∀ req, (next.reload (.ok c)).2.rules.decide req = next.rules.decide req := by
  intro letters a b c
  have distinctA : Distinct a := by unfold Distinct; decide +kernel
  have distinctB : Distinct b := by unfold Distinct; decide +kernel
  obtain ⟨right,_,_,_,_,reloads⟩ := @mergeLastWins _ a b c distinctA distinctB
  have merged : mergeRules a [b,c] = [{ name := ['x'],priority := 2 },{},{ name := ['y'] }] := by decide +kernel
  have saves : (Manager.newManager [] none [some ⟨['p'],a⟩] (some ⟨"kv",true⟩)).toOption.any
      (fun m => (m.saveRules c none).1 == none) = true := by decide +kernel
  refine ⟨distinctA,distinctB,right.trans merged,?_⟩
  cases built : Manager.newManager [] none [some ⟨['p'],a⟩] (some ⟨"kv",true⟩) with
  | error =>
    rw [built] at saves
    cases saves
  | ok m =>
    rw [built] at saves
    have done : m.saveRules c none = (none,(m.saveRules c none).2) := Prod.ext (eq_of_beq saves) rfl
    exact ⟨m,_,rfl,done,fun req => reloads m _ c none c req done rfl⟩

end Gofly.Governance
