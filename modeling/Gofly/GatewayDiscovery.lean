import Mathlib.Algebra.Order.Ring.Nat
import Gofly.GatewayRoute
import Gofly.Transition
/-! What a gateway makes of discovered instances: the weighted list of endpoints, and the last
known answer that stands in for a failing resolver. -/
namespace Gofly.Gateway
open Governance
open Transition

structure ServiceInstance where
  endpoint : Str
  weight : Int
  tags : StringMap
  deriving DecidableEq

def targetOf (target : Str) : Str := trimRight (trimSpace target)
def normalizeTargets (targets : List Str) : List Str := (targets.map targetOf).filter (· ≠ [])
def matchTags (tags want : StringMap) : Bool := want.entries.all fun entry => tags.get entry.1 = entry.2

section
variable (tags : StringMap)

def expands (i : ServiceInstance) : Bool := targetOf i.endpoint ≠ [] && matchTags i.tags tags
def weightOf (i : ServiceInstance) : Nat := if i.weight ≤ 0 then 1 else i.weight.toNat

def appendCopies (limit : Nat) (endpoint : Str) : Nat → List Str → List Str
  | 0,out => out
  | n + 1,out => if out.length < limit then appendCopies limit endpoint n (out ++ [endpoint]) else out

def expandLoop (limit : Nat) : List ServiceInstance → List Str → List Str
  | [],out => out
  | i :: rest,out =>
    if expands tags i then expandLoop limit rest (appendCopies limit (targetOf i.endpoint) (weightOf i) out)
    else expandLoop limit rest out

def expandInstances (instances : List ServiceInstance) (limit : Int) : List Str :=
  expandLoop tags (if limit ≤ 0 then 1000 else limit.toNat) instances []
def copies (i : ServiceInstance) : List Str := List.replicate (weightOf i) (targetOf i.endpoint)

theorem appendedCopies (limit endpoint n out) (fits : out.length ≤ limit) :
    appendCopies limit endpoint n out = (out ++ List.replicate n endpoint).take limit := by
  induction n generalizing out with
  | zero => simp [appendCopies,List.take_of_length_le fits]
  | succ _ ih =>
    unfold appendCopies
    split
    · rw [ih _ (by simp; omega),List.append_assoc]
      rfl
    rw [List.take_append_of_le_length (by omega),List.take_of_length_le fits]

theorem expandedLoop (limit instances out) (fits : out.length ≤ limit) :
    expandLoop tags limit instances out = (out ++ (instances.filter (expands tags)).flatMap copies).take limit := by
  induction instances generalizing out with
  | nil => simp [expandLoop,List.take_of_length_le fits]
  | cons _ _ ih =>
    unfold expandLoop
    split
    · rename_i taken
      rw [appendedCopies _ _ _ _ fits,ih _ (List.length_take_le _ _),List.filter_cons_of_pos taken,List.flatMap_cons,
        ← List.append_assoc]
      -- what the limit cuts off one instance, it cuts off before all later ones
      rw [List.take_append,List.take_take,Nat.min_self,@List.take_append _ (out ++ _),List.length_take]
      congr 2
      simp only [copies]
      omega
    rename_i skipped
    rw [ih _ fits,List.filter_cons_of_neg skipped]

theorem weightPositive (i) : 0 < weightOf i := by
  unfold weightOf
  split <;> omega

theorem reachedCopy : e ∈ (l.flatMap copies).take limit ↔
      ∃ old i after, l = old ++ i :: after ∧ targetOf i.endpoint = e ∧ (old.map weightOf).sum < limit := by
  induction l generalizing limit with
  | nil => simp
  | cons i rest ih =>
    have pos := weightPositive i
    rw [List.flatMap_cons,List.take_append,List.mem_append,ih]
    have first : e ∈ (copies i).take limit ↔ 0 < limit ∧ targetOf i.endpoint = e := by
      rw [copies,List.take_replicate,List.mem_replicate]
      constructor
      · rintro ⟨some,rfl⟩
        exact ⟨by omega,rfl⟩
      rintro ⟨some,rfl⟩
      exact ⟨by omega,rfl⟩
    rw [first]
    constructor
    · rintro (⟨room,eq⟩ | ⟨old,j,after,rfl,eq,room⟩)
      · exact ⟨[],i,rest,rfl,eq,room⟩
      · refine ⟨i :: old,j,after,rfl,eq,?_⟩
        simp only [copies,List.length_replicate,List.map_cons,List.sum_cons] at room ⊢
        omega
    rintro ⟨old,j,after,parts,eq,room⟩
    cases old with
    | nil =>
      cases List.cons.inj parts |>.1
      exact .inl ⟨by simpa using room,eq⟩
    | cons _ old =>
      obtain ⟨rfl,rfl⟩ := List.cons.inj parts
      refine .inr ⟨old,j,after,rfl,eq,?_⟩
      simp only [copies,List.length_replicate,List.map_cons,List.sum_cons] at room ⊢
      omega

theorem copiesCounted (e) (l : List ServiceInstance) :
    (l.flatMap copies).count e = ((l.filter (targetOf ·.endpoint = e)).map weightOf).sum := by
  induction l with
  | nil => rfl
  | cons i _ ih =>
    rw [List.flatMap_cons,List.count_append,ih,copies,List.count_replicate]
    by_cases eq : targetOf i.endpoint = e <;> simp [eq]

theorem expandedTake (instances) {limit : Int} (enough : (instances.filter (expands tags)).length ≤ limit) :
    expandInstances tags instances limit = ((instances.filter (expands tags)).flatMap copies).take limit.toNat := by
  rw [expandInstances,expandedLoop _ _ _ _ (Nat.zero_le _)]
  split
  · have none : instances.filter (expands tags) = [] := List.eq_nil_of_length_eq_zero (by omega)
    rw [none]
    simp
  rfl

/-- Under a limit with room for the matching instances, an endpoint is returned exactly if the
weights in front of it leave room. -/
theorem expandedWithin (instances : List ServiceInstance) (limit : Int)
    (enough : (instances.filter (expands tags)).length ≤ limit) : (∀ i ∈ instances.filter (expands tags),
      (targetOf i.endpoint ∈ expandInstances tags instances limit ↔
        ∃ before j after, instances.filter (expands tags) = before ++ j :: after ∧
          targetOf j.endpoint = targetOf i.endpoint ∧ (before.map weightOf).sum < limit.toNat) ∧
      (expandInstances tags instances limit).count (targetOf i.endpoint) ≤
        (((instances.filter (expands tags)).filter (targetOf ·.endpoint = targetOf i.endpoint)).map weightOf).sum) ∧
      (expandInstances tags instances limit).length ≤ limit := by
  rw [expandedTake tags instances enough]
  refine ⟨fun i _ => ⟨reachedCopy,?_⟩,?_⟩
  · rw [← copiesCounted]
    exact (List.take_sublist _ _).count_le _
  · have short := List.length_take_le limit.toNat ((instances.filter (expands tags)).flatMap copies)
    omega

def weighted (endpoint : Str) (weight : Int) : ServiceInstance := ⟨endpoint,weight,∅⟩

theorem heavyFirstStarves : expandInstances ∅ [weighted ['a'] 2,weighted ['b'] 1] 2 = [['a'],['a']] := by decide

theorem lightFirstExpands : ((['b'] ∈ expandInstances ∅ [weighted ['a'] 1,weighted ['b'] 2] 2 ↔
      ∃ before j after, [weighted ['a'] 1,weighted ['b'] 2].filter (expands ∅) = before ++ j :: after ∧
        targetOf j.endpoint = ['b'] ∧ (before.map weightOf).sum < (2 : Int).toNat) ∧
      (expandInstances ∅ [weighted ['a'] 1,weighted ['b'] 2] 2).count ['b'] ≤ 2) ∧
    (expandInstances ∅ [weighted ['a'] 1,weighted ['b'] 2] 2).length ≤ (2 : Int) := by
  have all := expandedWithin ∅ [weighted ['a'] 1,weighted ['b'] 2] 2 (by decide)
  exact ⟨all.1 (weighted ['b'] 2) (by decide),all.2⟩
end

section
variable {ε : Type}

structure Failover where
  endpoints : List Str
  instances : List ServiceInstance

/-- What the underlying resolver answers to one call; `instances` is `none` if it is no
InstanceResolver. -/
structure Source (ε : Type) where
  endpoints : Except ε (List Str)
  instances : Option (Except ε (List ServiceInstance))

inductive LookupErr (ε : Type) where
  | context
  | source (err : ε)
  | noEndpoints
  | noInstances

structure Call (ε : Type) where
  live : Bool
  wantInstances : Bool
  source : Source ε

def normalizeGatewayFailoverInstances (instances : List ServiceInstance) : List ServiceInstance :=
  (instances.map fun i => { i with endpoint := targetOf i.endpoint }).filter (·.endpoint ≠ [])

def endpointsFromServiceInstances (instances : List ServiceInstance) : List Str :=
  normalizeTargets (instances.map (·.endpoint))

def serviceInstancesFromEndpoints (endpoints : List Str) : List ServiceInstance :=
  (normalizeTargets endpoints).map fun endpoint => ⟨endpoint,0,∅⟩

def Failover.set (_ : Failover) (endpoints : List Str) (instances : List ServiceInstance) : Failover :=
  ⟨normalizeTargets endpoints,instances⟩

def Failover.fallbackState (r : Failover) : Failover :=
  if r.endpoints = [] ∧ r.instances ≠ [] then { r with endpoints := endpointsFromServiceInstances r.instances } else r

def Failover.resolve (r : Failover) (source : Source ε) : Failover × Except (LookupErr ε) (List Str) :=
  let fallback (err : LookupErr ε) :=
    (r.fallbackState,if r.fallbackState.endpoints ≠ [] then .ok r.fallbackState.endpoints else .error err)
  match source.endpoints with
  | .error err => fallback (.source err)
  | .ok endpoints =>
    if normalizeTargets endpoints ≠ [] then (r.set (normalizeTargets endpoints) [],.ok (normalizeTargets endpoints))
    else fallback .noEndpoints

def Failover.resolveInstances (r : Failover) (source : Source ε) :
    Failover × Except (LookupErr ε) (List ServiceInstance) :=
  let fallback (err : LookupErr ε) :=
    (r.fallbackState,
      if r.fallbackState.endpoints ≠ [] ∧ r.instances ≠ [] then .ok r.instances else .error err)
  match source.instances with
  | none => ((r.resolve source).1,(r.resolve source).2.map serviceInstancesFromEndpoints)
  | some (.error err) => fallback (.source err)
  | some (.ok instances) =>
    let instances := normalizeGatewayFailoverInstances instances
    if instances ≠ [] then (r.set (endpointsFromServiceInstances instances) instances,.ok instances)
    else fallback .noInstances

def Failover.answer (r : Failover) (call : Call ε) : Failover × Except (LookupErr ε) (List Str) :=
  if !call.live then (r,.error .context)
  else if call.wantInstances then
    ((r.resolveInstances call.source).1,(r.resolveInstances call.source).2.map (·.map (·.endpoint)))
  else r.resolve call.source

structure Served where
  resolver : Failover
  last : List Str

def Served.start : Served := ⟨⟨[],[]⟩,[]⟩

def Served.step (w : Served) (call : Call ε) : Option Served :=
  some ⟨(w.resolver.answer call).1,
    match (w.resolver.answer call).2 with
    | .ok endpoints => if endpoints = [] then w.last else endpoints
    | .error _ => w.last⟩

def Call.fresh (call : Call ε) : List Str :=
  match call.wantInstances, call.source.instances with
  | true,some (.ok instances) => (normalizeGatewayFailoverInstances instances).map (·.endpoint)
  | true,some (.error _) => []
  | _,_ =>
    match call.source.endpoints with
    | .ok endpoints => normalizeTargets endpoints
    | .error _ => []

/-- Normalising a fresh endpoint again leaves it, and stale instances are looked up only where the
last answer was one of instances. -/
def Served.steady (w : Served) (call : Call ε) : Bool :=
  call.fresh.all (fun endpoint => targetOf endpoint = endpoint) &&
    (!(call.wantInstances && call.source.instances.isSome) || call.fresh ≠ [] || w.resolver.endpoints = [] ||
      w.resolver.instances ≠ [])

structure Cached (w : Served) : Prop where
  endpoints : w.resolver.endpoints = w.last
  settled : normalizeTargets w.last = w.last
  instances : w.resolver.instances = [] ∨ w.resolver.instances.map (·.endpoint) = w.last

theorem normalizedSelf (full : ∀ e ∈ endpoints, e ≠ [])
    (settled : ∀ e ∈ endpoints, targetOf e = e) : normalizeTargets endpoints = endpoints := by
  have eq : endpoints.map targetOf = endpoints := by
    conv_rhs => rw [← List.map_id endpoints]
    exact List.map_congr_left settled
  rw [normalizeTargets,eq,List.filter_eq_self]
  exact fun e mem => decide_eq_true (full e mem)

theorem targetsFilled : ∀ e ∈ normalizeTargets targets, e ≠ [] := fun _ mem =>
  of_decide_eq_true (List.mem_filter.mp mem).2

theorem instancesFilled : ∀ e ∈ (normalizeGatewayFailoverInstances instances).map (·.endpoint), e ≠ [] := by
  intro e mem
  obtain ⟨i,inside,rfl⟩ := List.mem_map.mp mem
  exact of_decide_eq_true (List.mem_filter.mp inside).2

inductive Answered (w : Served) (fresh : List Str) : Failover × Except (LookupErr ε) (List Str) → Prop where
  | fresh (instances : List ServiceInstance) (some : fresh ≠ []) (settled : normalizeTargets fresh = fresh)
      (named : instances = [] ∨ instances.map (·.endpoint) = fresh) : Answered w fresh (⟨fresh,instances⟩,.ok fresh)
  | last (gone : fresh = []) (some : w.last ≠ []) : Answered w fresh (w.resolver,.ok w.last)
  | failed (gone : fresh = []) (never : w.last = []) (err : LookupErr ε) : Answered w fresh (w.resolver,.error err)

section
variable (cached : Cached w)
include cached

theorem fallbackSame : w.resolver.fallbackState = w.resolver := by
  refine if_neg fun ⟨gone,full⟩ => ?_
  rcases cached.instances with none | named
  · exact full none
  rw [← cached.endpoints,gone] at named
  exact full (List.map_eq_nil_iff.mp named)

theorem resolveAnswers {call : Call ε} (endpoints : call.wantInstances = false ∨ call.source.instances = none)
    (settled : ∀ e ∈ call.fresh, targetOf e = e) : Answered w call.fresh (w.resolver.resolve call.source) := by
  have fallback : call.fresh = [] → ∀ err : LookupErr ε, Answered w call.fresh (w.resolver.fallbackState,
        if w.resolver.fallbackState.endpoints ≠ [] then .ok w.resolver.fallbackState.endpoints else .error err) := by
    intro gone err
    rw [fallbackSame cached,cached.endpoints]
    split
    · exact .last gone ‹_›
    exact .failed gone (not_not.mp ‹_›) err
  have fresh : call.fresh = match call.source.endpoints with
      | .ok endpoints => normalizeTargets endpoints
      | .error _ => [] := by
    rcases endpoints with plain | none
    · simp [Call.fresh,plain]
    simp [Call.fresh,none]
  unfold Failover.resolve
  cases answer : call.source.endpoints with
  | error =>
    rw [answer] at fresh
    exact fallback fresh _
  | ok =>
    rw [answer] at fresh
    dsimp only at fresh ⊢
    split
    · rename_i some
      rw [← fresh] at some ⊢
      have eq := normalizedSelf (fresh ▸ targetsFilled) settled
      rw [Failover.set,eq]
      exact .fresh [] some eq (.inl rfl)
    rename_i none
    exact fallback (by rw [fresh,not_not.mp none]) _

theorem instancesAnswer {call : Call ε} (wanted : call.wantInstances = true)
    (source : call.source.instances = some got) (settled : ∀ e ∈ call.fresh, targetOf e = e)
    (kept : call.fresh = [] → w.resolver.endpoints = [] ∨ w.resolver.instances ≠ []) :
    Answered w call.fresh ((w.resolver.resolveInstances call.source).1,
      (w.resolver.resolveInstances call.source).2.map (·.map (·.endpoint))) := by
  have fallback : call.fresh = [] → ∀ err : LookupErr ε, Answered w call.fresh (w.resolver.fallbackState,
        (if w.resolver.fallbackState.endpoints ≠ [] ∧ w.resolver.instances ≠ [] then .ok w.resolver.instances
          else .error err : Except (LookupErr ε) (List ServiceInstance)).map (·.map (·.endpoint))) := by
    intro gone err
    rw [fallbackSame cached]
    split
    · rename_i held
      rw [Except.map,cached.instances.resolve_left held.2]
      exact .last gone (cached.endpoints ▸ held.1)
    rename_i lost
    refine .failed gone ?_ err
    rw [← cached.endpoints]
    rcases kept gone with none | some
    · exact none
    exact not_not.mp fun full => lost ⟨full,some⟩
  unfold Failover.resolveInstances
  rw [source]
  cases got with
  | error => exact fallback (by simp [Call.fresh,wanted,source]) _
  | ok instances =>
    have fresh : call.fresh = (normalizeGatewayFailoverInstances instances).map (·.endpoint) := by
      simp [Call.fresh,wanted,source]
    dsimp only
    split
    · have eq := normalizedSelf (fresh ▸ instancesFilled) settled
      rw [Failover.set,endpointsFromServiceInstances,← fresh,eq,eq]
      rw [Except.map,← fresh]
      exact .fresh _ (by rwa [fresh,Ne,List.map_eq_nil_iff]) eq (.inr fresh.symm)
    rename_i none
    exact fallback (by rw [fresh,not_not.mp none]; rfl) _

theorem answered (live : call.live = true) (steady : w.steady call = true) :
    Answered w call.fresh (w.resolver.answer call) := by
  simp only [Served.steady,Bool.and_eq_true,List.all_eq_true,decide_eq_true_eq] at steady
  obtain ⟨settled,kept⟩ := steady
  unfold Failover.answer
  rw [live]
  cases wanted : call.wantInstances with
  | false => exact resolveAnswers cached (.inl wanted) settled
  | true =>
    cases source : call.source.instances with
    | some =>
      refine instancesAnswer cached wanted source settled fun gone => ?_
      simpa [wanted,source,gone] using kept
    | none =>
      have plain := resolveAnswers cached (.inr source) settled
      have twice : ∀ endpoints : List Str, normalizeTargets endpoints = endpoints →
          (serviceInstancesFromEndpoints endpoints).map (·.endpoint) = endpoints := by
        intro endpoints eq
        rw [serviceInstancesFromEndpoints,eq,List.map_map]
        exact List.map_id endpoints
      simp only [Failover.resolveInstances,source,Bool.not_true,Bool.false_eq_true,if_false]
      generalize w.resolver.resolve call.source = result at plain
      cases plain with
      | fresh instances some eq named =>
        simp only [Except.map,twice _ eq]
        exact .fresh instances some eq named
      | last gone some =>
        simp only [Except.map,twice _ cached.settled]
        exact .last gone some
      | failed gone never err => exact .failed gone never err

theorem cachedKept (steady : w.steady call = true) (ran : w.step call = some next) : Cached next := by
  cases ran
  cases live : call.live with
  | false => simpa [Failover.answer,live] using cached
  | true =>
    have all := answered cached live steady
    generalize w.resolver.answer call = result at all
    cases all with
    | fresh _ some settled named =>
      simp only [if_neg some]
      exact ⟨rfl,settled,named⟩
    | last =>
      simp only [ite_self]
      exact cached
    | failed => exact cached
end

/-- Once a call has been answered, every call with a live context is. -/
theorem failoverServes {calls : List (Call ε)} {w : Served}
    (h : Trace Served.step (fun w call => w.steady call = true) .start calls w) (served : w.last ≠ [])
    (call : Call ε) (live : call.live = true) (steady : w.steady call = true) :
    (w.resolver.answer call).2 = .ok (if call.fresh = [] then w.last else call.fresh) := by
  have cached : Cached w :=
    traceInvariant (fun _ _ _ cached fits moved => cachedKept cached fits moved) h ⟨rfl,rfl,.inl rfl⟩
  have all := answered cached live steady
  generalize w.resolver.answer call = result at all
  cases all with
  | fresh _ some => rw [if_neg some]
  | last gone => rw [if_pos gone]
  | failed _ never => exact absurd never served

def endpointsCall (endpoints : List Str) : Call Unit := ⟨true,false,⟨.ok endpoints,some (.error ())⟩⟩
def instancesCall (answer : Except Unit (List ServiceInstance)) : Call Unit := ⟨true,true,⟨.ok [],some answer⟩⟩

theorem instancesLost : ∃ w, run Served.step .start [endpointsCall [['a']]] = some w ∧ w.last = [['a']] ∧
    (w.resolver.answer (instancesCall (.error ()))).2 = .error (.source ()) := ⟨_,rfl,rfl,rfl⟩

theorem instancesServed : ∃ w, Trace Served.step (fun w call => w.steady call = true) .start
    [instancesCall (.ok [weighted ['a'] 0])] w ∧ (w.resolver.answer (instancesCall (.error ()))).2 = .ok [['a']] := by
  have trace : Trace Served.step (fun w (call : Call Unit) => w.steady call = true) .start
      [instancesCall (.ok [weighted ['a'] 0])] ⟨⟨[['a']],[weighted ['a'] 0]⟩,[['a']]⟩ :=
    .more (by decide) rfl (.done _)
  exact ⟨_,trace,failoverServes trace (by simp) _ rfl (by decide)⟩
end
end Gofly.Gateway
