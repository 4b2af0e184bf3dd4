import Mathlib.Data.List.Count
import Gofly.Discovery
import Gofly.Roster
import Gofly.Transition
/-! The power-of-two-choices balancer. -/
namespace Gofly.P2C
open Discovery
open Roster Transition

abbrev Str := List Char

-- strings.TrimRight(strings.TrimSpace(endpoint), "/")
def trimmed (endpoint : Str) : Str := (Text.trim isSpace endpoint).rdropWhile (· == '/')

def admitEndpoint (out : List Str) (endpoint : Str) : List Str :=
  if trimmed endpoint = [] ∨ out.contains (trimmed endpoint) then out else out ++ [trimmed endpoint]
def normalizeEndpoints (endpoints : List Str) : List Str := endpoints.foldl admitEndpoint []

inductive Phase where
  | compare (a c : Str)
  | mark (chosen : Str)
  | picked (endpoint : Str)
  | failed (err : String)
  deriving DecidableEq

structure World where
  next : UInt64
  active : Str → Int
  picks : List Phase
  unreported : List Str

inductive Act where
  | pick (ctx : Option String) (endpoints : List Str)
  | compare (i : Nat)
  | mark (i : Nat)
  | report (ctx : Option String) (endpoint : Str)

def start : World := ⟨0,fun _ => 0,[],[]⟩

def choices (idx : UInt64) (candidates : List Str) : Str × Str :=
  let a := candidates.getD (idx.toNat % candidates.length) []
  let bidx := (idx * 1103515245 + 12345).toNat % candidates.length
  let bEndpoint := candidates.getD bidx []
  (a,if bEndpoint = a then candidates.getD ((bidx + 1) % candidates.length) [] else bEndpoint)

def lessLoaded (active : Str → Int) (a c : Str) : Str := if active a ≤ active c then a else c

def markActive (active : Str → Int) (endpoint : Str) (delta : Int) : Str → Int :=
  if endpoint = [] then active
  else
    let count := active endpoint + delta
    Function.update active endpoint (if count ≤ 0 then 0 else count)

namespace World

def pick (w : World) (ctx : Option String) (endpoints : List Str) : World :=
  match ctx with
  | some err => { w with picks := w.picks ++ [.failed err] }
  | none =>
    match normalizeEndpoints endpoints with
    | [] => { w with picks := w.picks ++ [.failed "no endpoint to pick"] }
    | [single] => { w with picks := w.picks ++ [.mark single] }
    | candidates =>
      let (a,c) := choices w.next candidates
      { w with next := w.next + 1,picks := w.picks ++ [.compare a c] }

def compare (w : World) (i : Nat) : Option World :=
  match w.picks[i]? with
  | some (.compare a c) => some { w with picks := w.picks.set i (.mark (lessLoaded w.active a c)) }
  | _ => none

def mark (w : World) (i : Nat) : Option World :=
  match w.picks[i]? with
  | some (.mark chosen) => some { w with
      active := markActive w.active chosen 1
      picks := w.picks.set i (.picked chosen)
      unreported := chosen :: w.unreported }
  | _ => none

def named (w : World) (endpoint : Str) : Str := if w.unreported.contains endpoint then endpoint else trimmed endpoint

def report (w : World) (ctx : Option String) (endpoint : Str) : World :=
  { w with
    active := if ctx.isSome then w.active else markActive w.active (trimmed endpoint) (-1)
    unreported := w.unreported.erase (w.named endpoint) }

end World

def step (w : World) : Act → Option World
  | .pick ctx endpoints => some (w.pick ctx endpoints)
  | .compare i => w.compare i
  | .mark i => w.mark i
  | .report ctx endpoint => some (w.report ctx endpoint)

structure Settled (endpoint : Str) : Prop where
  filled : endpoint ≠ []
  same : trimmed endpoint = endpoint

/-- Reports come while their context lives, and no endpoint is trimmed to a name that would be
trimmed again. -/
def Prompt (_ : World) : Act → Prop
  | .pick _ endpoints => ∀ e ∈ normalizeEndpoints endpoints, trimmed e = e
  | .report ctx _ => ctx = none
  | _ => True

def Phase.endpoints : Phase → List Str
  | .compare a c => [a,c]
  | .mark chosen => [chosen]
  | .picked _ | .failed _ => []

structure Counted (w : World) : Prop where
  counts : ∀ e, w.active e = w.unreported.count e
  reported : ∀ e ∈ w.unreported, Settled e
  picking : ∀ phase ∈ w.picks, ∀ e ∈ phase.endpoints, Settled e

theorem admittedFilled {endpoints : List Str} (full : ∀ e ∈ out, e ≠ []) :
    ∀ e ∈ endpoints.foldl admitEndpoint out, e ≠ [] := by
  induction endpoints generalizing out with
  | nil => exact full
  | cons _ _ ih =>
    refine ih fun e mem => ?_
    unfold admitEndpoint at mem
    split at mem
    · exact full e mem
    rename_i fresh
    rcases addMem mem with old | new
    · exact full e old
    rw [new]
    exact fun empty => fresh (.inl empty)

theorem normalizedFilled (mem : e ∈ normalizeEndpoints endpoints) : e ≠ [] := @admittedFilled [] endpoints nofun e mem

theorem choicesMember {idx candidates} (some : candidates ≠ []) :
    (choices idx candidates).1 ∈ candidates ∧ (choices idx candidates).2 ∈ candidates := by
  have mem : ∀ i, candidates.getD (i % candidates.length) [] ∈ candidates := by
    intro i
    have below := Nat.mod_lt i (List.length_pos_iff.mpr some)
    rw [List.getD_eq_getElem?_getD,List.getElem?_eq_getElem below]
    exact List.getElem_mem below
  refine ⟨mem _,?_⟩
  simp only [choices]
  split
  · exact mem _
  exact mem _

theorem lessLoadedEither (active a c) : lessLoaded active a c = a ∨ lessLoaded active a c = c := by
  unfold lessLoaded
  split
  · exact .inl rfl
  exact .inr rfl

section
variable (counted : Counted w)
include counted

theorem pickCounted (stable : ∀ e ∈ normalizeEndpoints endpoints, trimmed e = e) :
    Counted (w.pick ctx endpoints) := by
  have done : ∀ e ∈ normalizeEndpoints endpoints, Settled e := fun e mem => ⟨normalizedFilled mem,stable e mem⟩
  have added : ∀ phase : Phase, (∀ e ∈ phase.endpoints, Settled e) → ∀ next,
      Counted { w with next,picks := w.picks ++ [phase] } := by
    intro phase fine next
    refine { counted with picking := fun other seen => ?_ }
    rcases addMem seen with old | new
    · exact counted.picking other old
    rw [new]
    exact fine
  unfold World.pick
  split
  · exact added _ (by simp [Phase.endpoints]) w.next
  split
  · exact added _ (by simp [Phase.endpoints]) w.next
  · rename_i only
    refine added _ (fun e mem => done e ?_) w.next
    rw [only]
    exact mem
  rename_i many _
  refine added _ (fun e mem => done e ?_) (w.next + 1)
  obtain ⟨first,second⟩ := @choicesMember w.next _ many
  simp only [Phase.endpoints,List.mem_cons,List.not_mem_nil,or_false] at mem
  rcases mem with rfl | rfl
  · exact first
  exact second

theorem setPicking (fine : ∀ e ∈ phase.endpoints, Settled e) :
    ∀ other ∈ w.picks.set i phase, ∀ e ∈ other.endpoints, Settled e := by
  intro other seen
  rcases List.mem_or_eq_of_mem_set seen with old | rfl
  · exact counted.picking other old
  exact fine

theorem compareCounted (ran : w.compare i = some next) : Counted next := by
  unfold World.compare at ran
  split at ran <;> cases ran
  rename_i a c got
  have both := counted.picking _ (List.mem_of_getElem? got)
  refine { counted with picking := setPicking counted fun e mem => ?_ }
  rw [List.mem_singleton.mp mem]
  rcases lessLoadedEither w.active a c with same | same
  · exact both _ (by simp [Phase.endpoints,same])
  exact both _ (by simp [Phase.endpoints,same])

theorem markCounted (ran : w.mark i = some next) : Counted next := by
  unfold World.mark at ran
  split at ran <;> cases ran
  rename_i chosen got
  have done : Settled chosen := counted.picking _ (List.mem_of_getElem? got) chosen List.mem_cons_self
  refine ⟨fun e => ?_,fun e mem => ?_,setPicking counted nofun⟩
  · simp only [markActive,done.filled,↓reduceIte,counted.counts,Function.update_apply]
    by_cases eq : e = chosen
    · simp [eq]
    simp [eq,Ne.symm eq]
  rcases List.mem_cons.mp mem with rfl | before
  · exact done
  exact counted.reported e before

theorem namedTrimmed (endpoint) : w.named endpoint = trimmed endpoint := by
  unfold World.named
  split
  · exact (counted.reported endpoint (List.contains_iff_mem.mp ‹_›)).same.symm
  rfl

theorem reportCounted : Counted (w.report none endpoint) := by
  refine ⟨fun e => ?_,fun e mem => ?_,counted.picking⟩
  · simp only [World.report,namedTrimmed counted,Option.isSome_none,Bool.false_eq_true,↓reduceIte]
    unfold markActive
    split
    · rename_i empty
      rw [counted.counts,empty,List.erase_of_not_mem fun mem => (counted.reported [] mem).filled rfl]
    rw [Function.update_apply,List.count_erase]
    by_cases eq : e = trimmed endpoint
    · simp only [eq,counted.counts,beq_self_eq_true]
      split <;> omega
    simp [eq,Ne.symm eq,counted.counts]
  exact counted.reported e (List.mem_of_mem_erase mem)
end

theorem stepCounted (w a next) (counted : Counted w) (prompt : Prompt w a)
    (ran : step w a = some next) : Counted next := by
  cases a with
  | pick =>
    cases ran
    exact pickCounted counted prompt
  | compare => exact compareCounted counted ran
  | mark => exact markCounted counted ran
  | report =>
    cases ran
    cases prompt
    exact reportCounted counted

/-- In every run of live reports and settled names an endpoint's count is that of its picks without a report. -/
theorem promptCountsExact {as : List Act} (ran : Trace step Prompt start as w) :
    (∀ e, w.active e = w.unreported.count e ∧ 0 ≤ w.active e) ∧ (w.unreported = [] → ∀ e, w.active e = 0) := by
  have counted : Counted w := traceInvariant stepCounted ran ⟨fun _ => rfl,nofun,nofun⟩
  refine ⟨fun e => ⟨counted.counts e,?_⟩,fun none e => ?_⟩
  · rw [counted.counts]
    omega
  · rw [counted.counts,none]
    rfl

def busy : List Act :=
  [.pick none [['a'],['b','/']],.compare 0,.mark 0,.pick none [['a'],['b']],.compare 1,.mark 1,
    .report none ['a'],.pick none [['a']],.mark 2,.report none [' ','a','/']]

theorem busyTrace : ∃ w, run step start busy = some w ∧ w.unreported = [['b']] ∧ Trace step Prompt start busy w := by
  refine ⟨_,rfl,by decide,?_⟩
  exact .more (by decide : ∀ e ∈ normalizeEndpoints [['a'],['b','/']], trimmed e = e) rfl <| .more trivial rfl <|
    .more trivial rfl <| .more (by decide : ∀ e ∈ normalizeEndpoints [['a'],['b']], trimmed e = e) rfl <|
    .more trivial rfl <| .more trivial rfl <| .more rfl rfl <|
    .more (by decide : ∀ e ∈ normalizeEndpoints [['a']], trimmed e = e) rfl <| .more trivial rfl <| .more rfl rfl <| .done _

theorem busyCountsExact : ∃ w, run step start busy = some w ∧ w.unreported = [['b']] ∧ w.active ['b'] = 1 ∧
    w.active ['a'] = 0 := by
  obtain ⟨w,ran,unreported,trace⟩ := busyTrace
  have exact := (promptCountsExact trace).1
  refine ⟨w,ran,unreported,?_,?_⟩
  · rw [(exact ['b']).1,unreported]
    decide
  rw [(exact ['a']).1,unreported]
  decide

theorem leakedCounts :
    (∃ w, run step start [.pick none [['a']],.mark 0,.report (some "context deadline exceeded") ['a']] = some w ∧
      w.unreported = [] ∧ w.active ['a'] = 1) ∧
    ∃ w, run step start [.pick none [['a',' ','/']],.mark 0,.report none ['a',' ']] = some w ∧
      w.picks = [.picked ['a',' ']] ∧ w.unreported = [] ∧ w.active ['a',' '] = 1 := by
  refine ⟨⟨_,rfl,?_,?_⟩,_,rfl,?_,?_,?_⟩ <;> decide

end Gofly.P2C
