import Gofly.MuxIssue

/-! An id names at most one stream object on each side. -/
namespace Gofly.MuxBirth
open Transition Weights MuxFrame MuxMessage MuxState MuxTransport MuxSteps MuxObjects MuxIssue Duplex
open Nat (zero_le)

def addressed (t : Transport) : Bool :=
  match seeks t.loop with
  | none => true
  | some (_,.opens) => true
  | some (id,_) => lookupStream t id ≠ none

def born (x : UInt64) (t : Transport) : Nat := openLoop x t.loop + (ids t).count x
def births (x : UInt64) : Ledger Transport Frame :=
  ⟨fun t => weigh (openTask x) t.tasks,born x,opening x,fun _ => 0⟩

theorem addressedExact {id} (asks : seeks t.loop = some (id,job))
    (fits : addressed t = true) (gone : lookupStream t id = none) : job = .opens := by
  unfold addressed at fits
  rw [asks] at fits
  cases job with
  | opens => rfl
  | _ => simp [gone] at fits

theorem createdIDs (id) : ids (createStream c t id) = ids t ++ [id] := by simp [ids,newStream]

theorem bornSame (eq : ids next = ids t) (loop : openLoop x next.loop ≤ openLoop x t.loop) :
    born x next ≤ born x t := by
  simp only [born,eq]
  omega

theorem soughtBorn {id} (h : Sought c t id job next)
    (asks : seeks t.loop = some (id,job)) (fits : addressed t = true) : born x next ≤ born x t := by
  cases h with
  | found | rejected => exact bornSame rfl (zero_le _)
  | created gone =>
    have opens := addressedExact asks fits gone
    subst opens
    have quiet : openLoop x (if t.closed then Loop.found t.objects.length .opens
        else .accepting t.objects.length .opens) = 0 := by split <;> rfl
    have grown := createdIDs (c := c) (t := t) id
    simp only [ids] at grown
    simp only [born,seeksOpens asks,ids,grown,List.count_append,List.count_singleton,beq_iff_eq]
    omega

theorem loopedBorn (h : Looped c t ok next) (fits : addressed t = true) : born x next ≤ born x t := by
  cases h with
  | dispatched here h =>
    cases h with
    | sought asks h => exact soughtBorn h (here ▸ asks) fits
    | windowed => exact bornSame (idsSame (shapesModify t _ fun _ => rfl)) (zero_le _)
    | _ => exact bornSame rfl (zero_le _)
  | relooked here h => exact soughtBorn h (by rw [here]; rfl) fits
  | failed => exact bornSame (by simp [ids]) (zero_le _)
  | unaccepted _ _ obj | forsaken _ obj | aborted _ obj | marked _ obj => exact bornSame (idsSet obj rfl) (zero_le _)
  | abandoned _ obj h => exact bornSame (idsSame (shapesSet obj (deliveredShape h))) (zero_le _)
  | found _ obj h => exact bornSame (idsSame (foundShapes obj h)) (by cases h <;> exact zero_le _)
  | @already _ _ remove => exact bornSame rfl (by cases remove <;> exact zero_le _)
  | @delivered _ _ remove _ _ _ obj h =>
    exact bornSame (idsSame (shapesSet obj (deliveredShape h))) (by cases remove <;> exact zero_le _)
  | _ => exact bornSame rfl (zero_le _)

theorem ranBorn (h : Ran c t ok task next out) : born x next + t.opened.count x ≤ born x t + next.opened.count x := by
  have eq (ids : ids next = ids t) (loop : next.loop = t.loop) (opened : next.opened = t.opened) :
      born x next + t.opened.count x ≤ born x t + next.opened.count x := by
    have := bornSame (x := x) ids (by rw [loop])
    rw [opened]
    omega
  cases h with
  | @registered id u _ h =>
    have loop : u.loop = t.loop := by cases h <;> rfl
    have grown : (ids u).count x ≤ (ids t).count x + [id].count x := by
      cases h with
      | found => omega
      | created => rw [createdIDs,List.count_append]
    simp only [born,ids,loop,spawn,List.count_append] at grown ⊢
    omega
  | @wrote _ after | @unwritten _ after => cases after <;> exact eq rfl rfl rfl
  | credited obj | closedDone obj | failMarked obj | failDone obj => exact eq (idsSet obj rfl) rfl rfl
  | unconnected | unsent => exact eq (idsSame (shapesModify t _ fun _ => rfl)) rfl rfl
  | failedAll => exact eq (by simp [ids]) (by simp) (by simp)
  | failDelivered obj h => exact eq (idsSame (shapesSet obj (deliveredShape h))) rfl rfl
  | _ => exact eq rfl rfl rfl

theorem calledBorn (h : Called c t a next) : born x next ≤ born x t ∧ next.opened = t.opened := by
  have eq := calledIDs h
  cases h with
  | keepaliveFail => exact ⟨bornSame eq (by simp),by simp⟩
  | readFail => exact ⟨bornSame eq (zero_le _),rfl⟩
  | _ => exact ⟨bornSame eq le_rfl,rfl⟩

theorem stepBorn (h : Step c t a next out) (fits : ∀ ok, a = .loop ok → addressed t = true) :
    born x next + t.opened.count x ≤ born x t + next.opened.count x := by
  cases h with
  | called h =>
    obtain ⟨fewer,opened⟩ := calledBorn (x := x) h
    rw [opened]
    omega
  | ran _ h =>
    have worked := ranBorn (x := x) h
    exact worked
  | @looped ok _ h =>
    have fewer := loopedBorn (x := x) h (fits ok rfl)
    rw [(loopedQuiet h).opened]
    omega

theorem stepOpened (h : Step c t a next out) : next.opened = t.opened ∨
      ∃ (index : Nat) (id : UInt64), t.tasks[index]? = some (Task.register id) ∧ next.opened = t.opened ++ [id] := by
  cases h with
  | called h => exact .inl (calledBorn (x := 0) h).2
  | looped h => exact .inl (loopedQuiet h).opened
  | ran ith h =>
    cases h with
    | registered => exact .inr ⟨_,_,ith,rfl⟩
    | @wrote _ after | @unwritten _ after => cases after <;> exact .inl rfl
    | failedAll => exact .inl (by simp)
    | _ => exact .inl rfl

structure Births (l : Link Transport Frame) : Prop where
  issued : ∀ s, Issued s (l.party s)
  born : ∀ s x, (births x).total l s ≤ (l.party s).opened.count x + (l.party s.other).opened.count x

structure Bearing (rule : Rule) : Prop where
  room : ∀ c t, rule.acts c t .openStream = true → t.nextID.toNat + 2 < 2 ^ 64
  addressed : ∀ c t ok, rule.acts c t (.loop ok) = true → addressed t = true

theorem birthsStart (cfg) : Births (connected cfg) := by
  refine ⟨issuedStart cfg,fun s x => ?_⟩
  cases s <;> exact zero_le _

theorem birthsStep (bearing : Bearing rule) (held : Births l) (fits : kept rule cfg l m = true)
    (h : Duplex.step (parties cfg) l m = some after) : Births after := by
  have none : ∀ (x : UInt64) (fs : List Frame), weigh (births x).repays fs = 0 := fun x fs => weighZero fun _ _ => rfl
  refine ⟨issuedStep bearing.room held.issued fits h,fun side x => ?_⟩
  rcases linkCases h fits with ⟨s,a,u,outs,ran,allowed,worked⟩ | ⟨s,f,u,ran,_,took⟩ <;>
    rcases sideCases s side with rfl | rfl
  · have total := totalMover (g := births x) ran
    have old := held.born side x
    have ours := stepOpens (x := x) worked
    simp only [births] at total old ⊢
    rw [ran.mover,ran.bystander]
    omega
  · have total := totalBystander (g := births x) ran
    have old := held.born s.other x
    have ours := stepBorn (x := x) worked fun ok isLoop => bearing.addressed (cfg s) _ ok (isLoop ▸ allowed)
    rw [none] at total
    rw [otherOther] at old ⊢
    rw [ran.bystander,ran.mover]
    simp only [births] at total old ⊢
    omega
  · have total := totalMover (g := births x) ran
    have old := held.born side x
    obtain ⟨_,_,rfl⟩ := takeExact took
    rw [ran.mover,ran.bystander]
    simp only [births,weighNil] at total old ⊢
    omega
  · have total := totalBystander (g := births x) ran
    have old := held.born s.other x
    obtain ⟨here,_,rfl⟩ := takeExact took
    rw [otherOther] at old ⊢
    rw [ran.bystander,ran.mover]
    have loop : openLoop x (if (frameBytes f).length ≤ (cfg s).maxFrame then .got f
        else .failed .frameTooLarge) ≤ opening x f := by
      split
      · exact le_rfl
      exact zero_le _
    simp only [births,born,ids,weighNil,weighCons] at total old loop ⊢
    omega

theorem bornOnce (held : Births l) (s x) :
    weigh (registerTask x) (l.party s).tasks + openLoop x (l.party s).loop + (ids (l.party s)).count x ≤ 1 := by
  have total := held.born s.other x
  have once := openedOnce held.issued s x
  simp only [births,Ledger.total,otherOther,born] at total
  omega

theorem registersNew (held : Births l) {index : Nat} (ith : (l.party s).tasks[index]? = some (.register x)) :
    (l.party s).opened.count x = 0 ∧ (l.party s.other).opened.count x = 0 ∧
      x ∉ ids (l.party s) ∧ x ∉ ids (l.party s.other) := by
  have task := weighMember (w := registerTask x) ith
  have ours := held.born s x
  have peers := held.born s.other x
  have once := openedOnce held.issued s x
  simp only [births,Ledger.total,otherOther,born,registerTask,if_true] at ours peers task
  simp only [← List.count_eq_zero]
  omega

end Gofly.MuxBirth
