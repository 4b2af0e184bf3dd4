import Gofly.MuxSteps

/-! What stays of a stream object. -/
namespace Gofly.MuxObjects
open Weights MuxFrame MuxMessage MuxState MuxTransport MuxSteps

def ids (t : Transport) : List UInt64 := t.objects.map Stream.id
def shape (s : Stream) : UInt64 × Bool × Bool := (s.id,s.localDone,s.localClosed)
def shapes (t : Transport) : List (UInt64 × Bool × Bool) := t.objects.map shape

def heldRef : Loop → Option Nat
  | .accepting ref _ => some ref
  | .abandoning ref _ => some ref
  | .forsaken ref _ => some ref
  | .found ref _ => some ref
  | .terminal ref _ _ _ => some ref
  | .delivering ref _ _ => some ref
  | _ => none

def Grounded (t : Transport) : Prop := ∀ ref, heldRef t.loop = some ref → ref < (ids t).length

theorem idsShapes (t) : ids t = (shapes t).map Prod.fst := by
  simp only [shapes,List.map_map]
  rfl

theorem idsSet (obj : t.objects[ref]? = some s)
    (eq : u.id = s.id) : ids (setStream t ref u) = ids t := mapSet obj eq

theorem shapesSet (obj : t.objects[ref]? = some s)
    (eq : shape u = shape s) : shapes (setStream t ref u) = shapes t := mapSet obj eq

theorem shapesModify (t ref) (eq : ∀ s, shape (f s) = shape s) : (t.objects.modify ref f).map shape = shapes t := by
  cases obj : t.objects[ref]? with
  | none => rw [modifyAbsent obj]; rfl
  | some s => rw [modifySet obj]; exact mapSet obj (eq s)

theorem deliveredShape (h : Delivered c t s event ok u) : shape u = shape s := by cases h <;> rfl

theorem createdShapes (id) : shapes (createStream c t id) = shapes t ++ [(id,false,false)] := by
  simp [shapes,shape,newStream]

theorem soughtShapes {id} (h : Sought c t id job next) : ∃ more, shapes next = shapes t ++ more := by
  cases h with
  | created => exact ⟨_,createdShapes id⟩
  | _ => exact ⟨[],(List.append_nil _).symm⟩

theorem foundShapes (obj : t.objects[ref]? = some s) (h : Found c t ref s job next) : shapes next = shapes t := by
  cases h with
  | appended | lastTooLong | assembled => exact shapesSet obj rfl
  | _ => rfl

theorem loopedShapes (h : Looped c t ok next) : ∃ more, shapes next = shapes t ++ more := by
  have eq : shapes next = shapes t → ∃ more, shapes next = shapes t ++ more :=
    fun equal => ⟨[],by rw [equal,List.append_nil]⟩
  cases h with
  | dispatched _ h =>
    cases h with
    | sought _ h => exact soughtShapes h
    | windowed => exact eq (shapesModify t _ fun _ => rfl)
    | _ => exact eq rfl
  | relooked _ h => exact soughtShapes h
  | failed => exact eq (by simp [shapes])
  | unaccepted _ _ obj | forsaken _ obj | aborted _ obj | marked _ obj => exact eq (shapesSet obj rfl)
  | abandoned _ obj h | delivered _ obj h => exact eq (shapesSet obj (deliveredShape h))
  | found _ obj h => exact eq (foundShapes obj h)
  | _ => exact eq rfl

theorem registeredShapes {id} (h : Registered c t id next ref) : ∃ more, shapes next = shapes t ++ more := by
  cases h with
  | found => exact ⟨[],(List.append_nil _).symm⟩
  | created => exact ⟨_,createdShapes id⟩

theorem ranShapes (h : Ran c t ok task next out) : ∃ more, shapes next = shapes t ++ more := by
  have eq : shapes next = shapes t → ∃ more, shapes next = shapes t ++ more :=
    fun equal => ⟨[],by rw [equal,List.append_nil]⟩
  cases h with
  | registered h =>
    obtain ⟨more,grown⟩ := registeredShapes h
    exact ⟨more,grown⟩
  | @wrote _ after | @unwritten _ after => cases after <;> exact eq rfl
  | credited obj | closedDone obj | failMarked obj | failDone obj => exact eq (shapesSet obj rfl)
  | unconnected | unsent => exact eq (shapesModify t _ fun _ => rfl)
  | failedAll => exact eq (by simp [shapes])
  | failDelivered obj h => exact eq (shapesSet obj (deliveredShape h))
  | _ => exact eq rfl

theorem calledShapes (h : Called c t a next)
    (stays : (∀ ref reason, a ≠ .closeSend ref reason) ∧ ∀ ref code reason, a ≠ .closeWithCode ref code reason) :
    shapes next = shapes t := by
  cases h with
  | received obj | receivedDone obj => exact shapesSet obj rfl
  | closeSend => exact absurd rfl (stays.1 _ _)
  | closeWithCode => exact absurd rfl (stays.2 _ _ _)
  | keepaliveFail => simp [shapes]
  | _ => rfl

theorem idsGrow (grown : ∃ more, shapes next = shapes t ++ more) : ∃ more, ids next = ids t ++ more := by
  obtain ⟨more,grown⟩ := grown
  exact ⟨more.map Prod.fst,by rw [idsShapes,grown,List.map_append,← idsShapes]⟩

theorem idsSame (eq : shapes next = shapes t) : ids next = ids t := by rw [idsShapes,eq,← idsShapes]

theorem calledIDs (h : Called c t a next) : ids next = ids t := by
  by_cases stays : (∀ ref reason, a ≠ .closeSend ref reason) ∧ ∀ ref code reason, a ≠ .closeWithCode ref code reason
  · exact idsSame (calledShapes h stays)
  cases h with
  | closeSend obj | closeWithCode obj => exact idsSet obj rfl
  | _ => exact absurd ⟨fun _ _ => nofun,fun _ _ _ => nofun⟩ stays

theorem lookedUp {id} (known : lookupStream t id = some ref) : ∃ s, t.objects[ref]? = some s ∧ s.id = id := by
  have held := List.find?_some known
  simp only [holdsID,decide_eq_true_eq,Option.map_eq_some_iff] at held
  exact held

theorem lookedName {id} (known : lookupStream t id = some ref) : (ids t)[ref]? = some id := by
  obtain ⟨s,obj,rfl⟩ := lookedUp known
  simp [ids,obj]

theorem groundedKept (grounded : Grounded t) (grown : ∃ more, shapes next = shapes t ++ more)
    (hand : ∀ ref, heldRef next.loop = some ref → heldRef t.loop = some ref) : Grounded next := by
  obtain ⟨more,grown⟩ := idsGrow grown
  intro ref here
  have bound := grounded ref (hand ref here)
  rw [grown,List.length_append]
  omega

theorem groundedIdle (free : heldRef next.loop = none) : Grounded next := by
  intro ref here
  simp [free] at here

theorem groundedObject (obj : t.objects[ref]? = some s)
    (grown : ∃ more, shapes next = shapes t ++ more) (hand : heldRef next.loop = some ref) : Grounded next := by
  obtain ⟨more,grown⟩ := idsGrow grown
  intro other here
  have bound := (List.getElem_of_getElem? obj).1
  cases Option.mem_unique hand here
  rw [grown,List.length_append]
  simp only [ids,List.length_map]
  omega

theorem soughtGrounded {id} (h : Sought c t id job next) : Grounded next := by
  have grown := soughtShapes h
  cases h with
  | found known =>
    obtain ⟨s,obj,_⟩ := lookedUp known
    exact groundedObject obj grown rfl
  | rejected => exact groundedIdle rfl
  | created =>
    intro ref here
    have last : ref = t.objects.length := by split at here <;> simp [heldRef] at here <;> exact here.symm
    simp [last,ids]

theorem loopedGrounded (h : Looped c t ok next) (grounded : Grounded t) : Grounded next := by
  have grown := loopedShapes h
  cases h with
  | dispatched _ h =>
    cases h with
    | sought _ h => exact soughtGrounded h
    | terminated _ known | finished _ known =>
      obtain ⟨s,obj,_⟩ := lookedUp known
      exact groundedObject obj grown rfl
    | _ => exact groundedIdle rfl
  | relooked _ h => exact soughtGrounded h
  | accepted here => exact groundedKept grounded grown (by simp [heldRef,here])
  | unaccepted here gone obj untold | unacceptedTold here gone obj told | abandoned here obj h
  | forsaken _ obj | aborted _ obj | marked _ obj => exact groundedObject obj grown rfl
  | found _ obj h =>
    cases h with
    | decoded => exact groundedObject obj grown rfl
    | _ => exact groundedIdle rfl
  | @already _ _ remove | @delivered _ _ remove => exact groundedIdle (by cases remove <;> rfl)
  | _ => exact groundedIdle rfl

theorem stepGrounded (h : Step c t a next out) (grounded : Grounded t) : Grounded next := by
  have loopKept (eq : ids next = ids t) (loop : next.loop = t.loop) : Grounded next := by
    intro ref here
    rw [loop] at here
    rw [eq]
    exact grounded ref here
  cases h with
  | called h =>
    have eq := calledIDs h
    cases h with
    | readFail => exact groundedIdle rfl
    | keepaliveFail => exact loopKept eq (by simp)
    | _ => exact loopKept eq rfl
  | looped h => exact loopedGrounded h grounded
  | ran _ h =>
    have loop := ranLoop h
    obtain ⟨more,grown⟩ := ranShapes h
    exact groundedKept grounded ⟨more,grown⟩ (fun ref here => by rw [loop] at here; exact here)

theorem takenGrounded (took : takeFrame c t f = some next) : Grounded next := by
  obtain ⟨_,_,rfl⟩ := takeExact took
  refine groundedIdle ?_
  split <;> rfl

end Gofly.MuxObjects
