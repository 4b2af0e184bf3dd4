import Gofly.MuxBirth
import Gofly.MuxSender

/-! What a stream makes of the frames that its side has read. -/
namespace Gofly.MuxReceiver
open ByteReader MuxFrame MuxMessage MuxState MuxTransport MuxSteps MuxObjects MuxIssue MuxBirth MuxSender Duplex Weights
open BinaryFrame

def dataOf (event : Event) : Option (Bytes × Message) :=
  match event.body with
  | .ok msg => some (event.raw,msg)
  | .error _ => none

def handedOver (s : Stream) : List (Bytes × Message) := (s.returned ++ s.recv).filterMap dataOf
def content (s : Stream) : UInt64 × Bytes × List (Bytes × Message) := (s.id,s.assembly.fragments,handedOver s)

def inFront (ref : Nat) : Loop → Job
  | .accepting r job => if r = ref then job else .opens
  | .abandoning r job => if r = ref then job else .opens
  | .forsaken r job => if r = ref then job else .opens
  | .found r job => if r = ref then job else .opens
  | .delivering r event _ =>
    match dataOf event with
    | some (raw,_) => if r = ref then .whole raw 0 0 else .opens
    | none => .opens
  | _ => .opens

def comes : Loop → Option (Bytes × Message)
  | .delivering _ event _ => dataOf event
  | _ => none

def base (s : Stream) : Bytes × List Bytes := (s.assembly.fragments,(handedOver s).map Prod.fst)
def view (ref : Nat) (l : Loop) (s : Stream) : Bytes × List Bytes :=
  join (join (base s) (inFront ref l)) (asked s.id l)

def alive : Loop → Bool
  | .failed _ => false
  | .stopped => false
  | _ => true

structure Heard (heard : Bytes × List Bytes) (t : Transport) (ref : Nat) (s : Stream) : Prop where
  order : (view ref t.loop s).2.Sublist heard.2
  held : alive t.loop = true → (view ref t.loop s).1 = heard.1
  all : alive t.loop = true → s.done = false → t.done = false → (view ref t.loop s).2 = heard.2

structure Reads (heard : UInt64 → Bytes × List Bytes) (t : Transport) : Prop where
  known : ∀ ref s, t.objects[ref]? = some s → Heard (heard s.id) t ref s
  unknown : ∀ x, x ∉ ids t → alive t.loop = true → heard x = join ([],[]) (asked x t.loop)

structure Decodes (c : Config) (t : Transport) : Prop where
  handed : ∀ (ref : Nat) s, t.objects[ref]? = some s → ∀ raw msg, (raw,msg) ∈ handedOver s →
    dispatchDataPayload c raw = .ok msg
  coming : ∀ raw msg, comes t.loop = some (raw,msg) → dispatchDataPayload c raw = .ok msg

structure Carries (t next : Transport) (ref : Nat) (s u : Stream) : Prop where
  named : u.id = s.id
  order : (view ref next.loop u).2.Sublist (view ref t.loop s).2
  held : alive next.loop = true → (view ref next.loop u).1 = (view ref t.loop s).1
  all : alive next.loop = true → u.done = false → next.done = false →
    s.done = false ∧ t.done = false ∧ (view ref next.loop u).2 = (view ref t.loop s).2
  handed : ∀ raw msg, (raw,msg) ∈ handedOver u → (raw,msg) ∈ handedOver s ∨ comes t.loop = some (raw,msg)

structure Born (t next : Transport) (ref : Nat) (u : Stream) : Prop where
  unknown : u.id ∉ ids t
  viewed : view ref next.loop u = join ([],[]) (asked u.id t.loop)
  empty : handedOver u = []

structure Hears (c : Config) (t next : Transport) : Prop where
  live : alive next.loop = true → alive t.loop = true
  grown : ∃ more, ids next = ids t ++ more
  known : ∀ ref u, next.objects[ref]? = some u →
    (∃ s, t.objects[ref]? = some s ∧ Carries t next ref s u) ∨ Born t next ref u
  unknown : ∀ x, x ∉ ids next → alive next.loop = true → asked x next.loop = asked x t.loop
  coming : ∀ raw msg, comes next.loop = some (raw,msg) →
    comes t.loop = some (raw,msg) ∨ dispatchDataPayload c raw = .ok msg

variable {t next : Transport}
theorem deadAsked (x) (dead : alive l = false) : asked x l = .opens := by cases l <;> first | rfl | cases dead

theorem unknownBefore (grown : ∃ more, ids next = ids t ++ more) (gone : x ∉ ids next) : x ∉ ids t := by
  obtain ⟨more,grown⟩ := grown
  intro mem
  exact gone (grown ▸ List.mem_append_left _ mem)

theorem hearsReads (h : Hears c t next) (reads : Reads heard t) : Reads heard next := by
  refine ⟨fun ref u obj => ?_,fun x gone live => ?_⟩
  · rcases h.known ref u obj with ⟨s,old,carries⟩ | born
    · have known := reads.known ref s old
      rw [carries.named]
      refine ⟨carries.order.trans known.order,fun live => ?_,fun live undone open' => ?_⟩
      · rw [carries.held live,known.held (h.live live)]
      obtain ⟨was,wasOpen,eq⟩ := carries.all live undone open'
      rw [eq,known.all (h.live live) was wasOpen]
    · cases live : alive t.loop with
      | true =>
        have said := (reads.unknown u.id born.unknown live).symm
        rw [← born.viewed] at said
        exact ⟨by rw [said],fun _ => by rw [said],fun _ _ _ => by rw [said]⟩
      | false =>
        have viewed := born.viewed
        rw [deadAsked u.id live] at viewed
        refine ⟨by simp [viewed,join],fun now => ?_,fun now => ?_⟩ <;> simp [h.live now] at live
  rw [h.unknown x gone live]
  exact reads.unknown x (unknownBefore h.grown gone) (h.live live)

theorem hearsDecodes (h : Hears c t next) (decodes : Decodes c t) : Decodes c next := by
  refine ⟨fun ref u obj raw msg mem => ?_,fun raw msg now => ?_⟩
  · rcases h.known ref u obj with ⟨s,before,carries⟩ | born
    · rcases carries.handed raw msg mem with old | came
      · exact decodes.handed ref s before raw msg old
      · exact decodes.coming raw msg came
    · simp [born.empty] at mem
  rcases h.coming raw msg now with came | good
  · exact decodes.coming raw msg came
  exact good

theorem carriesView (named : u.id = s.id) (viewed : view ref next.loop u = view ref t.loop s)
    (undone : u.done = false → s.done = false) (open' : next.done = false → t.done = false)
    (handed : ∀ raw msg, (raw,msg) ∈ handedOver u → (raw,msg) ∈ handedOver s ∨ comes t.loop = some (raw,msg)) :
    Carries t next ref s u :=
  ⟨named,by rw [viewed],fun _ => by rw [viewed],
    fun _ isUndone isOpen => ⟨undone isUndone,open' isOpen,by rw [viewed]⟩,handed⟩

theorem carriesSame (eq : content u = content s) (undone : u.done = false → s.done = false)
    (open' : next.done = false → t.done = false) (front : inFront ref next.loop = inFront ref t.loop)
    (asks : asked s.id next.loop = asked s.id t.loop) : Carries t next ref s u := by
  obtain ⟨named,fragments,handed⟩ : u.id = s.id ∧ u.assembly.fragments = s.assembly.fragments ∧
      handedOver u = handedOver s := by simpa [content] using eq
  refine carriesView named ?_ undone open' (fun raw msg mem => .inl (handed ▸ mem))
  simp only [view,base,fragments,handed,named,front,asks]

def Kept (t next : Transport) : Prop :=
  ∀ (ref : Nat) u, next.objects[ref]? = some u →
    ∃ s, t.objects[ref]? = some s ∧ content u = content s ∧ (u.done = false → s.done = false)

theorem keptSame (objects : next.objects = t.objects) : Kept t next := fun _ u obj => ⟨u,objects ▸ obj,rfl,id⟩

theorem keptSet (obj : t.objects[r]? = some s) (objects : next.objects = t.objects.set r v)
    (eq : content v = content s) (undone : v.done = false → s.done = false) : Kept t next := by
  intro ref u after
  rw [objects] at after
  rcases atSet obj after with ⟨rfl,rfl⟩ | ⟨_,old⟩
  · exact ⟨s,obj,eq,undone⟩
  exact ⟨u,old,rfl,id⟩

theorem keptModify (objects : next.objects = t.objects.modify r f)
    (eq : ∀ s, content (f s) = content s) (undone : ∀ s, (f s).done = s.done) : Kept t next := by
  cases obj : t.objects[r]? with
  | none => exact keptSame (objects.trans (modifyAbsent obj))
  | some s => exact keptSet obj (objects.trans (modifySet obj)) (eq s) (fun isUndone => undone s ▸ isUndone)

theorem deliveredContent (h : Delivered c t s (.terminal err) ok u) : content u = content s ∧ u.done = s.done := by
  cases h with
  | pushed => exact ⟨by simp [content,handedOver,dataOf,Event.terminal],rfl⟩
  | dropped => exact ⟨rfl,rfl⟩

theorem keptDelivered (obj : t.objects[r]? = some s)
    (h : Delivered c t s (.terminal err) ok u) (objects : next.objects = t.objects.set r u) : Kept t next := by
  obtain ⟨eq,done⟩ := deliveredContent h
  exact keptSet obj objects eq (fun undone => done ▸ undone)

theorem hearsKept (kept : Kept t next) (grown : ∃ more, ids next = ids t ++ more)
    (live : alive next.loop = true → alive t.loop = true) (open' : next.done = false → t.done = false)
    (front : ∀ ref, inFront ref next.loop = inFront ref t.loop) (asks : ∀ x, asked x next.loop = asked x t.loop)
    (coming : comes next.loop = comes t.loop ∨ comes next.loop = none) : Hears c t next := by
  refine ⟨live,grown,fun ref u obj => ?_,fun x _ _ => asks x,fun raw msg now => .inl ?_⟩
  · obtain ⟨s,old,eq,undone⟩ := kept ref u obj
    exact .inl ⟨s,old,carriesSame eq undone open' (front ref) (asks s.id)⟩
  rcases coming with eq | none
  · exact eq ▸ now
  simp [none] at now

theorem hearsStill (kept : Kept t next) (grown : ∃ more, ids next = ids t ++ more) (loop : next.loop = t.loop)
    (open' : next.done = false → t.done = false) : Hears c t next :=
  hearsKept kept grown (by rw [loop]; exact id) open' (fun _ => by rw [loop]) (fun _ => by rw [loop])
    (.inl (by rw [loop]))

theorem calledHears (h : Called c t a next) : Hears c t next := by
  have grown : ∃ more, ids next = ids t ++ more := ⟨[],by rw [calledIDs h,List.append_nil]⟩
  have eq (objects : next.objects = t.objects) (loop : next.loop = t.loop) (done : next.done = t.done) : Hears c t next :=
    hearsStill (keptSame objects) grown loop (by rw [done]; exact id)
  cases h with
  | @received _ _ _ _ obj _ head | @receivedDone _ _ _ _ obj _ head =>
    exact hearsStill (keptSet obj rfl (by simp [content,handedOver,head]) id) grown rfl id
  | closeSend obj | closeWithCode obj => exact hearsStill (keptSet obj rfl rfl id) grown rfl id
  | keepaliveFail => exact eq (by simp) (by simp) (by simp)
  | readFail here =>
    exact hearsKept (keptSame rfl) grown (by simp [alive]) id (fun _ => by rw [here]; rfl) (fun _ => by rw [here]; rfl)
      (.inr rfl)
  | _ => exact eq rfl rfl rfl

theorem inFrontHeld (away : heldRef l ≠ some ref) : inFront ref l = .opens := by
  cases l with
  | delivering r =>
    have other : r ≠ ref := by simpa [heldRef] using away
    simp only [inFront,if_neg other]
    split <;> rfl
  | _ => simp_all [inFront,heldRef]

theorem objectsMore (objects : next.objects = t.objects ++ [v])
    (after : next.objects[ref]? = some u) : t.objects[ref]? = some u ∨ ref = t.objects.length ∧ u = v := by
  rw [objects] at after
  rcases Nat.lt_or_ge ref t.objects.length with old | new
  · rw [List.getElem?_append_left old] at after
    exact .inl after
  rw [List.getElem?_append_right new] at after
  cases here : ref - t.objects.length with
  | zero =>
    rw [here] at after
    exact .inr ⟨by omega,(Option.some.inj after).symm⟩
  | succ => simp [here] at after

theorem bornNew {id} (unborn : id ∉ ids t) (front : inFront t.objects.length next.loop = .opens)
    (asks : asked id next.loop = asked id t.loop) : Born t next t.objects.length (newStream c id) := by
  refine ⟨unborn,?_,rfl⟩
  simp only [view,front,newStream,asks]
  rfl

theorem createdHears (objects : next.objects = t.objects ++ [newStream c x]) (unborn : x ∉ ids t)
    (grounded : Grounded t) (live : alive next.loop = true → alive t.loop = true) (done : next.done = t.done)
    (front : ∀ ref, inFront ref next.loop = inFront ref t.loop) (asks : ∀ y, asked y next.loop = asked y t.loop)
    (coming : comes next.loop = comes t.loop ∨ comes next.loop = none) : Hears c t next := by
  have grown : ids next = ids t ++ [x] := by simp [ids,objects,newStream]
  have away : inFront t.objects.length t.loop = .opens := by
    refine inFrontHeld fun holds => ?_
    have bound := grounded _ holds
    simp [ids] at bound
  refine ⟨live,⟨_,grown⟩,fun ref u after => ?_,fun y _ _ => asks y,fun raw msg now => .inl ?_⟩
  · rcases objectsMore objects after with old | ⟨rfl,rfl⟩
    · exact .inl ⟨u,old,carriesSame rfl id (by rw [done]; exact id) (front ref) (asks u.id)⟩
    · exact .inr (bornNew unborn ((front _).trans away) (asks x))
  rcases coming with eq | none
  · exact eq ▸ now
  simp [none] at now

theorem ranHears (h : Ran c t ok task next out) (grounded : Grounded t)
    (unborn : ∀ id, task = .register id → id ∉ ids t) : Hears c t next := by
  have grown := idsGrow (ranShapes h)
  have loop := ranLoop h
  have eq (objects : next.objects = t.objects) (done : next.done = t.done) : Hears c t next :=
    hearsStill (keptSame objects) grown loop (by rw [done]; exact id)
  have changed {r : Nat} {s v : Stream} (obj : t.objects[r]? = some s) (objects : next.objects = t.objects.set r v)
      (content : content v = content s) (undone : v.done = false → s.done = false) (done : next.done = t.done) :
      Hears c t next :=
    hearsStill (keptSet obj objects content undone) grown loop (by rw [done]; exact id)
  cases h with
  | @registered x _ _ h =>
    cases h with
    | found => exact eq rfl rfl
    | created => exact createdHears rfl (unborn x rfl) grounded id rfl (fun _ => rfl) (fun _ => rfl) (.inl rfl)
  | @wrote _ after | @unwritten _ after => cases after <;> exact eq rfl rfl
  | credited obj | failMarked obj => exact changed obj rfl rfl id rfl
  | unconnected | unsent => exact hearsStill (keptModify rfl (fun _ => rfl) (fun _ => rfl)) grown rfl id
  | closedDone obj | failDone obj => exact changed obj rfl rfl nofun rfl
  | @failedAll who =>
    refine hearsStill (keptSame (by simp)) grown loop ?_
    cases who with
    | close => exact nofun
    | failAll =>
      simp only [finishClose]
      split
      · exact nofun
      exact id
  | failDelivered obj h => exact hearsStill (keptDelivered obj h rfl) grown rfl id
  | _ => exact eq rfl rfl

theorem seeksExact {id} (asks : seeks l = some (id,job)) :
    alive l = true ∧ (∀ ref, inFront ref l = .opens) ∧ ∀ x, asked x l = if id = x then job else .opens := by
  refine ⟨?_,?_,fun x => by simp only [asked,asks]⟩ <;> cases l <;> simp [seeks] at asks <;> simp [alive,inFront]

theorem namedOnce {r : Nat} (nodup : (ids t).Nodup) (first : t.objects[r]? = some s)
    (second : t.objects[ref]? = some u) : r = ref ↔ s.id = u.id := by
  constructor
  · rintro rfl
    rw [Option.mem_unique first second]
  intro eq
  obtain ⟨bound,here⟩ : ∃ bound : r < (ids t).length, (ids t)[r] = s.id :=
    List.getElem_of_getElem? (by simp [ids,first])
  obtain ⟨other,there⟩ : ∃ bound : ref < (ids t).length, (ids t)[ref] = u.id :=
    List.getElem_of_getElem? (by simp [ids,second])
  exact (List.Nodup.getElem_inj_iff nodup).mp (here.trans (eq.trans there.symm))

theorem namedOther {ref : Nat} (obj : t.objects[ref]? = some s) (gone : x ∉ ids t) : s.id ≠ x := by
  rintro rfl
  exact gone (List.mem_map_of_mem (List.mem_of_getElem? obj))

theorem soughtHears {id : UInt64} (h : Sought c t id job next) (asks : seeks t.loop = some (id,job))
    (fits : addressed t = true) (nodup : (ids t).Nodup) (grounded : Grounded t)
    (unborn : ∀ x, seeks t.loop = some (x,.opens) → x ∉ ids t) : Hears c t next := by
  obtain ⟨live,front,asking⟩ := seeksExact asks
  -- an Open frame adds nothing to what is read
  have opens (isOpen : job = .opens) (x : UInt64) : asked x t.loop = .opens := by rw [asking,isOpen,ite_self]
  cases h with
  | @found r known =>
    obtain ⟨o,ith,rfl⟩ := lookedUp known
    refine ⟨fun _ => live,⟨[],by simp [ids]⟩,fun ref s obj => .inl ⟨s,obj,?_⟩,fun x gone _ => ?_,
      fun _ _ => nofun⟩
    · refine carriesView rfl ?_ (fun now => now) (fun now => now) (fun _ _ => .inl)
      have hand : inFront ref (.found r job) = if r = ref then job else .opens := rfl
      simp only [view,front,asking,hand,namedOnce nodup ith obj]
      rfl
    rw [asking,if_neg (namedOther ith gone)]
    rfl
  | rejected gone =>
    have none := opens (addressedExact asks fits gone)
    exact hearsKept (keptSame rfl) ⟨[],by simp [ids]⟩ (fun _ => live) (fun now => now) (fun ref => (front ref).symm)
      (fun x => (none x).symm) (.inr rfl)
  | created gone =>
    have isOpen := addressedExact asks fits gone
    subst isOpen
    have none := opens rfl
    refine createdHears rfl (unborn id asks) grounded (fun _ => live) rfl (fun ref => ?_) (fun y => ?_) (.inr ?_)
    · rw [front]
      split <;> simp [inFront]
    · rw [none]
      split <;> rfl
    split <;> rfl

theorem carriedJoin (state)
    (carried : carries job = some (data,stream,conn)) : join state job = (state.1,state.2 ++ [data]) := by
  cases job <;> simp [carries] at carried <;> rw [← carried.1] <;> rfl

theorem appendedExact (fits : appendFragment c a payload = .ok assembly) :
    assembly.fragments = a.fragments ++ payload := by
  unfold appendFragment at fits
  split at fits <;> cases fits
  rfl

theorem finishedExact {fragments}
    (fits : finishFragments c a payload = .ok (whole,fragments)) : whole = a.fragments ++ payload := by
  unfold finishFragments at fits
  split at fits <;> cases fits
  rfl

theorem carriesFailed (named : u.id = s.id) (handed : handedOver u = handedOver s)
    (loop : next.loop = .failed err) : Carries t next ref s u := by
  have dead : alive next.loop = false := by rw [loop]; rfl
  refine ⟨named,?_,?_,?_,fun raw msg mem => .inl (handed ▸ mem)⟩
  · have now : (view ref next.loop u).2 = (base s).2 := by
      rw [loop]
      simp only [base,← handed]
      rfl
    rw [now]
    exact ((joinGrows _ _).trans (joinGrows _ _)).sublist
  · simp [dead]
  simp [dead]

theorem foundHears (h : Found c t r s job next) (here : t.loop = .found r job)
    (obj : t.objects[r]? = some s) (nodup : (ids t).Nodup) : Hears c t next := by
  have grown : ∃ more, ids next = ids t ++ more := ⟨[],by rw [idsSame (foundShapes obj h),List.append_nil]⟩
  have live : alive t.loop = true := by rw [here]; rfl
  have front (ref : Nat) : inFront ref t.loop = if r = ref then job else .opens := by rw [here]; rfl
  have asks (x : UInt64) : asked x t.loop = .opens := by rw [here]; rfl
  have failed {err : MuxError} (objects : next.objects = t.objects) (loop : next.loop = .failed err) : Hears c t next :=
    ⟨fun _ => live,grown,fun ref u after => .inl ⟨u,objects ▸ after,carriesFailed rfl rfl loop⟩,
      fun x _ _ => by rw [asks,loop]; rfl,fun raw msg now => by simp [loop,comes] at now⟩
  cases h with
  | opens =>
    refine hearsKept (keptSame rfl) grown (fun _ => live) (fun now => now) (fun ref => ?_) (fun x => (asks x).symm)
      (.inr rfl)
    rw [front,ite_self]
    rfl
  | malformed | fragTooLong => exact failed rfl rfl
  | @decoded _ data stream conn msg carried good =>
    refine ⟨fun _ => live,grown,fun ref u after => .inl ⟨u,after,?_⟩,fun x _ _ => (asks x).symm,?_⟩
    · refine carriesView rfl ?_ (fun now => now) (fun now => now) (fun _ _ => .inl)
      have hand : inFront ref (.delivering r ⟨.ok msg,data,stream,conn⟩ false) =
        if r = ref then .whole data 0 0 else .opens := rfl
      simp only [view,front,asks,hand]
      by_cases eq : r = ref
      · rw [if_pos eq,if_pos eq,carriedJoin _ carried]
        rfl
      rw [if_neg eq,if_neg eq]
      rfl
    intro raw other now
    cases now
    exact .inr good
  | @appended _ _ fits =>
    refine ⟨fun _ => live,grown,fun ref u after => .inl ?_,fun x _ _ => (asks x).symm,fun raw msg now => by simp [comes] at now⟩
    rcases atSet obj after with ⟨rfl,rfl⟩ | ⟨away,old⟩
    · refine ⟨s,obj,carriesView rfl ?_ (fun now => now) (fun now => now) (fun _ _ => .inl)⟩
      simp only [view,front,asks]
      simp [join,base,handedOver,inFront,asked,seeks,appendedExact fits]
    exact ⟨u,old,carriesSame rfl (fun now => now) (fun now => now)
      (by rw [front,if_neg away.symm]; rfl) (asks u.id).symm⟩
  | @lastTooLong =>
    refine ⟨fun _ => live,grown,fun ref u after => .inl ?_,fun x _ _ => (asks x).symm,fun raw msg now => by simp [comes] at now⟩
    rcases atSet obj after with ⟨rfl,rfl⟩ | ⟨away,old⟩
    · exact ⟨s,obj,carriesFailed rfl rfl rfl⟩
    exact ⟨u,old,carriesFailed rfl rfl rfl⟩
  | @assembled _ whole _ fits =>
    have asking (x : UInt64) (other : s.id ≠ x) (a b : UInt32) : asked x (.relook s.id whole a b) = .opens := by
      simp [asked,seeks,other]
    refine ⟨fun _ => live,grown,fun ref u after => .inl ?_,fun x gone _ => ?_,fun raw msg now => by simp [comes] at now⟩
    · rcases atSet obj after with ⟨rfl,rfl⟩ | ⟨away,old⟩
      · refine ⟨s,obj,carriesView rfl ?_ (fun now => now) (fun now => now) (fun _ _ => .inl)⟩
        simp only [view,front,asks]
        simp [join,base,handedOver,inFront,asked,seeks,finishedExact fits,Assembly.empty]
      · have other : s.id ≠ u.id := fun eq => away ((namedOnce nodup obj old).mpr eq).symm
        exact ⟨u,old,carriesSame rfl (fun now => now) (fun now => now)
          (by rw [front,if_neg away.symm]; rfl) ((asking u.id other _ _).trans (asks u.id).symm)⟩
    obtain ⟨more,grown⟩ := grown
    have gone : x ∉ ids t := fun mem => gone (grown ▸ List.mem_append_left _ mem)
    rw [asks,asking x (namedOther obj gone)]

theorem dispatchedHears (h : Dispatched c t f next) (here : t.loop = .got f) (fits : addressed t = true)
    (nodup : (ids t).Nodup) (grounded : Grounded t) (unborn : ∀ x, seeks t.loop = some (x,.opens) → x ∉ ids t) :
    Hears c t next := by
  have looped : Looped c t true next := .dispatched here h
  have grown := idsGrow (loopedShapes looped)
  have kept (plain : isDataFrame f = false) (kept : Kept t next) (done : next.done = t.done)
      (front : ∀ ref, inFront ref next.loop = .opens) (asks : ∀ x, asked x next.loop = .opens)
      (coming : comes next.loop = none) : Hears c t next :=
    hearsKept kept grown (fun _ => by rw [here]; rfl) (by rw [done]; exact id) (fun ref => by rw [front,here]; rfl)
      (fun x => by rw [asks,here,plainAsked plain]) (.inr coming)
  have ended {err : MuxError} (isEnd : ends f = some err) : isDataFrame f = false := by
    unfold ends at isEnd
    split at isEnd <;> simp_all [isDataFrame]
  cases h with
  | sought asks h => exact soughtHears h (here ▸ asks) fits nodup grounded unborn
  | terminated isEnd | unknown isEnd => exact kept (ended isEnd) (keptSame rfl) rfl (fun _ => rfl) (fun _ => rfl) rfl
  | finished isFin =>
    exact kept (by simp [isDataFrame,isFin]) (keptSame rfl) rfl (fun _ => rfl) (fun _ => rfl) rfl
  | windowed isWindow =>
    exact kept (by simp [isDataFrame,isWindow]) (keptModify rfl (fun _ => rfl) (fun _ => rfl)) rfl (fun _ => rfl)
      (fun _ => rfl) rfl
  | windowedConn isWindow =>
    exact kept (by simp [isDataFrame,isWindow]) (keptSame rfl) rfl (fun _ => rfl) (fun _ => rfl) rfl
  | ponged isPing => exact kept (by simp [isDataFrame,isPing]) (keptSame rfl) rfl (fun _ => rfl) (fun _ => rfl) rfl
  | ignored isQuiet =>
    have plain : isDataFrame f = false := by
      rcases isQuiet with isKind | ⟨_,isKind | isKind⟩ <;> simp [isDataFrame,isKind]
    exact kept plain (keptSame rfl) rfl (fun _ => rfl) (fun _ => rfl) rfl
  | goneAway isGoAway =>
    exact kept (by simp [isDataFrame,isGoAway]) (keptSame rfl) rfl (fun _ => rfl) (fun _ => rfl) rfl
  | unsupported isOther =>
    exact kept (by simp [isDataFrame,isOther]) (keptSame rfl) rfl (fun _ => rfl) (fun _ => rfl) rfl

theorem deliveredHears (here : t.loop = .delivering r event remove)
    (obj : t.objects[r]? = some s) (h : Delivered c t s event ok u) :
    Hears c t { setStream t r u with loop := afterDelivery s.id remove } := by
  have idle : alive (afterDelivery s.id remove) = true ∧ (∀ ref, inFront ref (afterDelivery s.id remove) = .opens) ∧
      ∀ x, asked x (afterDelivery s.id remove) = .opens := by
    cases remove <;> exact ⟨rfl,fun _ => rfl,fun _ => rfl⟩
  have asks (x : UInt64) : asked x t.loop = .opens := by rw [here]; rfl
  have grown : ids (setStream t r u) = ids t := idsSame (shapesSet obj (deliveredShape h))
  refine ⟨fun _ => by rw [here]; rfl,⟨[],by rw [List.append_nil]; exact grown⟩,fun ref v after => .inl ?_,
    fun x _ _ => (idle.2.2 x).trans (asks x).symm,fun raw msg now => ?_⟩
  · rcases atSet obj after with ⟨rfl,rfl⟩ | ⟨away,before⟩
    · refine ⟨s,obj,?_⟩
      have now : view ref (afterDelivery s.id remove) v = base v := by simp only [view,idle.2.1,idle.2.2,join]
      have was : view ref t.loop s = ((base s).1,(base s).2 ++ ((dataOf event).map Prod.fst).toList) := by
        rw [here]
        cases data : dataOf event <;> simp [view,inFront,asked,seeks,join,data]
      cases h with
      | pushed =>
        refine carriesView rfl ?_ (fun now => now) (fun now => now) (fun raw msg mem => ?_)
        · rw [was]
          refine now.trans ?_
          cases data : dataOf event <;> simp [base,handedOver,data]
        simp only [handedOver,← List.append_assoc,List.filterMap_append,List.mem_append] at mem
        rcases mem with old | added
        · exact .inl (by simpa [handedOver] using old)
        exact .inr (by rw [here]; simpa [comes] using added)
      | dropped gone =>
        refine ⟨rfl,?_,fun _ => ?_,fun _ undone isOpen => ?_,fun _ _ => .inl⟩
        · rw [was]
          exact now ▸ List.sublist_append_left _ _
        · have shown : (view ref (afterDelivery s.id remove) s).1 = (base s).1 := by rw [now]
          rw [was]
          exact shown
        rcases gone with gone | gone <;> simp_all
    · have front : inFront ref t.loop = .opens := inFrontHeld (by simp [here,heldRef,away.symm])
      exact ⟨v,before,carriesSame rfl (fun now => now) (fun now => now) ((idle.2.1 ref).trans front.symm)
        ((idle.2.2 v.id).trans (asks v.id).symm)⟩
  cases remove <;> cases now

theorem loopedHears (h : Looped c t ok next) (fits : addressed t = true)
    (nodup : (ids t).Nodup) (grounded : Grounded t) (unborn : ∀ x, seeks t.loop = some (x,.opens) → x ∉ ids t) :
    Hears c t next := by
  have grown := idsGrow (loopedShapes h)
  have kept {l : Loop} (kept : Kept t next) (here : t.loop = l) (done : next.done = t.done)
      (live : alive next.loop = true → alive l = true) (front : ∀ ref, inFront ref next.loop = inFront ref l)
      (asks : ∀ x, asked x next.loop = asked x l)
      (coming : comes next.loop = none) : Hears c t next :=
    hearsKept kept grown (by rw [here]; exact live) (by rw [done]; exact id) (by rw [here]; exact front)
      (by rw [here]; exact asks) (.inr coming)
  cases h with
  | dispatched here h => exact dispatchedHears h here fits nodup grounded unborn
  | relooked here h => exact soughtHears h (by rw [here]; rfl) fits nodup grounded unborn
  | removed here | accepted here | unacceptedTold here => exact kept (keptSame rfl) here rfl (fun _ => rfl) (fun _ => rfl) (fun _ => rfl) rfl
  | failed here => exact kept (keptSame (by simp)) here (by simp) nofun (fun _ => rfl) (fun _ => rfl) rfl
  | unaccepted here _ obj | aborted here obj | marked here obj =>
    exact kept (keptSet obj rfl rfl id) here rfl (fun _ => rfl) (fun _ => rfl) (fun _ => rfl) rfl
  | abandoned here obj h =>
    exact kept (keptDelivered obj h rfl) here rfl (fun _ => rfl) (fun _ => rfl) (fun _ => rfl) rfl
  | forsaken here obj =>
    exact kept (keptSet obj rfl rfl nofun) here rfl (fun _ => rfl) (fun _ => rfl) (fun _ => rfl) rfl
  | found here obj h => exact foundHears h here obj nodup
  | @already _ _ remove _ here =>
    cases remove <;> exact kept (keptSame rfl) here rfl (fun _ => rfl) (fun _ => rfl) (fun _ => rfl) rfl
  | delivered here obj h => exact deliveredHears here obj h

theorem hearsTasks (h : Hears c { t with tasks := tasks } next) : Hears c t next := by
  refine { h with known := fun ref u after => ?_ }
  rcases h.known ref u after with ⟨s,old,kept⟩ | born
  · exact .inl ⟨s,old,kept.named,kept.order,kept.held,kept.all,kept.handed⟩
  exact .inr { born with }

theorem stepHears (h : Step c t a next out) (nodup : (ids t).Nodup) (grounded : Grounded t)
    (fits : ∀ ok, a = .loop ok → addressed t = true) (unborn : ∀ x, seeks t.loop = some (x,.opens) → x ∉ ids t)
    (unregistered : ∀ (index : Nat) x, t.tasks[index]? = some (.register x) → x ∉ ids t) : Hears c t next := by
  cases h with
  | called h => exact calledHears h
  | looped h => exact loopedHears h (fits _ rfl) nodup grounded unborn
  | @ran index _ _ _ _ ith h =>
    exact hearsTasks (ranHears h grounded fun x isRegister => unregistered index x (isRegister ▸ ith))

theorem joinHeld (job) (held : one.1 = other.1) : (join one job).1 = (join other job).1 := by
  cases job <;> simp [join,held]

theorem joinOrder (job) (held : one.1 = other.1) (order : one.2.Sublist other.2) :
    (join one job).2.Sublist (join other job).2 := by
  cases job with
  | opens | frag => exact order
  | last =>
    simp only [join,held]
    exact order.append_right _
  | _ => exact order.append_right _

theorem takenReads (took : takeFrame c t f = some next)
    (reads : Reads heard t) : Reads (fun x => join (heard x) (asked x (.got f))) next := by
  obtain ⟨here,_,rfl⟩ := takeExact took
  have viewed (ref : Nat) (s : Stream) : view ref t.loop s = base s := by rw [here]; rfl
  have live : alive t.loop = true := by rw [here]; rfl
  have unknown (x : UInt64) (gone : x ∉ ids t) : heard x = ([],[]) := by
    rw [reads.unknown x gone live,here]
    rfl
  by_cases short : (frameBytes f).length ≤ c.maxFrame
  · simp only [if_pos short]
    refine ⟨fun ref s obj => ?_,fun x gone _ => by rw [unknown x gone]⟩
    have known := reads.known ref s obj
    have held := known.held live
    have order := known.order
    rw [viewed] at held order
    refine ⟨joinOrder _ held order,fun _ => joinHeld _ held,fun _ undone open' => ?_⟩
    have all := known.all live undone open'
    rw [viewed] at all
    have eq : base s = heard s.id := Prod.ext held all
    rw [← eq]
    rfl
  simp only [if_neg short]
  refine ⟨fun ref s obj => ?_,fun _ _ => nofun⟩
  have order := (reads.known ref s obj).order
  rw [viewed] at order
  exact ⟨order.trans (joinGrows _ _).sublist,nofun,nofun⟩

theorem takenDecodes (took : takeFrame c t f = some next) (decodes : Decodes c t) : Decodes c next := by
  obtain ⟨_,_,rfl⟩ := takeExact took
  refine ⟨decodes.handed,fun raw msg now => ?_⟩
  split at now <;> cases now

end Gofly.MuxReceiver
