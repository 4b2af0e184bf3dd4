import Gofly.MuxClosing

/-! Every delivery of an event finds a slot, over whole runs of two transports. -/
namespace Gofly.MuxDelivery
open Transition Weights MuxFrame MuxMessage MuxState MuxTransport MuxSteps MuxObjects MuxTasks MuxIssue MuxBirth
open MuxWindow MuxQueue MuxClosing Duplex MuxAdmission

def ordered (c : Config) (t : Transport) : Bool :=
  match seeks t.loop with
  | some (id,_) => inserts c t id → t.closed = false
  | none => true

def protects (c : Config) (t : Transport) : Act → Bool
  | .openStream => t.nextID.toNat + 2 < 2 ^ 64
  | .closeSend ref _ => spares t ref
  | .closeWithCode ref _ _ => spares t ref
  | .close => t.closed ∨ roomy c t
  | .keepaliveFail _ => t.closed ∨ roomy c t
  | .loop _ =>
    match t.loop with
    | .failed _ => t.closed ∨ roomy c t
    | _ => addressed t ∧ whole c t ∧ ordered c t
  | _ => true

def queueRule : Rule := ⟨protects,fun _ _ => true⟩

theorem protectsLoop (fits : protects c t (.loop ok) = true) : addressed t = true ∧ whole c t = true ∧
      ∀ id job, seeks t.loop = some (id,job) → inserts c t id = true → t.closed = false := by
  cases here : t.loop with
  | failed => exact ⟨by simp [addressed,here,seeks],by simp [whole,here],by simp [seeks]⟩
  | _ =>
    simp only [protects,here,decide_eq_true_eq] at fits
    refine ⟨fits.1,fits.2.1,fun id job asks inserted => ?_⟩
    have order := fits.2.2
    simp only [ordered,here,asks,inserted,true_implies,decide_eq_true_eq] at order
    exact order

theorem queueBearing : Bearing queueRule where
  room c t fits := by simpa [queueRule,protects] using fits
  addressed c t ok fits := by
    have allowed : protects c t (.loop ok) = true := fits
    exact (protectsLoop allowed).1

theorem protectsCloses (fits : protects c t a = true) : closing t a = true := by
  cases a <;> first | rfl | exact fits

structure Protected (cfg : Side → Config) (q : Nat) (p : WindowPolicy) (l : Link Transport Frame) : Prop where
  births : Births l
  sends : ∀ s, Sends (l.party s)
  grounded : ∀ s, Grounded (l.party s)
  live : ∀ s, (l.party s).closed = false → Live (l.party s)
  shut : ∀ s, (l.party s).closed = true → Shut (cfg s) (l.party s)
  bound : ∀ s x, (l.party s.other).closed = false → (slots p x).total l s ≤
    if x ∈ ids (l.party s) then q else (l.party s.other).opened.count x

theorem handOwed (done : abandons l = false) (named : names[ref]? = some x) : hand ref l ≤ owedLoop x names l := by
  have inHandOnly : ∀ r slots, inHand l = some (r,slots) → owedLoop x names l = inHandFor x names l := by
    intro r slots here
    cases l <;> simp [inHand] at here <;> rfl
  have none : abandonsTo ref l = 0 := by cases l <;> simp [abandons] at done <;> rfl
  rw [hand,none]
  split
  · rename_i r slots here
    rw [inHandOnly r slots here,inHandFor,here]
    dsimp only
    by_cases eq : r = ref
    · subst eq
      rw [if_pos rfl,if_pos named]
      omega
    rw [if_neg eq]
    exact Nat.zero_le _
  exact Nat.zero_le _

theorem boundMost (held : Protected cfg q p l) (pos : 0 < q) (s x)
    (opens : (l.party s.other).closed = false) : (slots p x).total l s ≤ q := by
  have bound := held.bound s x opens
  have once := openedOnce held.births.issued s.other x
  split at bound <;> omega

theorem fitsOpen (held : Protected cfg q p l) (pos : 0 < q) (opens : (l.party s).closed = false) (obj : (l.party s).objects[ref]? = some o) :
    o.recv.length + hand ref (l.party s).loop ≤ q := by
  have total := boundMost held pos s.other o.id (by rw [otherOther]; exact opens)
  have named : (ids (l.party s))[ref]? = some o.id := by simp [ids,obj]
  have loop := handOwed (held.live s opens).loop named
  have queue := weighMember (w := queued p o.id) obj
  have length : o.recv.length ≤ weigh eventSlots o.recv := weighLength eventPositive
  simp only [slots,Ledger.total,otherOther,owes] at total
  simp only [queued,if_true] at queue
  omega

theorem takenSlots (h : takeFrame c t f = some next) :
    holds x next ≤ holds x t + repays x f ∧ owes p x next ≤ owes p x t + spends x f := by
  obtain ⟨here,_,rfl⟩ := takeExact h
  have heldGot : heldLoop x (.got f) = repays x f := rfl
  have owedGot (names : List UInt64) : owedLoop x names (.got f) = spends x f := rfl
  have heldFailed : heldLoop x (.failed .frameTooLarge) = 0 := rfl
  have owedFailed (names : List UInt64) : owedLoop x names (.failed .frameTooLarge) = 0 := rfl
  simp only [holds,owes]
  split
  · rw [owedGot]
    omega
  rw [owedFailed]
  omega

theorem boundMover (held : Protected cfg q p l)
    (ran : Advance l s [] u outs after) (window : (cfg s).receiveQueueSize = q)
    (share : Held (cfg s) x (l.party s) outs u) (opens : (l.party s.other).closed = false) :
    (slots p x).total after s ≤
      if x ∈ ids u then q else (l.party s.other).opened.count x := by
  have total := totalMover (g := slots p x) ran
  have old := held.bound s x opens
  simp only [slots] at total old ⊢
  cases share with
  | kept eq =>
    rw [eq]
    omega
  | @accepted id _ grown fewer =>
    have once := bornOnce held.births s id
    rw [grown]
    by_cases named : id = x
    · subst named
      have fresh : id ∉ ids (l.party s) := by
        rw [← List.count_eq_zero]
        omega
      have opened := openedOnce held.births.issued s id
      simp only [fresh,if_false,if_true,List.mem_append,List.mem_singleton,or_true] at old fewer ⊢
      omega
    simp only [named,if_false,List.mem_append,List.mem_singleton,Ne.symm named,or_false] at fewer ⊢
    omega
  | @registered id _ ith grown fewer =>
    obtain ⟨_,peers,fresh,_⟩ := registersNew held.births ith
    rw [grown]
    by_cases named : id = x
    · subst named
      simp only [fresh,if_false,if_true,List.mem_append,List.mem_singleton,or_true] at old fewer ⊢
      omega
    simp only [named,if_false,List.mem_append,List.mem_singleton,Ne.symm named,or_false] at fewer ⊢
    omega

theorem boundBystander
    (held : Protected cfg q p l) (ran : Advance l s [] u outs after) (worked : Step (cfg s) (l.party s) a u outs)
    (was : (l.party s).closed = false) (books : owes p x u + weigh (repays x) outs + (l.party s).opened.count x ≤
      owes p x (l.party s) + u.opened.count x) : (slots p x).total after s.other ≤
      if x ∈ ids (l.party s.other) then q else u.opened.count x := by
  have total := totalBystander (g := slots p x) ran
  have old := held.bound s.other x (by rw [otherOther]; exact was)
  rw [otherOther] at old
  simp only [slots] at total old ⊢
  -- the peer has no stream of an id that is registered just now
  rcases stepOpened worked with eq | ⟨index,id,ith,grown⟩
  · rw [eq] at books ⊢
    omega
  obtain ⟨_,_,_,fresh⟩ := registersNew held.births ith
  rw [grown] at books ⊢
  by_cases named : id = x
  · subst named
    simp only [fresh,if_false] at old ⊢
    omega
  have none : [id].count x = 0 := by simp [named]
  simp only [List.count_append,none,Nat.add_zero] at books ⊢
  omega

theorem actProtected (windows : ∀ s, (cfg s).receiveQueueSize = q ∧ (cfg s).streamPolicy = p) (pos : 0 < q)
    (held : Protected cfg q p l) (births : Births after) (ran : Advance l s [] u outs after)
    (rule : protects (cfg s) (l.party s) a = true) (worked : Step (cfg s) (l.party s) a u outs) :
    Protected cfg q p after := by
  have loops (ok : Bool) (isLoop : a = .loop ok) := protectsLoop (isLoop ▸ rule)
  have was : u.closed = false → (l.party s).closed = false := by
    intro stays
    cases shut : (l.party s).closed with
    | false => rfl
    | true => simp [stepClosed worked shut] at stays
  refine ⟨births,fun side => ?_,fun side => ?_,fun side stays => ?_,fun side shut => ?_,
    fun side x stays => ?_⟩ <;> rcases sideCases s side with rfl | rfl
  · rw [ran.mover]
    exact stepSends worked (held.sends side) (protectsCloses rule)
  · rw [ran.bystander]
    exact held.sends _
  · rw [ran.mover]
    exact stepGrounded worked (held.grounded side)
  · rw [ran.bystander]
    exact held.grounded _
  · rw [ran.mover] at stays ⊢
    exact stepLive worked (held.live side (was stays)) stays
  · rw [ran.bystander] at stays ⊢
    exact held.live _ stays
  · rw [ran.mover] at shut ⊢
    cases old : (l.party side).closed with
    | true => exact stepShut worked (held.shut side old) old fun ok isLoop => (loops ok isLoop).2.2
    | false =>
      obtain ⟨objects,streams,tasks,loop,cause⟩ := stepCloses worked old shut
      have room : roomy (cfg side) (l.party side) = true := by
        rcases cause with rfl | ⟨err,rfl⟩ | ⟨ok,err,rfl,here⟩
        · simpa [protects,old] using rule
        · simpa [protects,old] using rule
        simpa [protects,old,here] using rule
      refine closingShut (held.live side old) room (fun ref o obj => ?_) objects streams tasks fun ref => ?_
      · rw [(windows side).1]
        exact fitsOpen held pos old obj
      rcases loop with eq | stopped
      · rw [eq]
        exact ⟨le_rfl,le_rfl⟩
      rw [stopped]
      exact ⟨Nat.zero_le _,Nat.zero_le _⟩
  · rw [ran.bystander] at shut ⊢
    exact held.shut _ shut
  · rw [ran.bystander] at stays ⊢
    rw [ran.mover]
    exact boundMover held ran (windows side).1
      (stepHeld worked (held.sends side) (fun ok isLoop => (loops ok isLoop).1) (protectsCloses rule)) stays
  rw [otherOther,ran.mover] at stays ⊢
  rw [ran.bystander]
  refine boundBystander held ran worked (was stays) ?_
  exact stepOwed worked (windows s).2 (held.live s (was stays)) (held.grounded s) stays
    fun ok isLoop => ⟨(loops ok isLoop).1,(loops ok isLoop).2.1⟩

theorem takeProtected (held : Protected cfg q p l) (births : Births after)
    (ran : Advance l s [f] u [] after) (took : takeFrame (cfg s) (l.party s) f = some u) :
    Protected cfg q p after := by
  have books (x : UInt64) := takenSlots (p := p) (x := x) took
  have grounded := takenGrounded took
  obtain ⟨here,_,rfl⟩ := takeExact took
  have free : inHand (if (frameBytes f).length ≤ (cfg s).maxFrame then .got f else .failed .frameTooLarge) = none := by
    split <;> rfl
  refine ⟨births,fun side => ?_,fun side => ?_,fun side stays => ?_,fun side shut => ?_,
    fun side x stays => ?_⟩ <;> rcases sideCases s side with rfl | rfl
  · rw [ran.mover]
    exact held.sends side
  · rw [ran.bystander]
    exact held.sends _
  · rw [ran.mover]
    exact grounded
  · rw [ran.bystander]
    exact held.grounded _
  · rw [ran.mover] at stays ⊢
    have live := held.live side stays
    refine { live with loop := ?_ }
    split <;> rfl
  · rw [ran.bystander] at stays ⊢
    exact held.live _ stays
  · rw [ran.mover] at shut ⊢
    refine shutSame (held.shut side shut) (held.shut side shut).streams rfl fun ref o =>
      loadFalls ?_ rfl le_rfl le_rfl ?_
    · rw [(handIdle free ref).1]
      omega
    rw [(handIdle free ref).2]
    exact Nat.zero_le _
  · rw [ran.bystander] at shut ⊢
    exact held.shut _ shut
  · have total := totalMover (g := slots p x) ran
    have share := (books x).1
    rw [ran.bystander] at stays ⊢
    have old := held.bound side x stays
    rw [ran.mover]
    simp only [slots,weighNil,weighCons] at total old ⊢
    refine Nat.le_trans ?_ old
    omega
  have total := totalBystander (g := slots p x) ran
  have share := (books x).2
  rw [otherOther,ran.mover] at stays ⊢
  have old := held.bound s.other x (by rw [otherOther]; exact stays)
  rw [otherOther] at old
  rw [ran.bystander]
  simp only [slots,weighNil,weighCons] at total old ⊢
  omega

structure FreeSlots (c : Config) (t : Transport) : Prop where
  dispatch : ∀ ref event remove s, t.loop = .delivering ref event remove → t.objects[ref]? = some s →
    s.recv.length < c.receiveQueueSize
  accept : ∀ ref job s, t.loop = .abandoning ref job → t.objects[ref]? = some s →
    s.recv.length < c.receiveQueueSize
  closing : ∀ who err ref refs s, .failDeliver who err ref refs ∈ t.tasks → t.objects[ref]? = some s →
    s.recv.length < c.receiveQueueSize

theorem freeSlots (held : Protected cfg q p l) (s) (window : (cfg s).receiveQueueSize = q) (pos : 0 < q) :
    FreeSlots (cfg s) (l.party s) := by
  cases closed : (l.party s).closed with
  | false =>
    have live := held.live s closed
    refine ⟨fun ref event remove o here obj => ?_,fun ref job o here obj => ?_,
      fun who err ref refs o mem obj => ?_⟩
    · have fits := fitsOpen held pos closed obj
      rw [here,handDelivering] at fits
      omega
    · have done := live.loop
      simp [here,abandons] at done
    have plain := live.tasks _ mem
    simp [failing] at plain
  | true =>
    have shut := held.shut s closed
    refine ⟨fun ref event remove o here obj => ?_,fun ref job o here obj => ?_,
      fun who err ref refs o mem obj => ?_⟩
    · have fits := shut.loads ref o obj
      rw [load,here,handDelivering] at fits
      omega
    · have fits := shut.loads ref o obj
      simp only [load,here,hand,abandonsTo,if_true] at fits
      omega
    have fits := shut.loads ref o obj
    obtain ⟨index,ith⟩ := List.mem_iff_getElem?.mp mem
    have one := weighMember (w := fails ref) ith
    simp only [load,fails,if_true] at fits one
    omega

theorem protectedStart (cfg q p) : Protected cfg q p (connected cfg) where
  births := birthsStart cfg
  sends s := by cases s <;> exact fun task mem => nomatch mem
  grounded s := by cases s <;> exact groundedIdle rfl
  live s _ := by cases s <;> exact ⟨rfl,(fun task mem => nomatch mem),rfl⟩
  shut s closed := by cases s <;> cases closed
  bound s x _ := by cases s <;> exact Nat.zero_le _

theorem flowControlProtects (cfg : Side → Config) (q : Nat) (p : WindowPolicy)
    (windows : ∀ s, (cfg s).receiveQueueSize = q ∧ (cfg s).streamPolicy = p) (moves : List (Move Act))
    (l : Link Transport Frame)
    (h : Trace (Duplex.step (parties cfg)) (kept queueRule cfg · ·) (connected cfg) moves l) (s : Side) :
    FreeSlots (cfg s) (l.party s) := by
  have positive : 0 < q := (windows .client).1 ▸ (cfg .client).queueRange.1
  have kept (l : Link Transport Frame) (m : Move Act) (after : Link Transport Frame) (held : Protected cfg q p l)
      (fits : kept queueRule cfg l m = true) (moved : step (parties cfg) l m = some after) :
      Protected cfg q p after := by
    have births := birthsStep queueBearing held.births fits moved
    rcases linkCases moved fits with ⟨s,a,u,outs,moved,rule,worked⟩ | ⟨s,f,u,moved,_,took⟩
    · exact actProtected windows positive held births moved rule worked
    exact takeProtected held births moved took
  exact freeSlots (traceInvariant kept h (protectedStart cfg q p)) s (windows s).1 positive

def narrow (_ : Side) : Config := newConfig FramedTransport.plainCodecs [.receiveQueueSize 1]

def sendsOne : List (Move Act) :=
  opensStream ++ ([.act .client (.send 0 hello),.act .client (.task 0 true),.act .client (.task 0 true),
    .act .client (.task 0 true),.take .server,.act .server (.loop true),.act .server (.loop true)] :
      List (Move Act))

def endsUnread : List (Move Act) :=
  [.act .server (.loop true),.act .client (.closeSend 0 []),.act .client (.task 0 true),.take .server,
    .act .server (.loop true),.act .server (.loop true)]

-- the queue that the read loop is about to deliver to, if this side has not closed the stream
def unread (t : Transport) : Option Nat :=
  match t.loop with
  | .delivering ref _ _ =>
    match t.objects[ref]? with
    | some s => if s.done = false ∧ s.localClosed = false then some s.recv.length else none
    | none => none
  | _ => none

theorem unreadExact (h : unread t = some n) : ∃ ref event remove s, t.loop = .delivering ref event remove ∧
    t.objects[ref]? = some s ∧ s.done = false ∧ s.localClosed = false ∧ s.recv.length = n := by
  unfold unread at h
  split at h <;> try contradiction
  rename_i ref event remove here
  split at h <;> try contradiction
  rename_i s obj
  split at h <;> try contradiction
  rename_i kept
  exact ⟨ref,event,remove,s,here,obj,kept.1,kept.2,Option.some.inj h⟩

theorem flowControlProtectsData :
    ∃ l : Link Transport Frame, unread (l.party .server) = some 0 ∧ FreeSlots (narrow .server) (l.party .server) := by
  have accepted : accepts (step (parties narrow)) (kept queueRule narrow · ·) (connected narrow) sendsOne =
      true := by decide
  obtain ⟨l,ran,trace⟩ := acceptedTrace accepted
  refine ⟨l,?_,flowControlProtects narrow 1 .perFragment (fun _ => ⟨rfl,rfl⟩) sendsOne l trace .server⟩
  have seen : ((run (step (parties narrow)) (connected narrow) sendsOne).map
      fun l => unread (l.party .server)) = some (some 0) := by decide
  simpa [ran] using seen

theorem unreadStreamBlocks : ¬ ∀ moves l, Trace (Duplex.step (parties narrow)) Free (connected narrow) moves l →
      ∀ s ref event remove o, (l.party s).loop = .delivering ref event remove → (l.party s).objects[ref]? = some o →
        o.done = false → o.localClosed = false → o.recv.length < (narrow s).receiveQueueSize := by
  intro free
  have full : ((run (step (parties narrow)) (connected narrow) (sendsOne ++ endsUnread)).map
      fun l => unread (l.party .server)) = some (some 1) := by decide
  obtain ⟨l,ran,seen⟩ := Option.map_eq_some_iff.mp full
  obtain ⟨ref,event,remove,o,here,object,undone,unclosed,length⟩ := unreadExact seen
  have space := free _ l (runFree ran) .server ref event remove o here object undone unclosed
  rw [length] at space
  exact absurd space (by decide)

end Gofly.MuxDelivery
