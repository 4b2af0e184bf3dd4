import Gofly.MuxIssue

/-! Which streams AcceptStream returns. -/
namespace Gofly.MuxIdentity
open Transition Weights MuxFrame MuxMessage MuxState MuxTransport MuxSteps MuxObjects MuxIssue Duplex
open Nat (zero_le)

def acceptingRefs : Loop → List Nat
  | .accepting ref _ => [ref]
  | _ => []

def acceptRefs (t : Transport) : List Nat := t.accept ++ acceptingRefs t.loop
def named (x : UInt64) (ids : List UInt64) (ref : Nat) : Nat := if ids[ref]? = some x then 1 else 0

def owed (x : UInt64) (t : Transport) : Nat :=
  openLoop x t.loop + weigh (named x (ids t)) (acceptRefs t) + t.accepted.count x

def rights (x : UInt64) : Ledger Transport Frame :=
  ⟨fun t => weigh (openTask x) t.tasks,owed x,opening x,fun _ => 0⟩

def ghost (c : Config) (t : Transport) : Option UInt64 :=
  match seeks t.loop with
  | none => none
  | some (_,.opens) => none
  | some (id,_) =>
    if lookupStream t id = none ∧ t.draining = false ∧ full c t = false ∧ t.closed = false then some id
    else none

def Valid (t : Transport) : Prop := ∀ ref ∈ acceptRefs t, ref < t.objects.length

theorem namedKept (valid : ∀ ref ∈ refs, ref < (ids t).length) :
    weigh (named x (ids t ++ more)) refs = weigh (named x (ids t)) refs := by
  induction refs with
  | nil => rfl
  | cons ref _ ih =>
    have here : named x (ids t ++ more) ref = named x (ids t) ref := by
      simp only [named,List.getElem?_append_left (valid ref List.mem_cons_self)]
    rw [weighCons,weighCons,here,ih fun r mem => valid r (List.mem_cons_of_mem _ mem)]

theorem owedFalls (valid : Valid t) (grown : ∃ more, ids next = ids t ++ more)
    (refs : ∃ dropped, acceptRefs t = acceptRefs next ++ dropped) (ok : next.accepted = t.accepted)
    (loop : openLoop x next.loop ≤ openLoop x t.loop) : owed x next ≤ owed x t ∧ Valid next := by
  obtain ⟨more,grown⟩ := grown
  obtain ⟨dropped,refs⟩ := refs
  have bound : ∀ ref ∈ acceptRefs t, ref < (ids t).length := by simpa [ids,Valid] using valid
  have length : t.objects.length ≤ next.objects.length := by
    have := congrArg List.length grown
    simp only [ids,List.length_map,List.length_append] at this
    omega
  have kept : ∀ ref ∈ acceptRefs next, ref ∈ acceptRefs t := fun ref mem => refs ▸ List.mem_append_left _ mem
  refine ⟨?_,fun ref mem => Nat.lt_of_lt_of_le (valid ref (kept ref mem)) length⟩
  rw [owed,owed,refs,ok,grown,namedKept fun ref mem => bound ref (kept ref mem),weighAppend]
  omega

theorem seeksRefs {id} (asks : seeks l = some (id,job)) : acceptingRefs l = [] := by
  cases l <;> simp [seeks] at asks <;> rfl

theorem ghostExact {id} (asks : seeks t.loop = some (id,job)) (none : ghost c t = none)
    (gone : lookupStream t id = .none) (serving : t.draining = false) (room : full c t = false)
    (live : t.closed = false) : job = .opens := by
  unfold ghost at none
  rw [asks] at none
  cases job with
  | opens => rfl
  | _ => simp [gone,serving,room,live] at none

theorem createdOwed {id} (valid : Valid t) (refs : acceptingRefs t.loop = [])
    (opens : openLoop x t.loop = if id = x then 1 else 0) :
    owed x { createStream c t id with loop := .accepting t.objects.length job } ≤ owed x t ∧
      Valid { createStream c t id with loop := .accepting t.objects.length job } := by
  have before : acceptRefs t = t.accept := by rw [acceptRefs,refs,List.append_nil]
  have bound : ∀ ref ∈ t.accept, ref < (ids t).length := by simpa [ids,Valid,before] using valid
  have grown : ids (createStream c t id) = ids t ++ [id] := by simp [ids,newStream]
  have last : named x (ids t ++ [id]) t.objects.length = if id = x then 1 else 0 := by
    have length : t.objects.length = (ids t).length := by simp [ids]
    simp [named,length]
  refine ⟨?_,fun ref mem => ?_⟩
  · simp only [owed]
    rw [opens,show ids { createStream c t id with loop := Loop.accepting t.objects.length job } =
      ids t ++ [id] from grown]
    simp only [acceptRefs,acceptingRefs,createStream,weighAppend,weighCons,weighNil, namedKept bound,openLoop]
    omega
  simp only [acceptRefs,acceptingRefs,List.mem_append,List.mem_singleton] at mem
  simp only [createStream,List.length_append,List.length_singleton]
  rcases mem with old | rfl
  · have := bound ref old
    simp only [ids,List.length_map] at this
    omega
  omega

theorem soughtOwed {id} (h : Sought c t id job next) (valid : Valid t)
    (asks : seeks t.loop = some (id,job)) (none : ghost c t = none) : owed x next ≤ owed x t ∧ Valid next := by
  have refs := seeksRefs asks
  have grown := idsGrow (soughtShapes h)
  have eq : acceptRefs t = t.accept := by rw [acceptRefs,refs,List.append_nil]
  cases h with
  | found | rejected =>
    exact owedFalls valid grown ⟨[],by rw [eq]; simp [acceptRefs,acceptingRefs]⟩ rfl (zero_le _)
  | created gone serving room =>
    cases live : t.closed with
    | true => exact owedFalls valid grown ⟨[],by rw [eq]; simp [acceptRefs,acceptingRefs]⟩ rfl (zero_le _)
    | false =>
      have opens := ghostExact asks none gone serving room live
      subst opens
      exact createdOwed valid refs (seeksOpens asks)

theorem loopedOwed (h : Looped c t ok next) (valid : Valid t) (none : ghost c t = none) :
    owed x next ≤ owed x t ∧ Valid next := by
  have grown := idsGrow (loopedShapes h)
  cases h with
  | dispatched here h =>
    cases h with
    | sought asks h => exact soughtOwed h valid (here ▸ asks) none
    | _ =>
      refine owedFalls valid grown ⟨[],?_⟩ rfl (zero_le _)
      rw [acceptRefs,here]
      simp [acceptRefs,acceptingRefs]
  | relooked here h => exact soughtOwed h valid (by rw [here]; rfl) none
  | removed here => exact owedFalls valid grown ⟨[],by simp [acceptRefs,acceptingRefs,here]⟩ rfl (zero_le _)
  | @failed err here =>
    exact owedFalls valid grown ⟨[],by simp [acceptRefs,acceptingRefs,here]⟩ (by simp) (zero_le _)
  | accepted here =>
    exact owedFalls valid grown ⟨[],by simp [acceptRefs,acceptingRefs,here]⟩ rfl (zero_le _)
  | @unaccepted ref _ _ here | @unacceptedTold ref _ _ here =>
    exact owedFalls valid grown ⟨[ref],by simp [acceptRefs,acceptingRefs,here]⟩ rfl (zero_le _)
  | found here _ h =>
    cases h <;> exact owedFalls valid grown ⟨[],by simp [acceptRefs,acceptingRefs,here]⟩ rfl (zero_le _)
  | @already _ _ remove _ here | @delivered _ _ remove _ _ here =>
    refine owedFalls valid grown ⟨[],?_⟩ rfl ?_ <;> cases remove <;>
      simp [acceptRefs,acceptingRefs,here,afterDelivery,openLoop]
  | _ => exact owedFalls valid grown ⟨[],by simp [acceptRefs,acceptingRefs, *]⟩ rfl (zero_le _)

theorem owedSame (valid : Valid t) (grown : ∃ more, ids next = ids t ++ more) (loop : next.loop = t.loop)
    (accept : next.accept = t.accept) (ok : next.accepted = t.accepted) : owed x next ≤ owed x t ∧ Valid next :=
  owedFalls valid grown ⟨[],by rw [List.append_nil,acceptRefs,acceptRefs,loop,accept]⟩ ok (by rw [loop])

theorem ranOwed (h : Ran c t ok task next out) (valid : Valid t) : owed x next ≤ owed x t ∧ Valid next := by
  have grown := idsGrow (ranShapes h)
  cases h with
  | registered h => cases h <;> exact owedSame valid grown rfl rfl rfl
  | @wrote _ after | @unwritten _ after => cases after <;> exact owedSame valid grown rfl rfl rfl
  | failedAll => exact owedSame valid grown (by simp) (by simp) (by simp)
  | _ => exact owedSame valid grown rfl rfl rfl

theorem acceptedOwed (valid : Valid t) (waiting : t.accept = ref :: rest) :
    owed x { t with accept := rest,handles := t.handles ++ [ref],accepted := t.accepted ++ [refID t ref] } ≤
        owed x t ∧
      Valid { t with accept := rest,handles := t.handles ++ [ref],accepted := t.accepted ++ [refID t ref] } := by
  have bound : ref < t.objects.length := valid ref (by simp [acceptRefs,waiting])
  have named : named x (ids t) ref = if refID t ref = x then 1 else 0 := by
    simp [named,ids,refID,List.getElem?_eq_getElem bound]
  refine ⟨?_,fun r mem => valid r ?_⟩
  · simp only [owed,acceptRefs,waiting,weighAppend,weighCons,named,List.count_append,List.count_singleton,beq_iff_eq]
    simp only [ids]
    omega
  simp only [acceptRefs,waiting,List.cons_append,List.mem_cons] at mem ⊢
  exact .inr mem

theorem calledOwed (h : Called c t a next) (valid : Valid t) : owed x next ≤ owed x t ∧ Valid next := by
  have grown : ∃ more, ids next = ids t ++ more := ⟨[],by rw [calledIDs h,List.append_nil]⟩
  cases h with
  | acceptStream waiting => exact acceptedOwed valid waiting
  | keepaliveFail => exact owedSame valid grown (by simp) (by simp) (by simp)
  | readFail here =>
    exact owedFalls valid grown ⟨[],by simp [acceptRefs,acceptingRefs,here]⟩ rfl (zero_le _)
  | _ => exact owedSame valid grown rfl rfl rfl

def fresh (c : Config) (t : Transport) : Act → Bool
  | .loop _ => ghost c t = none
  | .openStream => t.nextID.toNat + 2 < 2 ^ 64
  | _ => true

def identityRule : Rule := ⟨fresh,fun _ _ => true⟩

structure Identity (l : Link Transport Frame) : Prop where
  issued : ∀ s, Issued s (l.party s)
  valid : ∀ s, Valid (l.party s)
  rights : ∀ s x, (rights x).total l s ≤ (l.party s).opened.count x

theorem stepOwed (h : Step c t a next out) (fits : fresh c t a = true)
    (valid : Valid t) : owed x next ≤ owed x t ∧ Valid next := by
  cases h with
  | called h => exact calledOwed h valid
  | ran _ h =>
    obtain ⟨fewer,still⟩ := ranOwed (x := x) h valid
    exact ⟨fewer,still⟩
  | looped h => exact loopedOwed (x := x) h valid (by simpa [fresh] using fits)

theorem takenOwed (h : takeFrame c t f = some next) (valid : Valid t) :
    owed x next ≤ owed x t + opening x f ∧ Valid next := by
  obtain ⟨here,_,rfl⟩ := takeExact h
  have refs : ∀ l, acceptingRefs l = [] → acceptRefs { t with loop := l } = acceptRefs t := by
    intro l none
    change t.accept ++ acceptingRefs l = t.accept ++ acceptingRefs t.loop
    rw [none,here]
    rfl
  constructor
  · split
    · rw [owed,refs _ rfl,owed]
      simp only [openLoop,ids]
      omega
    · rw [owed,refs _ rfl,owed]
      simp only [openLoop,ids]
      omega
  split <;> (intro ref mem; rw [refs _ rfl] at mem; exact valid ref mem)

theorem identityStep (held : Identity l) (fits : kept identityRule cfg l m = true)
    (h : step (parties cfg) l m = some after) : Identity after := by
  have none : ∀ (x : UInt64) (fs : List Frame), weigh (rights x).repays fs = 0 := fun x fs => weighZero fun _ _ => rfl
  have room : ∀ c t, identityRule.acts c t .openStream = true → t.nextID.toNat + 2 < 2 ^ 64 :=
    fun c t allowed => by simpa [identityRule,fresh] using allowed
  have issued := issuedStep room held.issued fits h
  rcases linkCases h fits with ⟨s,a,u,outs,ran,rule,worked⟩ | ⟨s,f,u,ran,_,took⟩
  · refine ⟨issued,fun side => ?_,fun side x => ?_⟩ <;> rcases sideCases s side with rfl | rfl
    · rw [ran.mover]
      exact (stepOwed (x := 0) worked rule (held.valid side)).2
    · rw [ran.bystander]
      exact held.valid _
    · have total := totalMover (g := rights x) ran
      have old := held.rights side x
      have ours := stepOpens (x := x) worked
      simp only [rights] at total old ⊢
      rw [ran.mover]
      omega
    · have total := totalBystander (g := rights x) ran
      have old := held.rights s.other x
      have ours := (stepOwed (x := x) worked rule (held.valid s)).1
      rw [none] at total
      simp only [rights] at total old ⊢
      rw [ran.bystander]
      omega
  refine ⟨issued,fun side => ?_,fun side x => ?_⟩ <;> rcases sideCases s side with rfl | rfl
  · rw [ran.mover]
    exact (takenOwed (x := 0) took (held.valid side)).2
  · rw [ran.bystander]
    exact held.valid _
  · have total := totalMover (g := rights x) ran
    have old := held.rights side x
    obtain ⟨_,_,rfl⟩ := takeExact took
    rw [ran.mover]
    simp only [rights,weighNil] at total old ⊢
    omega
  have total := totalBystander (g := rights x) ran
  have old := held.rights s.other x
  have ours := (takenOwed (x := x) took (held.valid s)).1
  simp only [rights,weighNil,weighCons] at total old ⊢
  rw [ran.bystander]
  omega

theorem identityStart (cfg) : Identity (connected cfg) := by
  have refs (s : Side) : acceptRefs ((connected cfg).party s) = [] := by cases s <;> rfl
  refine ⟨issuedStart cfg,fun s ref mem => ?_,fun s x => ?_⟩
  · rw [refs] at mem
    cases mem
  cases s <;> exact zero_le _

structure Accepts (l : Link Transport Frame) (s : Side) : Prop where
  once : (l.party s).accepted.Nodup
  peers : ∀ x ∈ (l.party s).accepted, x ∈ (l.party s.other).opened
  notOwn : ∀ x ∈ (l.party s).accepted, x ∉ (l.party s).opened

theorem identityAccepts (h : Identity l) (s) : Accepts l s := by
  have bound (x : UInt64) : (l.party s).accepted.count x ≤ (l.party s.other).opened.count x := by
    have total := h.rights s.other x
    simp only [rights,Ledger.total,otherOther,owed] at total
    omega
  have once (x : UInt64) := openedOnce h.issued s x
  refine ⟨List.nodup_iff_count_le_one.mpr fun x => ?_,fun x mem => ?_,fun x mem own => ?_⟩
  · have := once x
    have := bound x
    omega
  · exact List.count_pos_iff.mp (Nat.lt_of_lt_of_le (List.count_pos_iff.mpr mem) (bound x))
  have ok := List.count_pos_iff.mpr mem
  have opened := List.count_pos_iff.mpr own
  have := once x
  have := bound x
  omega

theorem streamIdentity (cfg : Side → Config) (moves : List (Move Act)) (l : Link Transport Frame)
    (h : Trace (Duplex.step (parties cfg)) (kept identityRule cfg · ·) (connected cfg) moves l) (s : Side) :
    Accepts l s :=
  identityAccepts (traceInvariant (P := Identity) (fun _ _ _ held fits moved => identityStep held fits moved)
    h (identityStart cfg)) s

theorem streamIdentityOpened : ∃ l : Link Transport Frame, (l.party .server).accepted = [1] ∧ Accepts l .server := by
  have accepted : accepts (step (parties plain)) (kept identityRule plain · ·) (connected plain) opensStream = true := by
    decide
  obtain ⟨l,ran,trace⟩ := acceptedTrace accepted
  refine ⟨l,?_,streamIdentity plain opensStream l trace .server⟩
  have seen : ((run (step (parties plain)) (connected plain) opensStream).map
      fun l => (l.party .server).accepted) = some [1] := by decide
  simpa [ran] using seen

def closesUnderData : List (Move Act) :=
  [.act .client (.send 0 hello),.act .client (.task 0 true),.act .client (.task 0 true),
    .act .client (.task 0 true),.act .server (.closeWithCode 0 codeOK []),.act .server (.task 0 true),
    .act .server (.task 0 true),.take .server,.act .server (.loop true),.act .server (.loop true),
    .act .server .acceptStream]

theorem closedStreamReturns :
    ¬ ∀ moves l, Trace (Duplex.step (parties plain)) Free (connected plain) moves l → ∀ s, Accepts l s := by
  intro identity
  have twice : ((run (step (parties plain)) (connected plain) (opensStream ++ closesUnderData)).map
      fun l => (l.party .server).accepted) = some [1,1] := by decide
  obtain ⟨l,ran,seen⟩ := Option.map_eq_some_iff.mp twice
  have once := (identity _ l (runFree ran) .server).once
  rw [seen] at once
  exact absurd once (by decide)

end Gofly.MuxIdentity
