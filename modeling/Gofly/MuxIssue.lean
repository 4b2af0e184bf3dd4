import Gofly.MuxObjects

/-! Where stream ids come from. OpenStream takes the next id of its side's parity and registers it
once, and the Open frames on their way never pass the openings of the id. -/
namespace Gofly.MuxIssue
open Transition Weights MuxFrame MuxMessage MuxState MuxTransport MuxSteps MuxObjects Duplex
open Nat (zero_le)

def opening (x : UInt64) (f : Frame) : Nat := if kind f.typ = .opens ∧ f.streamID = x then 1 else 0

def openTask (x : UInt64) : Task → Nat
  | .write f _ => opening x f
  | _ => 0

def openLoop (x : UInt64) : Loop → Nat
  | .got f => opening x f
  | _ => 0


theorem seeksOpens {id} (asks : seeks l = some (id,.opens)) : openLoop x l = if id = x then 1 else 0 := by
  cases l with
  | got =>
    simp only [seeks] at asks
    split at asks <;> simp at asks
    rename_i isOpen
    simp [openLoop,opening,isOpen,asks]
  | _ => simp [seeks] at asks

def registerTask (x : UInt64) : Task → Nat
  | .register id => if id = x then 1 else 0
  | _ => 0

def quiet : Task → Bool
  | .register _ => false
  | .write f _ => kind f.typ ≠ .opens
  | _ => true

structure Quiet (t next : Transport) : Prop where
  tasks : ∃ more, next.tasks = t.tasks ++ more ∧ ∀ task ∈ more, quiet task = true
  opened : next.opened = t.opened
  nextID : next.nextID = t.nextID

theorem quietTask (still : quiet task = true) : openTask x task = 0 ∧ registerTask x task = 0 := by
  cases task with
  | register => cases still
  | write =>
    refine ⟨if_neg fun opens => ?_,rfl⟩
    exact of_decide_eq_true still opens.1
  | _ => exact ⟨rfl,rfl⟩

theorem quietWeights (all : ∀ task ∈ tasks, quiet task = true) :
    weigh (openTask x) tasks = 0 ∧ weigh (registerTask x) tasks = 0 :=
  ⟨weighZero fun task mem => (quietTask (all task mem)).1, weighZero fun task mem => (quietTask (all task mem)).2⟩

theorem quietSame (tasks : next.tasks = t.tasks) (opened : next.opened = t.opened)
    (nextID : next.nextID = t.nextID) : Quiet t next :=
  ⟨⟨[],by rw [tasks,List.append_nil],by simp⟩,opened,nextID⟩

theorem quietUpdates (c id) : ∀ task ∈ sendFragmentWindowUpdates c id, quiet task = true := by
  intro task member
  simp only [sendFragmentWindowUpdates,sendWindowUpdateAsync,sendConnectionWindowUpdateAsync,
    List.mem_append] at member
  rcases member with member | member <;> split at member <;> simp at member <;> subst member <;> rfl

theorem quietFailAll (t err) : Quiet t (failAll t err) := by
  unfold failAll
  split
  · exact quietSame rfl rfl rfl
  exact ⟨⟨_,rfl,by simp [quiet]⟩,rfl,rfl⟩

theorem soughtQuiet {id} (h : Sought c t id job next) : Quiet t next := by
  cases h with
  | rejected => exact ⟨⟨_,rfl,by simp [quiet,cancelFrame,kind]⟩,rfl,rfl⟩
  | _ => exact quietSame rfl rfl rfl

theorem loopedQuiet (h : Looped c t ok next) : Quiet t next := by
  cases h with
  | dispatched _ h =>
    cases h with
    | sought _ h => exact soughtQuiet h
    | ponged => exact ⟨⟨_,rfl,by simp [quiet,pongFrame,kind]⟩,rfl,rfl⟩
    | _ => exact quietSame rfl rfl rfl
  | relooked _ h => exact soughtQuiet h
  | @failed err =>
    have all := quietFailAll t err
    exact { all with }
  | found _ _ h =>
    cases h with
    | appended => exact ⟨⟨_,rfl,quietUpdates c _⟩,rfl,rfl⟩
    | assembled =>
      refine ⟨⟨_,rfl,?_⟩,rfl,rfl⟩
      split
      · simp
      exact quietUpdates c _
    | _ => exact quietSame rfl rfl rfl
  | _ => exact quietSame rfl rfl rfl

theorem quietReceive (ref id event) : ∀ task ∈ afterReceive ref id event, quiet task = true := by
  intro task member
  unfold afterReceive at member
  split at member
  · split at member <;> rw [List.mem_singleton.mp member] <;> rfl
  simp only [sendWindowUpdateAsync,sendConnectionWindowUpdateAsync,List.mem_append] at member
  rcases member with member | member <;> split at member <;> simp at member <;> subst member <;>
    simp [quiet,windowFrame,windowConnFrame,kind]

theorem calledQuiet (h : Called c t a next) (notOpen : a ≠ .openStream) : Quiet t next := by
  cases h with
  | openStream => exact absurd rfl notOpen
  | received => exact ⟨⟨_,rfl,quietReceive _ _ _⟩,rfl,rfl⟩
  | keepaliveFail => exact quietFailAll t _
  | send | close => exact ⟨⟨_,rfl,by simp [quiet]⟩,rfl,rfl⟩
  | closeSend => exact ⟨⟨_,rfl,by simp [quiet,finFrame,kind]⟩,rfl,rfl⟩
  | closeWithCode =>
    refine ⟨⟨_,rfl,?_⟩,rfl,rfl⟩
    intro task mem
    rw [List.mem_singleton.mp mem]
    simp only [quiet,closeFrame]
    split <;> decide
  | drain => exact ⟨⟨_,rfl,by simp [quiet,goAwayFrame,kind]⟩,rfl,rfl⟩
  | sendPing => exact ⟨⟨_,rfl,by simp [quiet,pingFrame,kind]⟩,rfl,rfl⟩
  | _ => exact quietSame rfl rfl rfl

structure Issues (x : UInt64) (t : Transport) (task : Task) (out : List Frame) (next : Transport) : Prop where
  held : weigh (openTask x) next.tasks + weigh (opening x) out + t.opened.count x ≤
    weigh (openTask x) t.tasks + openTask x task + next.opened.count x
  issued : weigh (registerTask x) next.tasks + next.opened.count x ≤
    weigh (registerTask x) t.tasks + registerTask x task + t.opened.count x
  nextID : next.nextID = t.nextID

theorem quietIssues (h : Quiet t next)
    (wrote : weigh (opening x) out ≤ openTask x task) : Issues x t task out next := by
  obtain ⟨⟨more,tasks,all⟩,opened,nextID⟩ := h
  obtain ⟨opens,registers⟩ := quietWeights (x := x) all
  refine ⟨?_,?_,nextID⟩
  · rw [tasks,opened,weighAppend]
    omega
  rw [tasks,opened,weighAppend]
  omega

theorem dataNotOpen (isData : isDataFrame f = true) : opening x f = 0 := by
  unfold opening
  split
  · rename_i isOpen
    simp [isDataFrame,isOpen.1] at isData
  rfl

theorem ranIssues (h : Ran c t ok task next out) : Issues x t task out next := by
  cases h with
  | refused | starved | unconnected | unsent | kept | closedDone => exact quietIssues (quietSame rfl rfl rfl) (zero_le _)
  | @registered id u _ h =>
    have tasks : u.tasks = t.tasks := by cases h <;> rfl
    have nextID : u.nextID = t.nextID := by cases h <;> rfl
    have isOpen : opening x (openFrame id) = if id = x then 1 else 0 := by simp [opening,openFrame,kind]
    refine ⟨?_,?_,nextID⟩
    · simp only [spawn,tasks,weighAppend,weighCons,weighNil,openTask,List.count_append,
        List.count_singleton,beq_iff_eq]
      omega
    simp only [spawn,tasks,weighAppend,weighCons,weighNil,registerTask,List.count_append,
      List.count_singleton,beq_iff_eq]
    omega
  | @wrote _ after =>
    refine quietIssues ?_ (by simp [openTask])
    cases after with
    | halfClosed | closed => exact ⟨⟨_,rfl,by simp [quiet]⟩,rfl,rfl⟩
    | _ => exact quietSame rfl rfl rfl
  | @unwritten _ after =>
    refine quietIssues ?_ (zero_le _)
    cases after <;> exact quietSame rfl rfl rfl
  | @sentLast send f todo =>
    have plain := (send.plain f (by simp [todo])).2
    exact quietIssues (quietSame rfl rfl rfl) (by simp [dataNotOpen plain])
  | @sentMore send f _ todo =>
    have plain := (send.plain f (by simp [todo])).2
    exact quietIssues ⟨⟨_,rfl,by simp [quiet]⟩,rfl,rfl⟩ (by simp [dataNotOpen plain])
  | removed =>
    refine quietIssues ⟨⟨_,rfl,?_⟩,rfl,rfl⟩ (zero_le _)
    intro task mem
    simp only [List.mem_append,List.mem_map,List.mem_singleton] at mem
    rcases mem with ⟨_,_,rfl⟩ | rfl <;> rfl
  | failedAll => exact quietIssues (quietSame (by simp) (by simp) (by simp)) (zero_le _)
  | _ => exact quietIssues ⟨⟨_,rfl,by simp [quiet]⟩,rfl,rfl⟩ (zero_le _)

def mine : Side → UInt64 → Bool
  | .client,x => x.toNat % 2 = 1
  | .server,x => x.toNat % 2 = 0

theorem mineOther (own : mine s x = true) : mine s.other x = false := by
  cases s <;> simp [mine,Side.other] at own ⊢ <;> omega

structure Issued (s : Side) (t : Transport) : Prop where
  parity : mine s t.nextID = true
  once : ∀ x, weigh (registerTask x) t.tasks + t.opened.count x ≤
    if mine s x = true ∧ x.toNat < t.nextID.toNat then 1 else 0

theorem issuedKept (issued : Issued s t) (nextID : next.nextID = t.nextID)
    (fewer : ∀ x, weigh (registerTask x) next.tasks + next.opened.count x ≤
      weigh (registerTask x) t.tasks + t.opened.count x) : Issued s next :=
  ⟨nextID ▸ issued.parity,fun x => nextID ▸ Nat.le_trans (fewer x) (issued.once x)⟩

theorem issuedOpen (issued : Issued s t) (room : t.nextID.toNat + 2 < 2 ^ 64) :
    Issued s (spawn { t with nextID := t.nextID + 2 } [.register t.nextID]) := by
  have next : (t.nextID + 2).toNat = t.nextID.toNat + 2 := by exact Nat.mod_eq_of_lt room
  have parity := issued.parity
  refine ⟨?_,fun x => ?_⟩
  · cases s <;> simp only [mine,spawn,next,decide_eq_true_eq] at parity ⊢ <;> omega
  have once := issued.once x
  simp only [spawn,weighAppend,weighCons,weighNil,registerTask,next]
  by_cases new : t.nextID = x
  · subst new
    simp only [parity,true_and,Nat.lt_irrefl,if_false] at once
    simp only [parity,true_and,if_true]
    rw [if_pos (by omega)]
    omega
  rw [if_neg new]
  split at once
  · rename_i old
    rw [if_pos ⟨old.1,by omega⟩]
    exact once
  exact once.trans (zero_le _)

theorem stepOpens (h : Step c t a next out) :
    weigh (openTask x) next.tasks + weigh (opening x) out + t.opened.count x ≤
      weigh (openTask x) t.tasks + next.opened.count x := by
  have quietly (h : Quiet t next) : weigh (openTask x) next.tasks + 0 + t.opened.count x ≤
      weigh (openTask x) t.tasks + next.opened.count x := by
    obtain ⟨⟨more,tasks,all⟩,opened,_⟩ := h
    rw [tasks,opened,weighAppend,(quietWeights all).1]
    omega
  cases h with
  | called h =>
    by_cases opens : a = .openStream
    · subst opens
      cases h
      simp [openTask]
    exact quietly (calledQuiet h opens)
  | ran ith h =>
    have taken := weighErase (w := openTask x) ith
    have held := (ranIssues (x := x) h).held
    simp only at held
    omega
  | looped h => exact quietly (loopedQuiet h)

theorem stepIssued (h : Step c t a next out)
    (room : a = .openStream → t.nextID.toNat + 2 < 2 ^ 64) (issued : Issued s t) : Issued s next := by
  have quietly (h : Quiet t next) : Issued s next := by
    obtain ⟨⟨more,tasks,all⟩,opened,nextID⟩ := h
    refine issuedKept issued nextID fun x => ?_
    rw [tasks,opened,weighAppend,(quietWeights all).2]
    simp
  cases h with
  | called h =>
    by_cases opens : a = .openStream
    · have fits := room opens
      subst opens
      cases h
      exact issuedOpen issued fits
    exact quietly (calledQuiet h opens)
  | ran ith h =>
    refine issuedKept issued (ranIssues (x := 0) h).nextID fun x => ?_
    have taken := weighErase (w := registerTask x) ith
    have fewer := (ranIssues (x := x) h).issued
    simp only at fewer
    omega
  | looped h => exact quietly (loopedQuiet h)

theorem issuedStart (cfg s) : Issued s ((connected cfg).party s) := by
  cases s <;> exact ⟨by simp [connected,joined,newTransport,mine],fun x => zero_le _⟩

theorem issuedStep (room : ∀ c t, rule.acts c t .openStream = true → t.nextID.toNat + 2 < 2 ^ 64)
    (held : ∀ s, Issued s (l.party s)) (fits : kept rule cfg l m = true)
    (h : Duplex.step (parties cfg) l m = some after) (side) : Issued side (after.party side) := by
  rcases linkCases h fits with ⟨s,a,u,outs,ran,allowed,worked⟩ | ⟨s,f,u,ran,_,took⟩ <;>
    rcases sideCases s side with rfl | rfl
  · rw [ran.mover]
    exact stepIssued worked (fun opens => room (cfg side) _ (opens ▸ allowed)) (held side)
  · rw [ran.bystander]
    exact held _
  · obtain ⟨_,_,rfl⟩ := takeExact took
    rw [ran.mover]
    exact issuedKept (held side) rfl fun x => le_rfl
  · rw [ran.bystander]
    exact held _

theorem openedOnce {l : Link Transport Frame} (issued : ∀ s, Issued s (l.party s)) (s x) :
    weigh (registerTask x) (l.party s).tasks + (l.party s).opened.count x + (l.party s.other).opened.count x ≤ 1 := by
  have ours := (issued s).once x
  have peer := (issued s.other).once x
  by_cases own : mine s x = true
  · simp only [mineOther own,Bool.false_eq_true,false_and,if_false] at peer
    split at ours <;> omega
  simp only [own,Bool.false_eq_true,false_and,if_false] at ours
  split at peer <;> omega

end Gofly.MuxIssue
