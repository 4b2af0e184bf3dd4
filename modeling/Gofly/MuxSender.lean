import Gofly.MuxFragments
import Gofly.MuxTasks

/-! What the Sends of a side write on one stream, read as the peer reads it: a DataFrag frame is
added to the bytes held, a DataEnd frame closes them, and no frame tells its Send. -/
namespace Gofly.MuxSender
open ByteReader MuxFrame MuxMessage MuxFragments MuxState MuxTransport MuxSteps MuxTasks
open List (append_nil map_append mem_append mem_singleton)

def join (state : Bytes × List Bytes) : Job → Bytes × List Bytes
  | .opens => state
  | .data payload => (state.1,state.2 ++ [payload])
  | .whole payload _ _ => (state.1,state.2 ++ [payload])
  | .frag payload => (state.1 ++ payload,state.2)
  | .last payload => ([],state.2 ++ [state.1 ++ payload])

def asked (x : UInt64) (l : Loop) : Job :=
  match seeks l with
  | none => .opens
  | some (id,job) => if id = x then job else .opens

def joins (x : UInt64) (frames : List Frame) : Bytes × List Bytes :=
  frames.foldl (fun state f => join state (asked x (.got f))) ([],[])

def holder (x : UInt64) (before : Option Nat) (entry : Nat × Frame) : Option Nat :=
  match asked x (.got entry.2) with
  | .frag _ => some entry.1
  | .last _ => none
  | _ => before

def unfinished (x : UInt64) (log : List (Nat × Frame)) : Option Nat := log.foldl (holder x) none
def spoken (x : UInt64) (t : Transport) : Bytes × List Bytes := joins x (t.wrote.map Prod.snd)

def returnedData (x : UInt64) (t : Transport) : List Bytes :=
  t.finished.filterMap fun call =>
    match t.sends[call]? with
    | none => none
    | some sent => if sent.id = x then some sent.data else none

-- no fragment of one Send comes between those of another
def undisturbed (t : Transport) : Act → Bool
  | .task index true =>
    match t.tasks[index]? with
    | some (.writeData send) =>
      match send.todo with
      | [] => true
      | f :: _ =>
        kind f.typ = .data ∨ unfinished send.id t.wrote = none ∨ unfinished send.id t.wrote = some send.call
    | _ => true
  | _ => true

def sendings (tasks : List Task) : List Sending := tasks.filterMap sending

def silent : Task → Bool
  | .write f _ => !isDataFrame f
  | task => (sending task).isNone

theorem joinsMore : joins x (frames ++ [f]) = join (joins x frames) (asked x (.got f)) := by simp [joins]

theorem unfinishedMore :
    unfinished x (log ++ [(call,f)]) = holder x (unfinished x log) (call,f) := by simp [unfinished]

theorem joinGrows (state job) : state.2 <+: (join state job).2 := by cases job <;> simp [join]

theorem joinsGrow (x frames more) : (joins x frames).2 <+: (joins x (frames ++ more)).2 := by
  induction more using List.reverseRecOn with
  | nil => simp
  | append_singleton _ _ ih =>
    rw [← List.append_assoc,joinsMore]
    exact ih.trans (joinGrows _ _)

theorem plainAsked (plain : isDataFrame f = false) : asked x (.got f) = .opens := by
  simp only [isDataFrame] at plain
  unfold asked seeks
  cases h : kind f.typ <;> simp [h] at plain ⊢

theorem foreignAsked (other : f.streamID ≠ x) : asked x (.got f) = .opens := by
  unfold asked seeks
  cases h : kind f.typ <;> simp [h,other]

@[simp] theorem dataAsked (payload) : asked x (.got (dataFrame x payload)) = .data payload := by
  simp [asked,seeks,dataFrame,kind]
@[simp] theorem fragAsked (payload) : asked x (.got (fragFrame x payload)) = .frag payload := by
  simp [asked,seeks,fragFrame,kind]
@[simp] theorem endAsked (payload) : asked x (.got (endFrame x payload)) = .last payload := by
  simp [asked,seeks,endFrame,kind]

inductive Tail (id : UInt64) : Bytes → List Frame → Bytes → Prop where
  | last {held payload} : Tail id held [endFrame id payload] (held ++ payload)
  | frag {held payload rest data} (later : Tail id (held ++ payload) rest data) :
      Tail id held (fragFrame id payload :: rest) data

theorem fragmentsTail (id) (pos : 0 < size) (full : payload ≠ []) (enough : payload.length ≤ rounds) (held) :
    Tail id held (fragments size id rounds payload) (held ++ payload) := by
  induction rounds generalizing payload held with
  | zero => exact absurd (List.length_eq_zero_iff.mp (Nat.le_zero.mp enough)) full
  | succ _ ih =>
    rw [fragments,if_neg full]
    split
    · exact .last
    have left : (payload.drop size).length = payload.length - size := List.length_drop
    have rest := @ih (payload.drop size) (fun none => by rw [none,List.length_nil] at left; omega) (by omega)
      (held ++ payload.take size)
    rw [List.append_assoc,List.take_append_drop] at rest
    exact .frag rest

theorem cutTail {id}
    (cut : dataFrames c id data = .ok frames) : frames = [dataFrame id data] ∨ Tail id [] frames data := by
  obtain ⟨_,whole | ⟨size,pos,full,rfl⟩⟩ := cutCases cut
  · exact .inl whole
  exact .inr (fragmentsTail id pos full le_rfl [])

inductive Progress (t : Transport) (send : Sending) (data : Bytes) : Prop where
  | whole (todo : send.todo = [dataFrame send.id data])
  | fresh (away : unfinished send.id t.wrote ≠ some send.call) (todo : Tail send.id [] send.todo data)
  | under (own : unfinished send.id t.wrote = some send.call)
      (todo : Tail send.id (spoken send.id t).1 send.todo data)

structure Speaks (t : Transport) : Prop where
  plain : ∀ f after, Task.write f after ∈ t.tasks → isDataFrame f = false
  once : ((sendings t.tasks).map Sending.call).Nodup
  sends : ∀ send ∈ sendings t.tasks, ∃ sent, t.sends[send.call]? = some sent ∧ sent.id = send.id ∧
    Progress t send sent.data
  called : ∀ x call, unfinished x t.wrote = some call → call < t.sends.length
  settled : ∀ x, unfinished x t.wrote = none → (spoken x t).1 = []
  finished : ∀ call ∈ t.finished, call < t.sends.length
  returned : ∀ x, (spoken x t).2 = returnedData x t

variable {t next : Transport}

theorem spokenMore (wrote : next.wrote = t.wrote ++ [(call,f)]) :
    spoken x next = join (spoken x t) (asked x (.got f)) := by
  rw [spoken,wrote,map_append,List.map_singleton,joinsMore]
  rfl

theorem returnedSame (done : next.finished = t.finished) (sends : next.sends = t.sends) :
    returnedData x next = returnedData x t := by simp only [returnedData,done,sends]

theorem progressSame {send} (p : Progress t send data)
    (eq : unfinished send.id next.wrote = unfinished send.id t.wrote) (held : (spoken send.id next).1 = (spoken send.id t).1) :
    Progress next send data := by
  cases p with
  | whole todo => exact .whole todo
  | fresh _ todo => exact .fresh (by rwa [eq]) todo
  | under => exact .under (by rwa [eq]) (by rwa [held])

theorem progressAway {send} (p : Progress t send data)
    (was : unfinished send.id t.wrote ≠ some send.call) (now : unfinished send.id next.wrote ≠ some send.call) :
    Progress next send data := by
  cases p with
  | whole todo => exact .whole todo
  | fresh _ todo => exact .fresh now todo
  | under own => exact absurd own was

theorem speaksKept (speaks : Speaks { t with tasks := all }) (wrote : next.wrote = t.wrote)
    (done : next.finished = t.finished) (sends : next.sends = t.sends)
    (plain : ∀ f after, Task.write f after ∈ next.tasks → isDataFrame f = false)
    (fewer : (sendings next.tasks).Subperm (sendings all)) : Speaks next := by
  have eq (x : UInt64) : spoken x next = spoken x t := by rw [spoken,wrote]; rfl
  refine ⟨plain,?_,fun send mem => ?_,?_,fun x => ?_,?_,fun x => ?_⟩
  · obtain ⟨middle,ran,less⟩ := fewer
    exact (ran.map _).nodup_iff.mp (speaks.once.sublist (less.map _))
  · obtain ⟨sent,ith,named,progress⟩ := speaks.sends send (fewer.subset mem)
    exact ⟨sent,by rw [sends]; exact ith,named,progressSame progress (by rw [wrote]) (by rw [eq]; rfl)⟩
  · rw [wrote,sends]
    exact speaks.called
  · rw [wrote,eq]
    exact speaks.settled x
  · rw [done,sends]
    exact speaks.finished
  rw [eq,returnedSame done sends]
  exact speaks.returned x

@[simp] theorem sendingsAppend (tasks more) : sendings (tasks ++ more) = sendings tasks ++ sendings more :=
  List.filterMap_append

theorem sendingsErase (ith : tasks[index]? = some task) :
    (sendings tasks).Perm ((sending task).toList ++ sendings (tasks.eraseIdx index)) := by
  obtain ⟨bound,rfl⟩ := List.getElem_of_getElem? ith
  have perm := (List.getElem_cons_eraseIdx_perm bound).filterMap sending
  refine perm.symm.trans (List.Perm.of_eq ?_)
  cases h : sending tasks[index] <;> simp [sendings,h]

theorem silentSending (quiet : silent task = true) : sending task = none := by
  cases task <;> simp [silent,sending] at quiet <;> rfl

theorem minorSilent (small : minor task = true) : silent task = true := by
  cases task <;> simp [minor] at small <;> simp [silent,sending,small]

theorem failingSilent (fails : failing task = true) : silent task = true := by
  cases task <;> simp [failing] at fails <;> rfl

theorem followsSilent (h : Follows task new) (alone : sending task = none) : silent new = true := by
  cases h with
  | opens => rfl
  | fails _ is => exact failingSilent is
  | minor small => exact minorSilent small
  | _ => simp [sending] at alone

theorem speaksSpawned (speaks : Speaks { t with tasks := all }) (wrote : next.wrote = t.wrote)
    (done : next.finished = t.finished) (sends : next.sends = t.sends)
    (tasks : ∃ more, next.tasks = t.tasks ++ more ∧ ∀ new ∈ more, silent new = true)
    (kept : ∀ task ∈ t.tasks, task ∈ all) (fewer : (sendings t.tasks).Subperm (sendings all)) : Speaks next := by
  obtain ⟨more,tasks,quiet⟩ := tasks
  have none : sendings more = [] := List.filterMap_eq_nil_iff.mpr fun new mem => silentSending (quiet new mem)
  refine speaksKept speaks wrote done sends (fun f after mem => ?_) ?_
  · rw [tasks,mem_append] at mem
    rcases mem with old | added
    · exact speaks.plain f after (kept _ old)
    simpa [silent] using quiet _ added
  rw [tasks,sendingsAppend,none,append_nil]
  exact fewer

theorem loopedLogs (h : Looped c t ok next) :
    next.wrote = t.wrote ∧ next.finished = t.finished ∧ next.sends = t.sends := by
  cases h with
  | dispatched _ h =>
    cases h with
    | sought _ h => cases h <;> exact ⟨rfl,rfl,rfl⟩
    | _ => exact ⟨rfl,rfl,rfl⟩
  | relooked _ h | found _ _ h => cases h <;> exact ⟨rfl,rfl,rfl⟩
  | failed => simp
  | _ => exact ⟨rfl,rfl,rfl⟩

theorem loopedSpeaks (h : Looped c t ok next) (speaks : Speaks t) : Speaks next := by
  obtain ⟨more,tasks,spawned⟩ := loopedSpawns h
  obtain ⟨wrote,done,sends⟩ := loopedLogs h
  refine speaksSpawned speaks wrote done sends ⟨more,tasks,fun new mem => ?_⟩ (fun _ mem => mem)
    (List.Subperm.refl _)
  rcases spawned new mem with small | ⟨_,_,fails⟩
  · exact minorSilent small
  exact failingSilent fails

theorem sendSpeaks {id send} (speaks : Speaks t)
    (first : call = t.sends.length) (isCall : send.call = call) (named : send.id = id)
    (cut : send.todo = [dataFrame id data] ∨ Tail id [] send.todo data) :
    Speaks { spawn t [.credit send] with sends := t.sends ++ [⟨id,msg,data⟩] } := by
  subst first named
  have old {n : Nat} {sent : Sent} (ith : t.sends[n]? = some sent) :
      n < t.sends.length ∧ (t.sends ++ [⟨send.id,msg,data⟩])[n]? = some sent := by
    obtain ⟨bound,_⟩ := List.getElem_of_getElem? ith
    exact ⟨bound,by rw [List.getElem?_append_left bound]; exact ith⟩
  have added : sendings (t.tasks ++ [.credit send]) = sendings t.tasks ++ [send] := by rw [sendingsAppend]; rfl
  refine ⟨fun f after mem => ?_,?_,fun other mem => ?_,fun x n isOwner => ?_,speaks.settled,
    fun n mem => ?_,fun x => ?_⟩
  · simp only [spawn,mem_append,mem_singleton,reduceCtorEq,or_false] at mem
    exact speaks.plain f after mem
  · simp only [spawn,added,map_append,List.map_singleton]
    refine List.Nodup.append speaks.once (List.nodup_singleton _) ?_
    rw [List.disjoint_singleton,List.mem_map]
    rintro ⟨other,mem,eq⟩
    obtain ⟨sent,ith,_⟩ := speaks.sends other mem
    have bound := (old ith).1
    omega
  · simp only [spawn,added,mem_append,mem_singleton] at mem
    rcases mem with before | rfl
    · obtain ⟨sent,ith,named,progress⟩ := speaks.sends other before
      exact ⟨sent,(old ith).2,named,progressSame progress rfl rfl⟩
    refine ⟨⟨other.id,msg,data⟩,by simp [isCall],rfl,?_⟩
    rcases cut with whole | tail
    · exact .whole whole
    refine .fresh (fun own => ?_) tail
    have bound := speaks.called other.id other.call own
    omega
  · have bound := speaks.called x n isOwner
    simp only [List.length_append]
    omega
  · have bound := speaks.finished n mem
    simp only [List.length_append]
    omega
  refine (speaks.returned x).trans (List.filterMap_congr fun n mem => ?_)
  rw [List.getElem?_append_left (speaks.finished n mem)]

theorem calledLogs (h : Called c t a next) : next.wrote = t.wrote ∧ next.finished = t.finished := by
  cases h with
  | keepaliveFail => simp
  | _ => exact ⟨rfl,rfl⟩

theorem calledSpeaks (h : Called c t a next) (speaks : Speaks t) : Speaks next := by
  obtain ⟨more,tasks,spawned⟩ := calledSpawns h
  obtain ⟨wrote,done⟩ := calledLogs h
  have eq (quiet : ∀ ref msg, a ≠ .send ref msg) (sends : next.sends = t.sends) : Speaks next := by
    refine speaksSpawned speaks wrote done sends ⟨more,tasks,fun new mem => ?_⟩ (fun _ mem => mem)
      (List.Subperm.refl _)
    cases spawned new mem with
    | registers => rfl
    | sends => exact absurd rfl (quiet _ _)
    | fails _ _ is => exact failingSilent is
    | minor small => exact minorSilent small
  cases h with
  | send _ _ _ _ cut =>
    have tail := cutTail cut
    exact sendSpeaks speaks rfl rfl rfl tail
  | keepaliveFail => exact eq nofun (by simp)
  | _ => exact eq nofun rfl

inductive Spoke (x : UInt64) (call : Nat) (t next : Transport) (rest : List Frame) (data : Bytes) : Prop where
  | whole (final : rest = []) (same : unfinished x next.wrote = unfinished x t.wrote)
      (said : spoken x next = ((spoken x t).1,(spoken x t).2 ++ [data]))
  | last (final : rest = []) (alone : ∀ other, unfinished x t.wrote = some other → other = call)
      (now : unfinished x next.wrote = none) (said : spoken x next = ([],(spoken x t).2 ++ [data]))
  | frag (alone : ∀ other, unfinished x t.wrote = some other → other = call)
      (now : unfinished x next.wrote = some call) (said : (spoken x next).2 = (spoken x t).2)
      (later : Tail x (spoken x next).1 rest data)

theorem tailHead {id} (tail : Tail id held (f :: rest) data) : kind f.typ ≠ .data := by
  cases tail <;> simp [endFrame,fragFrame,kind]

theorem spokeOf {send} (progress : Progress t send data)
    (done : unfinished send.id t.wrote = none → (spoken send.id t).1 = []) (todo : send.todo = f :: rest)
    (alone : kind f.typ = .data ∨ unfinished send.id t.wrote = none ∨ unfinished send.id t.wrote = some send.call)
    (wrote : next.wrote = t.wrote ++ [(send.call,f)]) : Spoke send.id send.call t next rest data := by
  have said := spokenMore (x := send.id) wrote
  have held : unfinished send.id next.wrote = _ := wrote ▸ unfinishedMore (x := send.id)
  -- a fragment follows the Send's own fragments or none
  have fragment (tail : Tail send.id (spoken send.id t).1 (f :: rest) data)
      (owner : unfinished send.id t.wrote = none ∨ unfinished send.id t.wrote = some send.call) :
      Spoke send.id send.call t next rest data := by
    have only : ∀ other, unfinished send.id t.wrote = some other → other = send.call := by
      rcases owner with none | own <;> simp_all
    cases tail with
    | last =>
      simp only [endAsked,holder] at said held
      exact .last rfl only held said
    | frag later =>
      simp only [fragAsked,join,holder] at said held
      exact .frag only held (by rw [said]) (by rw [said]; exact later)
  cases progress with
  | whole whole =>
    rw [todo] at whole
    cases whole
    simp only [dataAsked,holder] at said held
    exact .whole rfl held said
  | fresh away tail =>
    rw [todo] at tail
    rcases alone with isData | none | own
    · exact absurd isData (tailHead tail)
    · exact fragment (by rw [done none]; exact tail) (.inl none)
    exact absurd own away
  | under own tail =>
    rw [todo] at tail
    exact fragment tail (.inr own)

theorem spokeOther {send} (h : Spoke x call t next rest data) (named : send.id = x)
    (other : send.call ≠ call) (progress : Progress t send payload) : Progress next send payload := by
  subst named
  cases h with
  | whole _ eq said => exact progressSame progress eq (by rw [said])
  | last _ alone now => exact progressAway progress (fun own => other (alone _ own)) (by simp [now])
  | frag alone now =>
    exact progressAway progress (fun own => other (alone _ own)) (by simpa [now] using other.symm)

theorem spokeSettled (h : Spoke x call t next rest data) (done : unfinished x t.wrote = none → (spoken x t).1 = [])
    (none : unfinished x next.wrote = none) : (spoken x next).1 = [] := by
  cases h with
  | whole _ eq said =>
    rw [said]
    exact done (eq ▸ none)
  | last _ _ _ said => rw [said]
  | frag _ now => simp [now] at none

theorem spokeCalled (h : Spoke x call t next rest data) (below : call < bound)
    (called : ∀ n, unfinished x t.wrote = some n → n < bound) (isOwner : unfinished x next.wrote = some n) : n < bound := by
  cases h with
  | whole _ eq => exact called n (eq ▸ isOwner)
  | last _ _ now => simp [now] at isOwner
  | frag _ now =>
    rw [now] at isOwner
    cases isOwner
    exact below

theorem spokeFinal (h : Spoke x call t next [] data) : (spoken x next).2 = (spoken x t).2 ++ [data] := by
  cases h with
  | whole _ _ said | last _ _ _ said => rw [said]
  | frag _ _ _ later => cases later

theorem spokeMore (h : Spoke x call t next rest data) (more : rest ≠ []) :
    unfinished x next.wrote = some call ∧ (spoken x next).2 = (spoken x t).2 ∧ Tail x (spoken x next).1 rest data := by
  cases h with
  | whole final | last final => exact absurd final more
  | frag _ now said later => exact ⟨now,said,later⟩

structure Writes (all : List Task) (t next : Transport) (send : Sending) (f : Frame) (rest : List Frame) : Prop where
  speaks : Speaks { t with tasks := all }
  listed : (sendings all).Perm (send :: sendings t.tasks)
  todo : send.todo = f :: rest
  alone : kind f.typ = .data ∨ unfinished send.id t.wrote = none ∨ unfinished send.id t.wrote = some send.call
  wrote : next.wrote = t.wrote ++ [(send.call,f)]
  sends : next.sends = t.sends

section
variable {send : Sending} {f : Frame}

section
variable (w : Writes all t next send f rest)
include w

theorem writesSpoke :
    ∃ sent, t.sends[send.call]? = some sent ∧ sent.id = send.id ∧ Spoke send.id send.call t next rest sent.data := by
  obtain ⟨sent,ith,named,progress⟩ := w.speaks.sends send (w.listed.mem_iff.mpr List.mem_cons_self)
  exact ⟨sent,ith,named,spokeOf (progressSame progress rfl rfl) (w.speaks.settled send.id) w.todo w.alone w.wrote⟩

theorem writesForeign (other : x ≠ send.id) :
    spoken x next = spoken x t ∧ unfinished x next.wrote = unfinished x t.wrote := by
  have away : asked x (.got f) = .opens :=
    foreignAsked (by rw [(send.plain f (by simp [w.todo])).1]; exact other.symm)
  rw [spokenMore w.wrote,w.wrote,unfinishedMore,holder,away]
  exact ⟨rfl,rfl⟩

theorem writesCalls : (send.call :: (sendings t.tasks).map Sending.call).Nodup :=
  (w.listed.map _).nodup_iff.mp w.speaks.once

theorem writesOthers (other) (mem : other ∈ sendings t.tasks) :
    ∃ sent, next.sends[other.call]? = some sent ∧ sent.id = other.id ∧ Progress next other sent.data := by
  obtain ⟨_,_,_,spoke⟩ := writesSpoke w
  obtain ⟨sent,ith,named,progress⟩ := w.speaks.sends other (w.listed.mem_iff.mpr (List.mem_cons_of_mem _ mem))
  refine ⟨sent,by rw [w.sends]; exact ith,named,?_⟩
  by_cases eq : other.id = send.id
  · refine spokeOther spoke eq (fun equal => ?_) (progressSame progress rfl rfl)
    exact (List.nodup_cons.mp (writesCalls w)).1 (equal ▸ List.mem_map_of_mem mem)
  obtain ⟨said,held⟩ := writesForeign w eq
  exact progressSame progress held (by rw [said]; rfl)

theorem writesOwner : (∀ x call, unfinished x next.wrote = some call → call < next.sends.length) ∧
      ∀ x, unfinished x next.wrote = none → (spoken x next).1 = [] := by
  obtain ⟨sent,ith,_,spoke⟩ := writesSpoke w
  rw [w.sends]
  refine ⟨fun x call isOwner => ?_,fun x none => ?_⟩ <;> by_cases eq : x = send.id
  · subst eq
    exact spokeCalled spoke (List.getElem_of_getElem? ith).1 (w.speaks.called send.id) isOwner
  · exact w.speaks.called x call ((writesForeign w eq).2 ▸ isOwner)
  · subst eq
    exact spokeSettled spoke (w.speaks.settled send.id) none
  obtain ⟨said,held⟩ := writesForeign w eq
  rw [said]
  exact w.speaks.settled x (held ▸ none)
end

theorem sentLastSpeaks (w : Writes all t next send f []) (kept : ∀ task ∈ t.tasks, task ∈ all)
    (tasks : next.tasks = t.tasks) (done : next.finished = t.finished ++ [send.call]) : Speaks next := by
  obtain ⟨sent,ith,named,spoke⟩ := writesSpoke w
  obtain ⟨called,settled⟩ := writesOwner w
  refine ⟨fun g after mem => ?_,?_,fun other mem => ?_,called,settled,fun call mem => ?_,fun x => ?_⟩
  · exact w.speaks.plain g after (kept _ (tasks ▸ mem))
  · rw [tasks]
    exact (List.nodup_cons.mp (writesCalls w)).2
  · exact writesOthers w other (tasks ▸ mem)
  · rw [done,mem_append,mem_singleton] at mem
    rw [w.sends]
    rcases mem with old | rfl
    · exact w.speaks.finished call old
    exact (List.getElem?_eq_some_iff.mp ith).1
  have before : (spoken x t).2 = returnedData x t := w.speaks.returned x
  simp only [returnedData,done,w.sends,List.filterMap_append,List.filterMap_cons,List.filterMap_nil,ith] at before ⊢
  by_cases eq : x = send.id
  · subst eq
    rw [spokeFinal spoke,before,if_pos named]
  rw [(writesForeign w eq).1,before,if_neg (by rw [named]; exact Ne.symm eq),append_nil]

theorem sentMoreSpeaks (w : Writes all t next send f rest) (kept : ∀ task ∈ t.tasks, task ∈ all) (more : rest ≠ [])
    (tasks : next.tasks = t.tasks ++ [.credit send.tail]) (done : next.finished = t.finished) : Speaks next := by
  obtain ⟨sent,ith,named,spoke⟩ := writesSpoke w
  obtain ⟨now,said,later⟩ := spokeMore spoke more
  obtain ⟨called,settled⟩ := writesOwner w
  have added : sendings next.tasks = sendings t.tasks ++ [send.tail] := by rw [tasks,sendingsAppend]; rfl
  refine ⟨fun g after mem => ?_,?_,fun other mem => ?_,called,settled,?_,fun x => ?_⟩
  · rw [tasks,mem_append] at mem
    exact w.speaks.plain g after (kept _ (mem.resolve_right nofun))
  · rw [added,map_append]
    exact (List.perm_append_singleton send.call _).nodup_iff.mpr (writesCalls w)
  · rw [added,mem_append,mem_singleton] at mem
    rcases mem with old | rfl
    · exact writesOthers w other old
    refine ⟨sent,by rw [w.sends]; exact ith,named,.under now ?_⟩
    simpa [Sending.tail,w.todo] using later
  · rw [done,w.sends]
    exact w.speaks.finished
  rw [returnedSame done w.sends]
  by_cases eq : x = send.id
  · subst eq
    rw [said]
    exact w.speaks.returned send.id
  rw [(writesForeign w eq).1]
  exact w.speaks.returned x
end

theorem ranSpeaks (h : Ran c t ok task next out)
    (speaks : Speaks { t with tasks := all }) (ith : (sendings all).Perm ((sending task).toList ++ sendings t.tasks))
    (kept : ∀ task ∈ t.tasks, task ∈ all)
    (alone : ok = true → ∀ send f rest, task = .writeData send → send.todo = f :: rest →
      kind f.typ = .data ∨ unfinished send.id t.wrote = none ∨ unfinished send.id t.wrote = some send.call) :
    Speaks next := by
  have fewer : (sendings t.tasks).Subperm (sendings all) := (List.sublist_append_right _ _).subperm.trans ith.symm.subperm
  have quiet (only : sending task = none) (wrote : next.wrote = t.wrote) (finished : next.finished = t.finished)
      (sends : next.sends = t.sends) : Speaks next := by
    obtain ⟨more,tasks,spawned⟩ := ranSpawns h
    exact speaksSpawned speaks wrote finished sends
      ⟨more,tasks,fun new mem => followsSilent (spawned new mem) only⟩ kept fewer
  have stopped (tasks : next.tasks = t.tasks) (wrote : next.wrote = t.wrote) (finished : next.finished = t.finished)
      (sends : next.sends = t.sends) : Speaks next :=
    speaksSpawned speaks wrote finished sends ⟨[],by rw [tasks,append_nil],nofun⟩ kept fewer
  have ran {new : Task} {send : Sending} (was : sending task = some send) (is : sending new = some send)
      (tasks : next.tasks = t.tasks ++ [new]) (wrote : next.wrote = t.wrote) (finished : next.finished = t.finished)
      (sends : next.sends = t.sends) : Speaks next := by
    refine speaksKept speaks wrote finished sends (fun f after mem => ?_) ?_
    · rw [tasks,mem_append,mem_singleton] at mem
      rcases mem with old | rfl
      · exact speaks.plain f after (kept _ old)
      simp [sending] at is
    rw [was] at ith
    have added : sendings [new] = [send] := by simp [sendings,is]
    rw [tasks,sendingsAppend,added]
    exact ((List.perm_append_singleton _ _).trans ith.symm).subperm
  cases h with
  | registered h => cases h <;> exact quiet rfl rfl rfl rfl
  | @wrote _ after | @unwritten _ after => cases after <;> exact quiet rfl rfl rfl rfl
  | credited | connected => exact ran rfl rfl rfl rfl rfl rfl
  | starved | unconnected | unsent => exact stopped rfl rfl rfl rfl
  | @sentLast send f todo _ _ done =>
    exact sentLastSpeaks ⟨speaks,ith,todo,alone done send f [] rfl todo,rfl,rfl⟩ kept rfl rfl
  | @sentMore send f rest todo more _ _ done =>
    exact sentMoreSpeaks ⟨speaks,ith,todo,alone done send f rest rfl todo,rfl,rfl⟩ kept more rfl rfl
  | failedAll => exact quiet rfl (by simp) (by simp) (by simp)
  | _ => exact quiet rfl rfl rfl rfl

theorem undisturbedExact {send}
    (fits : undisturbed t (.task index true) = true) (ith : t.tasks[index]? = some (.writeData send))
    (todo : send.todo = f :: rest) :
    kind f.typ = .data ∨ unfinished send.id t.wrote = none ∨ unfinished send.id t.wrote = some send.call := by
  simpa only [undisturbed,ith,todo,decide_eq_true_eq] using fits

theorem stepSpeaks (h : Step c t a next out) (speaks : Speaks t) (fits : undisturbed t a = true) : Speaks next := by
  cases h with
  | called h => exact calledSpeaks h speaks
  | looped h => exact loopedSpeaks h speaks
  | @ran _ _ task _ _ ith h =>
    refine ranSpeaks h speaks (sendingsErase ith) (fun task => List.mem_of_mem_eraseIdx) ?_
    rintro rfl send f rest rfl todo
    have allowed := undisturbedExact fits ith todo
    exact allowed

theorem stepSpoken (h : Step c t a next out) (speaks : Speaks t)
    (eq : ∀ x, joins x frames = spoken x t) (x) : joins x (frames ++ out) = spoken x next := by
  have quiet (wrote : next.wrote = t.wrote) : joins x (frames ++ []) = spoken x next := by
    rw [append_nil,eq,spoken,spoken,wrote]
  cases h with
  | called h => exact quiet (calledLogs h).1
  | looped h => exact quiet (loopedLogs h).1
  | @ran _ _ _ _ _ ith h =>
    cases h with
    | registered h => cases h <;> exact quiet rfl
    | @wrote f after =>
      have plain := speaks.plain f after (List.mem_of_getElem? ith)
      rw [joinsMore,plainAsked plain,eq]
      cases after <;> rfl
    | @unwritten _ after => cases after <;> exact quiet rfl
    | sentLast | sentMore =>
      rw [joinsMore,eq]
      exact (spokenMore rfl).symm
    | failedAll => exact quiet (by simp)
    | _ => exact quiet rfl

theorem takenSpeaks (took : takeFrame c t f = some next) (speaks : Speaks t) : Speaks next := by
  obtain ⟨_,_,rfl⟩ := takeExact took
  exact speaksSpawned speaks rfl rfl rfl ⟨[],by simp,nofun⟩ (fun _ mem => mem) (List.Subperm.refl _)

theorem speaksStart (c s) : Speaks (newTransport c s) where
  plain _ _ member := nomatch member
  once := .nil
  sends _ member := nomatch member
  called _ _ isOwner := nomatch isOwner
  settled _ _ := rfl
  finished _ member := nomatch member
  returned _ := rfl

end Gofly.MuxSender
