import Gofly.MuxTransport

/-! What a step of the machine can do, said once: a relation with one case for each branch, its
guards as hypotheses and the state after it written out. -/
namespace Gofly.MuxSteps
open ByteReader BinaryFrame MuxFrame MuxMessage MuxState MuxTransport Duplex
open FramedTransport (encodeMessage)
open Option (bind_eq_some_iff map_eq_some_iff)

def seeks : Loop → Option (UInt64 × Job)
  | .got f =>
    match kind f.typ with
    | .opens => some (f.streamID,.opens)
    | .data => some (f.streamID,.data f.payload)
    | .dataFrag => some (f.streamID,.frag f.payload)
    | .dataEnd => some (f.streamID,.last f.payload)
    | _ => none
  | .relook id payload stream connection => some (id,.whole payload stream connection)
  | _ => none

def ends (f : Frame) : Option MuxError :=
  match kind f.typ with
  | .close => some .eof
  | .cancel => some (.status f.code f.reason)
  | _ => none

def carries : Job → Option (Bytes × UInt32 × UInt32)
  | .data payload => some (payload,1,1)
  | .whole payload stream connection => some (payload,stream,connection)
  | _ => none

variable (c : Config) (t : Transport)

inductive Sought (id : UInt64) (job : Job) : Transport → Prop where
  | found {ref} (registered : lookupStream t id = some ref) :
      Sought id job { t with loop := .found ref job }
  | rejected {reason} (absent : lookupStream t id = none)
      (refuses : t.draining = true ∨ full c t = true) :
      Sought id job (rejectStream t id reason)
  | created (absent : lookupStream t id = none) (serving : t.draining = false)
      (room : full c t = false) :
      Sought id job { createStream c t id with
        loop := if t.closed then .found t.objects.length job else .accepting t.objects.length job }

theorem soughtOf (id job) : Sought c t id job (getOrAcceptStream c t id job) := by
  unfold getOrAcceptStream
  split
  · rename_i known
    exact .found known
  rename_i gone
  split
  · rename_i draining
    exact .rejected gone (.inl draining)
  rename_i serving
  split
  · rename_i crowded
    exact .rejected gone (.inr crowded)
  rename_i room
  exact .created gone (by simpa using serving) (by simpa using room)

inductive Delivered (s : Stream) (event : Event) : Bool → Stream → Prop where
  | pushed (room : s.recv.length < c.receiveQueueSize) :
      Delivered s event true { s with recv := s.recv ++ [event] }
  | dropped (gone : s.done = true ∨ t.done = true) : Delivered s event false s

theorem deliveredOf {c t} (h : deliver c t s event ok = some next) : Delivered c t s event ok next := by
  cases ok with
  | true =>
    simp only [deliver,if_true] at h
    split at h <;> cases h
    exact .pushed ‹_›
  | false =>
    simp only [deliver,Bool.false_eq_true,if_false] at h
    split at h <;> cases h
    exact .dropped ‹_›

inductive Dispatched (f : Frame) : Transport → Prop where
  | sought {id job next} (asks : seeks (.got f) = some (id,job)) (h : Sought c t id job next) :
      Dispatched f next
  | terminated {ref err} (isEnd : ends f = some err) (registered : lookupStream t f.streamID = some ref) :
      Dispatched f { t with loop := .terminal ref err true true }
  | unknown {err} (isEnd : ends f = some err) (absent : lookupStream t f.streamID = none) :
      Dispatched f { t with loop := .removing f.streamID }
  | finished {ref} (isFin : kind f.typ = .fin) (registered : lookupStream t f.streamID = some ref) :
      Dispatched f { t with loop := .terminal ref .eof false false }
  | windowed {ref} (isWindow : kind f.typ = .window) (registered : lookupStream t f.streamID = some ref) :
      Dispatched f { t with
        objects := t.objects.modify ref fun s => addCredit c s f.window.toNat
        loop := .idle }
  | windowedConn (isWindow : kind f.typ = .windowConn) :
      Dispatched f { addConnectionCredit c t f.window.toNat with loop := .idle }
  | ponged (isPing : kind f.typ = .ping) :
      Dispatched f { spawn t [.write pongFrame .nothing] with loop := .idle }
  | ignored (isQuiet : kind f.typ = .pong ∨ lookupStream t f.streamID = none ∧
        (kind f.typ = .fin ∨ kind f.typ = .window)) : Dispatched f { t with loop := .idle }
  | goneAway (isGoAway : kind f.typ = .goAway) :
      Dispatched f { t with remoteDraining := true,loop := .idle }
  | unsupported (isOther : kind f.typ = .unsupported) :
      Dispatched f { t with loop := .failed (.unsupported f.typ) }

theorem dispatchedOf (f) : Dispatched c t f (dispatchFrame c t f) := by
  unfold dispatchFrame
  split <;> rename_i isKind
  case h_1 | h_2 | h_3 | h_4 => exact .sought (by simp only [seeks,isKind]) (soughtOf c t _ _)
  case h_5 =>
    have isEnd : ends f = some .eof := by simp only [ends,isKind]
    split
    · exact .terminated isEnd ‹_›
    exact .unknown isEnd ‹_›
  case h_6 =>
    have isEnd : ends f = some (.status f.code f.reason) := by simp only [ends,isKind]
    split
    · exact .terminated isEnd ‹_›
    exact .unknown isEnd ‹_›
  case h_7 =>
    split
    · exact .windowed isKind ‹_›
    exact .ignored (.inr ⟨‹_›,.inr isKind⟩)
  case h_8 => exact .windowedConn isKind
  case h_9 =>
    split
    · exact .finished isKind ‹_›
    exact .ignored (.inr ⟨‹_›,.inl isKind⟩)
  case h_10 => exact .ponged isKind
  case h_11 => exact .ignored (.inl isKind)
  case h_12 => exact .goneAway isKind
  case h_13 => exact .unsupported isKind

inductive Found (ref : Nat) (s : Stream) : Job → Transport → Prop where
  | opens : Found ref s .opens { t with loop := .idle }
  | malformed {job payload stream connection e} (carried : carries job = some (payload,stream,connection))
      (bad : dispatchDataPayload c payload = .error e) : Found ref s job { t with loop := .failed e }
  | decoded {job payload stream connection msg} (carried : carries job = some (payload,stream,connection))
      (good : dispatchDataPayload c payload = .ok msg) :
      Found ref s job { t with loop := .delivering ref ⟨.ok msg,payload,stream,connection⟩ false }
  | fragTooLong {payload e} (long : appendFragment c s.assembly payload = .error e) :
      Found ref s (.frag payload) { t with loop := .failed e }
  | appended {payload assembly} (fits : appendFragment c s.assembly payload = .ok assembly) :
      Found ref s (.frag payload)
        { spawn (setStream t ref { s with assembly := assembly }) (sendFragmentWindowUpdates c s.id) with
          loop := .idle }
  | lastTooLong {payload e} (long : finishFragments c s.assembly payload = .error e) :
      Found ref s (.last payload)
        { setStream t ref { s with assembly := .empty } with loop := .failed e }
  | assembled {payload whole fragments} (fits : finishFragments c s.assembly payload = .ok (whole,fragments)) :
      Found ref s (.last payload)
        { spawn (setStream t ref { s with assembly := .empty })
            (if fragments = 0 then [] else sendFragmentWindowUpdates c s.id) with
          loop := .relook s.id whole (fragmentWindowUpdates c fragments).1
            (fragmentWindowUpdates c fragments).2 }

theorem foundOf (ref s job) : Found c t ref s job (dispatchFound c t ref s job) := by
  have data : ∀ job payload stream conn, carries job = some (payload,stream,conn) →
      Found c t ref s job (deliverData c t ref payload stream conn) := by
    intro job payload stream conn carried
    unfold deliverData
    split
    · exact .malformed carried ‹_›
    exact .decoded carried ‹_›
  cases job with
  | opens => exact .opens
  | data | whole => exact data _ _ _ _ rfl
  | frag =>
    simp only [dispatchFound]
    split
    · exact .fragTooLong ‹_›
    exact .appended ‹_›
  | last =>
    simp only [dispatchFound]
    split
    · exact .lastTooLong ‹_›
    exact .assembled ‹_›

inductive Looped (ok : Bool) : Transport → Prop where
  | dispatched {f next} (here : t.loop = .got f) (h : Dispatched c t f next) : Looped ok next
  | relooked {id payload stream connection next} (here : t.loop = .relook id payload stream connection)
      (h : Sought c t id (.whole payload stream connection) next) : Looped ok next
  | removed {id} (here : t.loop = .removing id) : Looped ok { deleteStream t id with loop := .idle }
  | failed {err} (here : t.loop = .failed err) : Looped ok { failAll t err with loop := .stopped }
  | accepted {ref job} (here : t.loop = .accepting ref job) (room : t.accept.length < 64) :
      Looped ok { t with accept := t.accept ++ [ref],loop := .found ref job }
  | unaccepted {ref job s} (here : t.loop = .accepting ref job) (gone : t.done = true)
      (object : t.objects[ref]? = some s) (untold : s.remoteDone = false) :
      Looped ok { setStream t ref { s with remoteDone := true } with loop := .abandoning ref job }
  | unacceptedTold {ref job s} (here : t.loop = .accepting ref job) (gone : t.done = true)
      (object : t.objects[ref]? = some s) (told : s.remoteDone = true) :
      Looped ok { t with loop := .forsaken ref job }
  | abandoned {ref job s next} (here : t.loop = .abandoning ref job) (object : t.objects[ref]? = some s)
      (h : Delivered c t s (.terminal .transportClosed) ok next) :
      Looped ok { setStream t ref next with loop := .forsaken ref job }
  | forsaken {ref job s} (here : t.loop = .forsaken ref job) (object : t.objects[ref]? = some s) :
      Looped ok { setStream t ref { s with done := true } with loop := .found ref job }
  | found {ref job s next} (here : t.loop = .found ref job) (object : t.objects[ref]? = some s)
      (h : Found c t ref s job next) : Looped ok next
  | aborted {ref err remove s} (here : t.loop = .terminal ref err true remove)
      (object : t.objects[ref]? = some s) :
      Looped ok { setStream t ref { s with aborted := true } with loop := .terminal ref err false remove }
  | already {ref err remove s} (here : t.loop = .terminal ref err false remove)
      (object : t.objects[ref]? = some s) (told : s.remoteDone = true) :
      Looped ok { t with loop := afterDelivery s.id remove }
  | marked {ref err remove s} (here : t.loop = .terminal ref err false remove)
      (object : t.objects[ref]? = some s) (untold : s.remoteDone = false) :
      Looped ok { setStream t ref { s with remoteDone := true } with
        loop := .delivering ref (.terminal err) remove }
  | delivered {ref event remove s next} (here : t.loop = .delivering ref event remove)
      (object : t.objects[ref]? = some s) (h : Delivered c t s event ok next) :
      Looped ok { setStream t ref next with loop := afterDelivery s.id remove }

theorem loopedOf {c t} (h : runLoop c t ok = some next) : Looped c t ok next := by
  unfold runLoop at h
  split at h <;> try contradiction
  case h_3 f here =>
    cases h
    exact .dispatched here (dispatchedOf c t f)
  case h_4 id data stream conn here =>
    cases h
    exact .relooked here (soughtOf c t _ _)
  case h_5 id here =>
    cases h
    exact .removed here
  case h_6 err here =>
    cases h
    exact .failed here
  case h_7 ref job here =>
    split at h
    · split at h <;> cases h
      exact .accepted here (by assumption)
    split at h <;> try contradiction
    rename_i gone
    simp only [bind,bind_eq_some_iff] at h
    obtain ⟨s,obj,last⟩ := h
    cases last
    split
    · exact .unacceptedTold here gone obj (by assumption)
    rename_i untold
    exact .unaccepted here gone obj (by simpa using untold)
  case h_8 ref job here =>
    simp only [bind,bind_eq_some_iff] at h
    obtain ⟨s,obj,next,put,last⟩ := h
    cases last
    exact .abandoned here obj (deliveredOf put)
  case h_9 ref job here =>
    simp only [bind,bind_eq_some_iff] at h
    obtain ⟨s,obj,last⟩ := h
    cases last
    exact .forsaken here obj
  case h_10 ref job here =>
    simp only [bind,bind_eq_some_iff] at h
    obtain ⟨s,obj,last⟩ := h
    cases last
    exact .found here obj (foundOf c t ref s job)
  case h_11 ref err abort remove here =>
    simp only [bind,bind_eq_some_iff] at h
    obtain ⟨s,obj,last⟩ := h
    cases last
    cases abort with
    | true => exact .aborted here obj
    | false =>
      simp only [Bool.false_eq_true,if_false]
      split
      · exact .already here obj (by assumption)
      rename_i untold
      exact .marked here obj (by simpa using untold)
  case h_12 ref event remove here =>
    simp only [bind,bind_eq_some_iff] at h
    obtain ⟨s,obj,next,put,last⟩ := h
    cases last
    exact .delivered here obj (deliveredOf put)

inductive Registered (id : UInt64) : Transport → Nat → Prop where
  | found {ref} (live : t.closed = false) (registered : lookupStream t id = some ref) : Registered id t ref
  | created (live : t.closed = false) (absent : lookupStream t id = none)
      (serving : t.draining = false ∧ t.remoteDraining = false ∧ full c t = false) :
      Registered id (createStream c t id) t.objects.length

theorem registeredOf {c t id} (h : registerStream c t id = some (next,ref)) : Registered c t id next ref := by
  unfold registerStream at h
  split at h <;> try contradiction
  rename_i live
  split at h
  · rename_i ref known
    cases h
    exact .found (by simpa using live) known
  rename_i gone
  split at h <;> cases h
  rename_i refuses
  exact .created (by simpa using live) gone (by simpa using refuses)

inductive Ran (ok : Bool) : Task → Transport → List Frame → Prop where
  | refused {id} (h : registerStream c t id = none) : Ran ok (.register id) t []
  | registered {id next ref} (h : Registered c t id next ref) :
      Ran ok (.register id)
        { spawn next [.write (openFrame id) (.opened ref)] with opened := t.opened ++ [id] } []
  | wrote {f next} (done : ok = true) (up : t.connDown = false) (fits : writable c f = true) :
      Ran ok (.write f next) (afterWrite t next) [f]
  | unwritten {f next} (failed : ok = false) : Ran ok (.write f next) (afterWriteError t f.streamID next) []
  | credited {send s} (object : t.objects[send.ref]? = some s) (credit : 0 < s.credit) :
      Ran ok (.credit send)
        (spawn (setStream t send.ref { s with credit := s.credit - 1 }) [.connCredit send]) []
  | starved {send} : Ran ok (.credit send) t []
  | connected {send} (credit : 0 < t.connCredit) :
      Ran ok (.connCredit send) (spawn { t with connCredit := t.connCredit - 1 } [.writeData send]) []
  | unconnected {send} : Ran ok (.connCredit send) (releaseCredit c t send.ref) []
  | sentLast {send f} (todo : send.todo = [f]) (up : t.connDown = false) (fits : writable c f = true)
      (done : ok = true) :
      Ran ok (.writeData send)
        { t with wrote := t.wrote ++ [(send.call,f)],finished := t.finished ++ [send.call] } [f]
  | sentMore {send f rest} (todo : send.todo = f :: rest) (more : rest ≠ []) (up : t.connDown = false)
      (fits : writable c f = true) (done : ok = true) :
      Ran ok (.writeData send)
        (spawn { t with wrote := t.wrote ++ [(send.call,f)] } [.credit send.tail]) [f]
  | unsent {send} : Ran ok (.writeData send) (releaseCredit c (addConnectionCredit c t 1) send.ref) []
  | removed {ref s} (object : t.objects[ref]? = some s) :
      Ran ok (.removeStream ref)
        (spawn (deleteStream t s.id)
          ((lookupStream t s.id).toList.map Task.closeDone ++ [.closeDone ref])) []
  | kept {id} : Ran ok (.removeIfDone id) t []
  | removedDone {id ref s} (registered : lookupStream t id = some ref) (object : t.objects[ref]? = some s)
      (both : s.localDone = true ∧ s.remoteDone = true) :
      Ran ok (.removeIfDone id) (spawn (deleteStream t id) [.closeDone ref]) []
  | closedDone {ref s} (object : t.objects[ref]? = some s) :
      Ran ok (.closeDone ref) (setStream t ref { s with done := true }) []
  | failedAll {who err} : Ran ok (.failMark who err []) (finishClose t who) []
  | failSkipped {who err ref refs s} (object : t.objects[ref]? = some s) (told : s.remoteDone = true) :
      Ran ok (.failMark who err (ref :: refs)) (spawn t [.failDone who err ref refs]) []
  | failMarked {who err ref refs s} (object : t.objects[ref]? = some s) (untold : s.remoteDone = false) :
      Ran ok (.failMark who err (ref :: refs))
        (spawn (setStream t ref { s with remoteDone := true }) [.failDeliver who err ref refs]) []
  | failDelivered {who err ref refs s next} (object : t.objects[ref]? = some s)
      (h : Delivered c t s (.terminal err) ok next) :
      Ran ok (.failDeliver who err ref refs) (spawn (setStream t ref next) [.failDone who err ref refs]) []
  | failDone {who err ref refs s} (object : t.objects[ref]? = some s) :
      Ran ok (.failDone who err ref refs)
        (spawn (setStream t ref { s with done := true }) [.failMark who err refs]) []

theorem ranOf {c t} (h : runTask c t ok task = some (next,out)) : Ran c t ok task next out := by
  cases task with
  | register =>
    simp only [runTask] at h
    split at h
    · cases h
      exact .refused (by assumption)
    cases h
    exact .registered (registeredOf (by assumption))
  | write =>
    simp only [runTask] at h
    split at h
    · rename_i done
      split at h <;> cases h
      rename_i ready
      exact .wrote done ready.1 ready.2
    rename_i failed
    cases h
    exact .unwritten (by simpa using failed)
  | credit =>
    simp only [runTask] at h
    split at h
    · simp only [bind,bind_eq_some_iff] at h
      obtain ⟨s,obj,h⟩ := h
      split at h <;> cases h
      exact .credited obj (by assumption)
    cases h
    exact .starved
  | connCredit =>
    simp only [runTask] at h
    split at h
    · split at h <;> cases h
      exact .connected (by assumption)
    cases h
    exact .unconnected
  | writeData =>
    simp only [runTask] at h
    split at h <;> try contradiction
    rename_i todo
    split at h
    · rename_i done
      split at h <;> cases h
      rename_i ready
      split
      · rename_i empty
        exact .sentLast (by rw [todo,empty]) ready.1 ready.2 done
      rename_i more
      exact .sentMore todo more ready.1 ready.2 done
    cases h
    exact .unsent
  | removeStream =>
    simp only [runTask,bind,bind_eq_some_iff] at h
    obtain ⟨s,obj,last⟩ := h
    cases last
    exact .removed obj
  | removeIfDone =>
    simp only [runTask] at h
    split at h
    · cases h
      exact .kept
    rename_i known
    simp only [bind,bind_eq_some_iff] at h
    obtain ⟨s,obj,last⟩ := h
    cases last
    split
    · exact .removedDone known obj (by assumption)
    exact .kept
  | closeDone =>
    simp only [runTask,bind,bind_eq_some_iff] at h
    obtain ⟨s,obj,last⟩ := h
    cases last
    exact .closedDone obj
  | failMark _ _ refs =>
    cases refs with
    | nil =>
      cases h
      exact .failedAll
    | cons =>
      simp only [runTask,bind,bind_eq_some_iff] at h
      obtain ⟨s,obj,last⟩ := h
      cases last
      split
      · exact .failSkipped obj (by assumption)
      rename_i untold
      exact .failMarked obj (by simpa using untold)
  | failDeliver =>
    simp only [runTask,bind,bind_eq_some_iff] at h
    obtain ⟨s,obj,put,hPut,last⟩ := h
    cases last
    exact .failDelivered obj (deliveredOf hPut)
  | failDone =>
    simp only [runTask,bind,bind_eq_some_iff] at h
    obtain ⟨s,obj,last⟩ := h
    cases last
    exact .failDone obj

theorem ranLoop {c t} (h : Ran c t ok task next out) : next.loop = t.loop := by
  cases h with
  | registered h => cases h <;> rfl
  | @wrote _ after | @unwritten _ after => cases after <;> rfl
  | failedAll => simp
  | _ => rfl

inductive Called : Act → Transport → Prop where
  | openStream : Called .openStream (spawn { t with nextID := t.nextID + 2 } [.register t.nextID])
  | acceptStream {ref rest} (waiting : t.accept = ref :: rest) :
      Called .acceptStream { t with
        accept := rest
        handles := t.handles ++ [ref]
        accepted := t.accepted ++ [refID t ref] }
  | send {ref s msg data frames} (object : t.objects[ref]? = some s) (handle : ref ∈ t.handles)
      (may : s.localClosed = false ∧ s.localDone = false ∧ s.aborted = false)
      (encoded : encodeMessage c.codecs msg = some data) (cut : dataFrames c s.id data = .ok frames) :
      Called (.send ref msg) { spawn t [.credit ⟨t.sends.length,ref,s.id,frames,dataFramesPlain cut⟩] with
        sends := t.sends ++ [⟨s.id,msg,data⟩] }
  | received {ref s event rest} (object : t.objects[ref]? = some s) (handle : ref ∈ t.handles)
      (head : s.recv = event :: rest) :
      Called (.receive ref false)
        (spawn (setStream t ref { s with recv := rest,returned := s.returned ++ [event] })
          (afterReceive ref s.id event))
  | receivedDone {ref s event rest} (object : t.objects[ref]? = some s) (handle : ref ∈ t.handles)
      (head : s.recv = event :: rest) (gone : s.done = true) :
      Called (.receive ref true)
        (setStream t ref { s with recv := rest,returned := s.returned ++ [event] })
  | closeSend {ref s reason} (object : t.objects[ref]? = some s) (handle : ref ∈ t.handles)
      (may : s.localClosed = false ∧ s.localDone = false) :
      Called (.closeSend ref reason) (spawn (setStream t ref { s with localDone := true })
        [.write (finFrame s.id reason) (.halfClosed s.id)])
  | closeWithCode {ref s code reason} (object : t.objects[ref]? = some s) (handle : ref ∈ t.handles)
      (may : s.localClosed = false) :
      Called (.closeWithCode ref code reason) (spawn (setStream t ref { s with localClosed := true })
        [.write (closeFrame s.id code reason) (.closed ref)])
  | drain {reason} (serving : t.closed = false) (first : t.draining = false) :
      Called (.drain reason) (spawn { t with draining := true } [.write (goAwayFrame reason) .nothing])
  | drainAgain {reason} (draining : t.draining = true) : Called (.drain reason) t
  | close (first : t.once = .idle) (serving : t.closed = false) :
      Called .close { t with
        closed := true
        once := .running
        streams := []
        tasks := t.tasks ++ [.failMark .close .transportClosed t.streams] }
  | closeLate (first : t.once = .idle) (shut : t.closed = true) :
      Called .close { t with once := .finished }
  | sendPing : Called .sendPing (spawn t [.write pingFrame .nothing])
  | keepaliveFail {err} : Called (.keepaliveFail err) (failAll t err)
  | connFail : Called .connFail { t with connDown := true }
  | readFail (here : t.loop = .idle) : Called .readFail { t with loop := .failed .connection }

inductive Step : Act → Transport → List Frame → Prop where
  | called {a next} (h : Called c t a next) : Step a next []
  | ran {index ok task next out} (listed : t.tasks[index]? = some task)
      (h : Ran c { t with tasks := t.tasks.eraseIdx index } ok task next out) : Step (.task index ok) next out
  | looped {ok next} (h : Looped c t ok next) : Step (.loop ok) next []

theorem onHandleExact {t} (h : onHandle t ref f = some (next,out)) :
    ∃ s, t.objects[ref]? = some s ∧ ref ∈ t.handles ∧ f s = some next ∧ out = [] := by
  simp only [onHandle,bind,bind_eq_some_iff] at h
  obtain ⟨s,obj,h⟩ := h
  split at h <;> try contradiction
  obtain ⟨u,acted,last⟩ := map_eq_some_iff.mp h
  cases last
  exact ⟨s,obj,by assumption,acted,rfl⟩

theorem sendOf {c t}
    (obj : t.objects[ref]? = some s) (handle : ref ∈ t.handles) (h : send c t ref s msg = some next) :
    Called c t (.send ref msg) next := by
  unfold send at h
  split at h <;> try contradiction
  rename_i may
  split at h <;> try contradiction
  rename_i encoded
  split at h <;> cases h
  exact .send obj handle may encoded ‹_›

theorem receiveOf {c t}
    (obj : t.objects[ref]? = some s) (handle : ref ∈ t.handles) (h : receive t ref s done = some next) :
    Called c t (.receive ref done) next := by
  unfold receive at h
  split at h <;> try contradiction
  rename_i head
  cases done with
  | false =>
    cases h
    exact .received obj handle head
  | true =>
    simp only [if_true] at h
    split at h <;> cases h
    exact .receivedDone obj handle head ‹_›

theorem stepOf {c t} (h : act c t a = some (next,out)) : Step c t a next out := by
  cases a with
  | openStream => cases h; exact .called .openStream
  | acceptStream =>
    simp only [act] at h
    split at h <;> cases h
    exact .called (.acceptStream (by assumption))
  | send =>
    obtain ⟨s,obj,handle,sent,rfl⟩ := onHandleExact h
    exact .called (sendOf obj handle sent)
  | receive =>
    obtain ⟨s,obj,handle,got,rfl⟩ := onHandleExact h
    exact .called (receiveOf obj handle got)
  | closeSend =>
    obtain ⟨s,obj,handle,shut,rfl⟩ := onHandleExact h
    unfold closeSend at shut
    split at shut <;> cases shut
    rename_i may
    exact .called (.closeSend obj handle (by simpa using may))
  | closeWithCode =>
    obtain ⟨s,obj,handle,shut,rfl⟩ := onHandleExact h
    unfold closeWithCode at shut
    split at shut <;> cases shut
    rename_i may
    exact .called (.closeWithCode obj handle (by simpa using may))
  | drain =>
    obtain ⟨u,drained,last⟩ := map_eq_some_iff.mp h
    cases last
    unfold drain at drained
    split at drained <;> cases drained
    rename_i serving
    split
    · exact .called (.drainAgain (by assumption))
    rename_i first
    exact .called (.drain (by simpa using serving) (by simpa using first))
  | close =>
    obtain ⟨u,shut,last⟩ := map_eq_some_iff.mp h
    cases last
    unfold close at shut
    split at shut <;> cases shut
    rename_i first
    split
    · exact .called (.closeLate first (by assumption))
    rename_i serving
    exact .called (.close first (by simpa using serving))
  | sendPing => cases h; exact .called .sendPing
  | keepaliveFail => cases h; exact .called .keepaliveFail
  | connFail => cases h; exact .called .connFail
  | readFail =>
    simp only [act] at h
    split at h <;> cases h
    exact .called (.readFail (by assumption))
  | task =>
    simp only [act] at h
    split at h <;> try contradiction
    rename_i task ith
    exact .ran ith (ranOf h)
  | loop =>
    obtain ⟨u,ran,last⟩ := map_eq_some_iff.mp h
    cases last
    exact .looped (loopedOf ran)

theorem takeExact {c t} (h : takeFrame c t f = some next) : t.loop = .idle ∧ t.connDown = false ∧ next = { t with
      loop := if (frameBytes f).length ≤ c.maxFrame then .got f else .failed .frameTooLarge } := by
  unfold takeFrame at h
  split at h <;> try contradiction
  rename_i here
  split at h <;> cases h
  rename_i up
  exact ⟨here,by simpa using up,rfl⟩

theorem linkCases (h : Duplex.step (parties cfg) l m = some next) (fits : kept rule cfg l m = true) :
    (∃ s a t outs, Advance l s [] t outs next ∧ rule.acts (cfg s) (l.party s) a = true ∧
      Step (cfg s) (l.party s) a t outs) ∨ (∃ s f t, Advance l s [f] t [] next ∧ rule.takes (cfg s) f = true ∧
      takeFrame (cfg s) (l.party s) f = some t) := by
  obtain ⟨ins,t,outs,ran,worked⟩ := stepAdvance h
  cases m with
  | act s a =>
    obtain ⟨rfl,acted⟩ := worked
    exact .inl ⟨s,a,t,outs,ran,fits,stepOf acted⟩
  | take s =>
    obtain ⟨f,rfl,rfl,took⟩ := worked
    have head : l.wire s.other = f :: next.wire s.other := ran.takes
    simp only [kept,head] at fits
    exact .inr ⟨s,f,t,ran,fits,took⟩

end Gofly.MuxSteps
