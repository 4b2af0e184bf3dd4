import Gofly.MuxState

/-! The mux transport as one machine. -/
namespace Gofly.MuxTransport
open ByteReader BinaryFrame MuxFrame MuxMessage MuxState Duplex
open FramedTransport (encodeMessage plainCodecs)

variable (c : Config)

def dispatchFrame (t : Transport) (f : Frame) : Transport :=
  match kind f.typ with
  | .opens => getOrAcceptStream c t f.streamID .opens
  | .data => getOrAcceptStream c t f.streamID (.data f.payload)
  | .dataFrag => getOrAcceptStream c t f.streamID (.frag f.payload)
  | .dataEnd => getOrAcceptStream c t f.streamID (.last f.payload)
  | .close =>
    match lookupStream t f.streamID with
    | some ref => { t with loop := .terminal ref .eof true true }
    | none => { t with loop := .removing f.streamID }
  | .cancel =>
    match lookupStream t f.streamID with
    | some ref => { t with loop := .terminal ref (.status f.code f.reason) true true }
    | none => { t with loop := .removing f.streamID }
  | .window =>
    match lookupStream t f.streamID with
    | some ref =>
      { t with
        objects := t.objects.modify ref fun s => addCredit c s f.window.toNat
        loop := .idle }
    | none => { t with loop := .idle }
  | .windowConn => { addConnectionCredit c t f.window.toNat with loop := .idle }
  | .fin =>
    match lookupStream t f.streamID with
    | some ref => { t with loop := .terminal ref .eof false false }
    | none => { t with loop := .idle }
  | .ping => { spawn t [.write pongFrame .nothing] with loop := .idle }
  | .pong => { t with loop := .idle }
  | .goAway => { t with remoteDraining := true,loop := .idle }
  | .unsupported => { t with loop := .failed (.unsupported f.typ) }

def deliverData (t : Transport) (ref : Nat) (payload : Bytes) (stream connection : UInt32) : Transport :=
  match dispatchDataPayload c payload with
  | .error e => { t with loop := .failed e }
  | .ok msg => { t with loop := .delivering ref ⟨.ok msg,payload,stream,connection⟩ false }

def dispatchFound (t : Transport) (ref : Nat) (s : Stream) : Job → Transport
  | .opens => { t with loop := .idle }
  | .data payload => deliverData c t ref payload 1 1
  | .whole payload stream connection => deliverData c t ref payload stream connection
  | .frag payload =>
    match appendFragment c s.assembly payload with
    | .error e => { t with loop := .failed e }
    | .ok assembly =>
      { spawn (setStream t ref { s with assembly := assembly }) (sendFragmentWindowUpdates c s.id) with
        loop := .idle }
  | .last payload =>
    match finishFragments c s.assembly payload with
    | .error e => { setStream t ref { s with assembly := .empty } with loop := .failed e }
    | .ok (whole,fragments) =>
      { spawn (setStream t ref { s with assembly := .empty })
          (if fragments = 0 then [] else sendFragmentWindowUpdates c s.id) with
        loop := .relook s.id whole (fragmentWindowUpdates c fragments).1
          (fragmentWindowUpdates c fragments).2 }

-- deliver's select: the queue has room, or the stream or the transport is done
def deliver (t : Transport) (s : Stream) (event : Event) (ok : Bool) : Option Stream :=
  if ok then
    if s.recv.length < c.receiveQueueSize then some { s with recv := s.recv ++ [event] } else none
  else if s.done ∨ t.done then some s else none

def afterDelivery (id : UInt64) (remove : Bool) : Loop := if remove then .removing id else .idle

def runLoop (t : Transport) (ok : Bool) : Option Transport :=
  match t.loop with
  | .idle | .stopped => none
  | .got f => some (dispatchFrame c t f)
  | .relook id payload stream connection =>
    some (getOrAcceptStream c t id (.whole payload stream connection))
  | .removing id => some { deleteStream t id with loop := .idle }
  | .failed err => some { failAll t err with loop := .stopped }
  | .accepting ref job =>
    if ok then
      if t.accept.length < 64 then some { t with accept := t.accept ++ [ref],loop := .found ref job }
      else none
    else if t.done then do
      let s ← t.objects[ref]?
      some (if s.remoteDone then { t with loop := .forsaken ref job }
        else { setStream t ref { s with remoteDone := true } with loop := .abandoning ref job })
    else none
  | .abandoning ref job => do
    let s ← t.objects[ref]?
    let next ← deliver c t s (.terminal .transportClosed) ok
    some { setStream t ref next with loop := .forsaken ref job }
  | .forsaken ref job => do
    let s ← t.objects[ref]?
    some { setStream t ref { s with done := true } with loop := .found ref job }
  | .found ref job => do
    let s ← t.objects[ref]?
    some (dispatchFound c t ref s job)
  | .terminal ref err abort remove => do
    let s ← t.objects[ref]?
    some (if abort then
        { setStream t ref { s with aborted := true } with loop := .terminal ref err false remove }
      else if s.remoteDone then { t with loop := afterDelivery s.id remove }
      else { setStream t ref { s with remoteDone := true } with
        loop := .delivering ref (.terminal err) remove })
  | .delivering ref event remove => do
    let s ← t.objects[ref]?
    let next ← deliver c t s event ok
    some { setStream t ref next with loop := afterDelivery s.id remove }

def afterWrite (t : Transport) : AfterWrite → Transport
  | .nothing => t
  | .opened ref => { t with handles := t.handles ++ [ref] }
  | .halfClosed id => spawn t [.removeIfDone id]
  | .closed ref => spawn t [.removeStream ref]

def afterWriteError (t : Transport) (id : UInt64) : AfterWrite → Transport
  | .opened _ => deleteStream t id
  | _ => t

def finishClose (t : Transport) : Closer → Transport
  | .close => { t with done := true,connDown := true,once := .finished }
  | .failAll =>
    match t.once with
    | .idle => { t with done := true,connDown := true,once := .finished }
    | _ => t

@[simp] def releaseCredit (t : Transport) (ref : Nat) : Transport :=
  { t with objects := t.objects.modify ref fun s => addCredit c s 1 }

def runTask (t : Transport) (ok : Bool) : Task → Option (Transport × List Frame)
  | .register id =>
    match registerStream c t id with
    | none => some (t,[])
    | some (next,ref) =>
      some ({ spawn next [.write (openFrame id) (.opened ref)] with opened := t.opened ++ [id] },[])
  | .write f next =>
    if ok then
      if t.connDown = false ∧ writable c f then some (afterWrite t next,[f]) else none
    else some (afterWriteError t f.streamID next,[])
  | .credit send =>
    if ok then do
      let s ← t.objects[send.ref]?
      if 0 < s.credit then
        some (spawn (setStream t send.ref { s with credit := s.credit - 1 }) [.connCredit send],[])
      else none
    else some (t,[])
  | .connCredit send =>
    if ok then
      if 0 < t.connCredit then
        some (spawn { t with connCredit := t.connCredit - 1 } [.writeData send],[])
      else none
    else some (releaseCredit c t send.ref,[])
  | .writeData send =>
    match send.todo with
    | [] => none
    | f :: rest =>
      if ok then
        if t.connDown = false ∧ writable c f then
          some (if rest = [] then
              { t with wrote := t.wrote ++ [(send.call,f)],finished := t.finished ++ [send.call] }
            else
              spawn { t with wrote := t.wrote ++ [(send.call,f)] } [.credit send.tail],
            [f])
        else none
      else some (releaseCredit c (addConnectionCredit c t 1) send.ref,[])
  | .removeStream ref => do
    let s ← t.objects[ref]?
    some (spawn (deleteStream t s.id)
      ((lookupStream t s.id).toList.map Task.closeDone ++ [.closeDone ref]),[])
  | .removeIfDone id =>
    match lookupStream t id with
    | none => some (t,[])
    | some ref => do
      let s ← t.objects[ref]?
      some (if s.localDone ∧ s.remoteDone then spawn (deleteStream t id) [.closeDone ref] else t,[])
  | .closeDone ref => do
    let s ← t.objects[ref]?
    some (setStream t ref { s with done := true },[])
  | .failMark who err refs =>
    match refs with
    | [] => some (finishClose t who,[])
    | ref :: rest => do
      let s ← t.objects[ref]?
      some (if s.remoteDone then spawn t [.failDone who err ref rest]
        else spawn (setStream t ref { s with remoteDone := true }) [.failDeliver who err ref rest],[])
  | .failDeliver who err ref refs => do
    let s ← t.objects[ref]?
    let next ← deliver c t s (.terminal err) ok
    some (spawn (setStream t ref next) [.failDone who err ref refs],[])
  | .failDone who err ref refs => do
    let s ← t.objects[ref]?
    some (spawn (setStream t ref { s with done := true }) [.failMark who err refs],[])

inductive Act where
  | openStream
  | acceptStream
  | send (ref : Nat) (msg : Message)
  | receive (ref : Nat) (done : Bool)
  | closeSend (ref : Nat) (reason : Bytes)
  | closeWithCode (ref : Nat) (code reason : Bytes)
  | drain (reason : Bytes)
  | close
  | sendPing
  | keepaliveFail (err : MuxError)
  | connFail
  | readFail
  | task (index : Nat) (ok : Bool)
  | loop (ok : Bool)

def send (t : Transport) (ref : Nat) (s : Stream) (msg : Message) : Option Transport :=
  if s.localClosed = false ∧ s.localDone = false ∧ s.aborted = false then
    match encodeMessage c.codecs msg with
    | none => none
    | some data =>
      match cut : dataFrames c s.id data with
      | .error _ => none
      | .ok frames =>
        some { spawn t [.credit ⟨t.sends.length,ref,s.id,frames,dataFramesPlain cut⟩] with
          sends := t.sends ++ [⟨s.id,msg,data⟩] }
  else none

def afterReceive (ref : Nat) (id : UInt64) (event : Event) : List Task :=
  match event.body with
  | .error e => if e = .eof then [.removeIfDone id] else [.closeDone ref]
  | .ok _ =>
    sendWindowUpdateAsync id event.streamWindowUpdate ++
      sendConnectionWindowUpdateAsync event.connectionWindowUpdate

def receive (t : Transport) (ref : Nat) (s : Stream) (done : Bool) : Option Transport :=
  match s.recv with
  | [] => none
  | event :: rest =>
    let popped := setStream t ref { s with recv := rest,returned := s.returned ++ [event] }
    if done then if s.done then some popped else none
    else some (spawn popped (afterReceive ref s.id event))

def closeSend (t : Transport) (ref : Nat) (s : Stream) (reason : Bytes) : Option Transport :=
  if s.localClosed ∨ s.localDone then none
  else some (spawn (setStream t ref { s with localDone := true })
    [.write (finFrame s.id reason) (.halfClosed s.id)])

def closeWithCode (t : Transport) (ref : Nat) (s : Stream) (code reason : Bytes) : Option Transport :=
  if s.localClosed then none
  else some (spawn (setStream t ref { s with localClosed := true })
    [.write (closeFrame s.id code reason) (.closed ref)])

def drain (t : Transport) (reason : Bytes) : Option Transport :=
  if t.closed then none
  else some (if t.draining then t
    else spawn { t with draining := true } [.write (goAwayFrame reason) .nothing])

def close (t : Transport) : Option Transport :=
  if t.once = .idle then
    some (if t.closed then { t with once := .finished }
      else { t with
        closed := true
        once := .running
        streams := []
        tasks := t.tasks ++ [.failMark .close .transportClosed t.streams] })
  else none

def onHandle (t : Transport) (ref : Nat) (f : Stream → Option Transport) :
    Option (Transport × List Frame) := do
  let s ← t.objects[ref]?
  if ref ∈ t.handles then (f s).map (·,[]) else none

def refID (t : Transport) (ref : Nat) : UInt64 := (t.objects[ref]?.map Stream.id).getD 0

def act (t : Transport) : Act → Option (Transport × List Frame)
  | .openStream => some (spawn { t with nextID := t.nextID + 2 } [.register t.nextID],[])
  | .acceptStream =>
    match t.accept with
    | [] => none
    | ref :: rest =>
      some ({ t with
        accept := rest
        handles := t.handles ++ [ref]
        accepted := t.accepted ++ [refID t ref] },[])
  | .send ref msg => onHandle t ref fun s => send c t ref s msg
  | .receive ref done => onHandle t ref fun s => receive t ref s done
  | .closeSend ref reason => onHandle t ref fun s => closeSend t ref s reason
  | .closeWithCode ref code reason => onHandle t ref fun s => closeWithCode t ref s code reason
  | .drain reason => (drain t reason).map (·,[])
  | .close => (close t).map (·,[])
  | .sendPing => some (spawn t [.write pingFrame .nothing],[])
  | .keepaliveFail err => some (failAll t err,[])
  | .connFail => some ({ t with connDown := true },[])
  | .readFail =>
    match t.loop with
    | .idle => some ({ t with loop := .failed .connection },[])
    | _ => none
  | .task index ok =>
    match t.tasks[index]? with
    | none => none
    | some task => runTask c { t with tasks := t.tasks.eraseIdx index } ok task
  | .loop ok => (runLoop c t ok).map (·,[])

def takeFrame (t : Transport) (f : Frame) : Option Transport :=
  match t.loop with
  | .idle =>
    if t.connDown then none
    else some { t with
      loop := if (frameBytes f).length ≤ c.maxFrame then .got f else .failed .frameTooLarge }
  | _ => none

def party : Party Transport Act Frame := ⟨act c,takeFrame c⟩
def parties (cfg : Side → Config) (s : Side) : Party Transport Act Frame := party (cfg s)

def connected (cfg : Side → Config) : Link Transport Frame :=
  joined (newTransport (cfg .client) .client) (newTransport (cfg .server) .server)

structure Rule where
  acts : Config → Transport → Act → Bool
  takes : Config → Frame → Bool

def kept (rule : Rule) (cfg : Side → Config) (l : Link Transport Frame) : Move Act → Bool
  | .act s a => rule.acts (cfg s) (l.party s) a
  | .take s =>
    match l.wire s.other with
    | [] => true
    | f :: _ => rule.takes (cfg s) f

def plain (_ : Side) : Config := newConfig plainCodecs []
def hello : Message := ⟨[],[],[],[7],∅,[],[]⟩

def opensStream : List (Move Act) :=
  [.act .client .openStream,.act .client (.task 0 true),.act .client (.task 0 true),.take .server,
    .act .server (.loop true),.act .server (.loop true),.act .server (.loop true),
    .act .server .acceptStream]

section
variable (t : Transport) (err : MuxError) (who : Closer)

@[simp] theorem failAllClosed : (failAll t err).closed = true := by
  unfold failAll
  split
  · assumption
  · rfl
@[simp] theorem failAllKeeps : (failAll t err).objects = t.objects ∧ (failAll t err).loop = t.loop ∧
    (failAll t err).accept = t.accept ∧ (failAll t err).accepted = t.accepted ∧ (failAll t err).opened = t.opened ∧
    (failAll t err).connCredit = t.connCredit ∧ (failAll t err).done = t.done ∧ (failAll t err).wrote = t.wrote ∧
    (failAll t err).finished = t.finished ∧ (failAll t err).sends = t.sends := by
  unfold failAll
  split <;> repeat' constructor

@[simp] theorem finishCloseKeeps : (finishClose t who).closed = t.closed ∧ (finishClose t who).streams = t.streams ∧
    (finishClose t who).objects = t.objects ∧ (finishClose t who).loop = t.loop ∧
    (finishClose t who).accept = t.accept ∧ (finishClose t who).accepted = t.accepted ∧
    (finishClose t who).opened = t.opened ∧ (finishClose t who).nextID = t.nextID ∧
    (finishClose t who).connCredit = t.connCredit ∧ (finishClose t who).wrote = t.wrote ∧
    (finishClose t who).finished = t.finished ∧ (finishClose t who).sends = t.sends ∧
    (finishClose t who).tasks = t.tasks := by
  unfold finishClose
  split
  · repeat' constructor
  split <;> repeat' constructor
end
end Gofly.MuxTransport
