import Gofly.Duplex
import Gofly.MuxMessage

/-! The state of a mux transport. A goroutine is the read loop with a program counter or a task
that still has something to do. -/
namespace Gofly.MuxState
open ByteReader BinaryFrame MuxFrame MuxMessage Duplex

structure Event where
  body : Except MuxError Message
  raw : Bytes
  streamWindowUpdate : UInt32
  connectionWindowUpdate : UInt32

def Event.terminal (err : MuxError) : Event := ⟨.error err,[],0,0⟩

structure Stream where
  id : UInt64
  recv : List Event
  credit : Nat
  done : Bool
  localClosed : Bool
  remoteDone : Bool
  localDone : Bool
  aborted : Bool
  assembly : Assembly
  returned : List Event

inductive Job where
  | opens
  | data (payload : Bytes)
  | frag (payload : Bytes)
  | last (payload : Bytes)
  | whole (payload : Bytes) (stream connection : UInt32)

inductive Loop where
  | idle
  | got (frame : Frame)
  | accepting (ref : Nat) (job : Job)
  | abandoning (ref : Nat) (job : Job)
  | forsaken (ref : Nat) (job : Job)
  | found (ref : Nat) (job : Job)
  | relook (id : UInt64) (payload : Bytes) (stream connection : UInt32)
  | terminal (ref : Nat) (err : MuxError) (abort remove : Bool)
  | delivering (ref : Nat) (event : Event) (remove : Bool)
  | removing (id : UInt64)
  | failed (err : MuxError)
  | stopped

structure Sending where
  call : Nat
  ref : Nat
  id : UInt64
  todo : List Frame
  plain : ∀ f ∈ todo, f.streamID = id ∧ isDataFrame f = true

def Sending.tail (send : Sending) : Sending :=
  ⟨send.call,send.ref,send.id,send.todo.tail,
    fun f member => send.plain f (List.mem_of_mem_tail member)⟩

inductive AfterWrite where
  | nothing
  | opened (ref : Nat)
  | halfClosed (id : UInt64)
  | closed (ref : Nat)

inductive Closer where
  | close | failAll

inductive Task where
  | register (id : UInt64)
  | write (frame : Frame) (next : AfterWrite)
  | credit (send : Sending)
  | connCredit (send : Sending)
  | writeData (send : Sending)
  | removeStream (ref : Nat)
  | removeIfDone (id : UInt64)
  | closeDone (ref : Nat)
  | failMark (who : Closer) (err : MuxError) (refs : List Nat)
  | failDeliver (who : Closer) (err : MuxError) (ref : Nat) (refs : List Nat)
  | failDone (who : Closer) (err : MuxError) (ref : Nat) (refs : List Nat)

inductive Once where
  | idle | running | finished
  deriving DecidableEq

structure Sent where
  id : UInt64
  msg : Message
  data : Bytes

structure Transport where
  nextID : UInt64
  objects : List Stream
  streams : List Nat
  closed : Bool
  draining : Bool
  remoteDraining : Bool
  accept : List Nat
  connCredit : Nat
  done : Bool
  once : Once
  connDown : Bool
  loop : Loop
  tasks : List Task
  handles : List Nat
  opened : List UInt64
  accepted : List UInt64
  sends : List Sent
  wrote : List (Nat × Frame)
  finished : List Nat

def openFrame (id : UInt64) : Frame := ⟨1,id,[],[],0,[]⟩
def windowFrame (id : UInt64) (window : UInt32) : Frame := ⟨5,id,[],[],window,[]⟩
def windowConnFrame (window : UInt32) : Frame := ⟨10,0,[],[],window,[]⟩
def cancelFrame (id : UInt64) (code reason : Bytes) : Frame := ⟨4,id,code,reason,0,[]⟩
def pingFrame : Frame := ⟨7,0,[],[],0,[]⟩
def pongFrame : Frame := ⟨8,0,[],[],0,[]⟩

def codeOK : Bytes := ascii "ok"
def codeUnavailable : Bytes := ascii "unavailable"
def reasonDraining : Bytes := ascii "draining"
def reasonMaxConcurrentStreams : Bytes := ascii "max_concurrent_streams"

def orElse (text default : Bytes) : Bytes := if text = [] then default else text

def finFrame (id : UInt64) (reason : Bytes) : Frame :=
  ⟨6,id,codeOK,orElse reason (ascii "half_close"),0,[]⟩
def closeFrame (id : UInt64) (code reason : Bytes) : Frame :=
  ⟨if code ≠ [] ∧ code ≠ codeOK then 4 else 3,id,code,orElse reason code,0,[]⟩
def goAwayFrame (reason : Bytes) : Frame :=
  ⟨9,0,codeUnavailable,orElse reason reasonDraining,0,[]⟩

def writable (c : Config) (f : Frame) : Bool :=
  match writeFrame c f with
  | .ok _ => true
  | .error _ => false

variable (c : Config)

def newStream (id : UInt64) : Stream :=
  ⟨id,[],c.receiveQueueSize,false,false,false,false,false,.empty,[]⟩

def newTransport (side : Side) : Transport where
  nextID := match side with | .client => 1 | .server => 2
  objects := []
  streams := []
  closed := false
  draining := false
  remoteDraining := false
  accept := []
  connCredit := c.connectionWindow
  done := false
  once := .idle
  connDown := false
  loop := .idle
  tasks := []
  handles := []
  opened := []
  accepted := []
  sends := []
  wrote := []
  finished := []

def experimentalMuxWindowRefillDelta (delta : UInt32) (ceil : UInt32 → UInt32) : UInt32 :=
  if delta = 0 then 0
  else if ceil delta = 0 then 1
  else if delta < ceil delta then delta
  else ceil delta

def sendWindowUpdateAsync (id : UInt64) (delta : UInt32) : List Task :=
  if delta = 0 then [] else [.write (windowFrame id delta) .nothing]
def sendConnectionWindowUpdateAsync (delta : UInt32) : List Task :=
  if delta = 0 then [] else [.write (windowConnFrame delta) .nothing]

def sendFragmentWindowUpdates (id : UInt64) : List Task :=
  (if c.streamPolicy = .perFragment then sendWindowUpdateAsync id 1 else []) ++
    (if c.connectionPolicy = .perFragment then sendConnectionWindowUpdateAsync 1 else [])

def deferredFragments (fragments : UInt32) : UInt32 :=
  if 0 < c.maxDeferred ∧ c.maxDeferred < fragments.toNat then UInt32.ofNat c.maxDeferred else fragments

def fragmentWindowUpdates (fragments : UInt32) : UInt32 × UInt32 :=
  if fragments = 0 then (0,0)
  else
    (if c.streamPolicy = .onReceive then
        experimentalMuxWindowRefillDelta (deferredFragments c fragments) c.streamRefill else 0,
      if c.connectionPolicy = .onReceive then
        experimentalMuxWindowRefillDelta (deferredFragments c fragments) c.connectionRefill else 0)

def holdsID (t : Transport) (id : UInt64) (ref : Nat) : Bool :=
  (t.objects[ref]?.map Stream.id) = some id
def lookupStream (t : Transport) (id : UInt64) : Option Nat := t.streams.find? (holdsID t id)

@[simp] def deleteStream (t : Transport) (id : UInt64) : Transport :=
  { t with streams := t.streams.filter fun ref => !holdsID t id ref }

@[simp] def createStream (t : Transport) (id : UInt64) : Transport :=
  { t with
    objects := t.objects ++ [newStream c id]
    streams := t.streams ++ [t.objects.length] }

def full (t : Transport) : Bool := 0 < c.maxStreams ∧ c.maxStreams ≤ t.streams.length

@[simp] def setStream (t : Transport) (ref : Nat) (s : Stream) : Transport :=
  { t with objects := t.objects.set ref s }

@[simp] def spawn (t : Transport) (tasks : List Task) : Transport := { t with tasks := t.tasks ++ tasks }

def registerStream (t : Transport) (id : UInt64) : Option (Transport × Nat) :=
  if t.closed then none
  else match lookupStream t id with
    | some ref => some (t,ref)
    | none =>
      if t.draining ∨ t.remoteDraining ∨ full c t then none
      else some (createStream c t id,t.objects.length)

@[simp] def rejectStream (t : Transport) (id : UInt64) (reason : Bytes) : Transport :=
  { spawn t [.write (cancelFrame id codeUnavailable reason) .nothing] with loop := .idle }

def getOrAcceptStream (t : Transport) (id : UInt64) (job : Job) : Transport :=
  match lookupStream t id with
  | some ref => { t with loop := .found ref job }
  | none =>
    if t.draining then rejectStream t id reasonDraining
    else if full c t then rejectStream t id reasonMaxConcurrentStreams
    else
      { createStream c t id with
        loop := if t.closed then .found t.objects.length job else .accepting t.objects.length job }

@[simp] def addCredit (s : Stream) (delta : Nat) : Stream :=
  { s with credit := min c.receiveQueueSize (s.credit + delta) }
@[simp] def addConnectionCredit (t : Transport) (delta : Nat) : Transport :=
  { t with connCredit := min c.connectionWindow (t.connCredit + delta) }

def failAll (t : Transport) (err : MuxError) : Transport :=
  if t.closed then t
  else { t with
    closed := true
    streams := []
    tasks := t.tasks ++ [.failMark .failAll err t.streams] }

end Gofly.MuxState
