import Gofly.FramedTransport
import Gofly.MuxFrame

/-! One message on a mux stream. -/
namespace Gofly.MuxMessage
open ByteReader BinaryFrame FramedTransport MuxFrame

inductive WindowPolicy where
  | perFragment
  | onReceive
  deriving DecidableEq

structure Config where
  maxFrame : Nat
  maxMessage : Int
  receiveQueueSize : Nat
  connectionWindow : Nat
  maxStreams : Nat
  streamPolicy : WindowPolicy
  connectionPolicy : WindowPolicy
  streamRefill : UInt32 → UInt32
  connectionRefill : UInt32 → UInt32
  maxDeferred : Nat
  codecs : Codecs
  frameRange : 0 < maxFrame ∧ maxFrame < 2 ^ 63
  queueRange : 0 < receiveQueueSize ∧ receiveQueueSize ≤ 64 * 1024
  windowRange : 0 < connectionWindow ∧ connectionWindow ≤ 64 * 1024

inductive Setting where
  | receiveQueueSize (size : Int)
  | connectionWindow (size : Int)
  | maxStreams (max : Int)
  | maxFrame (max : Int64)
  | maxMessage (max : Int64)
  | windowPolicy (stream connection : Option WindowPolicy)
  | refill (stream connection : Option (UInt32 → UInt32)) (maxDeferred : Int)

structure Options where
  maxFrame : Int64
  maxMessage : Int64
  receiveQueueSize : Int
  connectionWindow : Int
  maxStreams : Nat
  streamPolicy : WindowPolicy
  connectionPolicy : WindowPolicy
  streamRefill : UInt32 → UInt32
  connectionRefill : UInt32 → UInt32
  maxDeferred : Nat

def Setting.set (o : Options) : Setting → Options
  | .receiveQueueSize size => if 0 < size then { o with receiveQueueSize := size } else o
  | .connectionWindow size => if 0 < size then { o with connectionWindow := size } else o
  | .maxStreams max => if 0 < max then { o with maxStreams := max.toNat } else o
  | .maxFrame max => if 0 < max then { o with maxFrame := max } else o
  | .maxMessage max => if 0 < max then { o with maxMessage := max } else o
  | .windowPolicy stream connection =>
    { o with
      streamPolicy := stream.getD o.streamPolicy
      connectionPolicy := connection.getD o.connectionPolicy }
  | .refill stream connection maxDeferred =>
    { o with
      streamRefill := stream.getD o.streamRefill
      connectionRefill := connection.getD o.connectionRefill
      maxDeferred := if 0 ≤ maxDeferred then maxDeferred.toNat else o.maxDeferred }

def defaultMaxFrameBytes : Int64 := 4194304
def defaults : Options :=
  ⟨defaultMaxFrameBytes,0,16,0,0,.perFragment,.perFragment,id,id,0⟩

def clampExperimentalMuxWindow (size : Int) : Nat :=
  if size ≤ 0 then 1 else if 64 * 1024 < size then 64 * 1024 else size.toNat

theorem clampRange (size) : 0 < clampExperimentalMuxWindow size ∧ clampExperimentalMuxWindow size ≤ 64 * 1024 := by
  unfold clampExperimentalMuxWindow
  repeat' split
  all_goals omega

def normalizedMaxFrame (max : Int64) : Int64 := if max ≤ 0 then defaultMaxFrameBytes else max

theorem normalizedRange (max) :
    0 < (normalizedMaxFrame max).toInt.toNat ∧ (normalizedMaxFrame max).toInt.toNat < 2 ^ 63 := by
  have above := Int64.toInt_lt (normalizedMaxFrame max)
  have pos : 0 < (normalizedMaxFrame max).toInt := by
    unfold normalizedMaxFrame
    split
    · decide
    rename_i set
    rw [Int64.le_iff_toInt_le,Int64.toInt_zero] at set
    omega
  omega

def newConfig (codecs : Codecs) (settings : List Setting) : Config :=
  let o := settings.foldl Setting.set defaults
  let queue := if o.receiveQueueSize ≤ 0 then 1 else o.receiveQueueSize
  let window := if o.connectionWindow ≤ 0 then queue else o.connectionWindow
  let maxFrame := normalizedMaxFrame o.maxFrame
  { maxFrame := maxFrame.toInt.toNat
    maxMessage := (if o.maxMessage ≤ 0 then maxFrame * 16 else o.maxMessage).toInt
    receiveQueueSize := clampExperimentalMuxWindow queue
    connectionWindow := clampExperimentalMuxWindow window
    maxStreams := o.maxStreams
    streamPolicy := o.streamPolicy
    connectionPolicy := o.connectionPolicy
    streamRefill := o.streamRefill
    connectionRefill := o.connectionRefill
    maxDeferred := o.maxDeferred
    codecs := codecs
    frameRange := normalizedRange o.maxFrame
    queueRange := clampRange queue
    windowRange := clampRange window }

inductive MuxError where
  | transportClosed
  | streamClosed
  | frameTooLarge
  | eof
  | status (code text : Bytes)
  | frame (cause : FrameError)
  | codec
  | unsupported (typ : UInt8)
  | connection
  deriving DecidableEq

def dataFrame (id : UInt64) (payload : Bytes) : Frame := ⟨2,id,[],[],0,payload⟩
def fragFrame (id : UInt64) (payload : Bytes) : Frame := ⟨11,id,[],[],0,payload⟩
def endFrame (id : UInt64) (payload : Bytes) : Frame := ⟨12,id,[],[],0,payload⟩

def experimentalMuxFragmentPayloadSize (maxFrame : Int) : Nat :=
  let maxFrame := if maxFrame ≤ 0 then defaultMaxFrameBytes.toInt else maxFrame
  if (maxInt : Int) < maxFrame then maxInt
  else match encodeExperimentalMuxFrame (fragFrame 1 []) with
    | .error _ => 0
    | .ok encodedEmpty =>
      let headroom := maxFrame - encodedEmpty.length - 1
      if headroom ≤ 0 then 0 else headroom.toNat

def shouldFragment (c : Config) (payload : Bytes) : Bool :=
  match encodeExperimentalMuxFrame (dataFrame 1 payload) with
  | .error _ => false
  | .ok encoded => c.maxFrame < encoded.length

def fragmentPayloadSize (c : Config) : Except MuxError Nat :=
  let headroom := experimentalMuxFragmentPayloadSize c.maxFrame
  if headroom = 0 then .error .frameTooLarge else .ok headroom

-- a round of the offset loop consumes one byte at least, so the length bounds the rounds
def fragments (size : Nat) (id : UInt64) : Nat → Bytes → List Frame
  | 0,_ => []
  | rounds + 1,payload =>
    if payload = [] then []
    else if payload.length ≤ size then [endFrame id payload]
    else fragFrame id (payload.take size) :: fragments size id rounds (payload.drop size)

def dataFrames (c : Config) (id : UInt64) (payload : Bytes) : Except MuxError (List Frame) :=
  if c.maxMessage < payload.length then .error .frameTooLarge
  else if shouldFragment c payload = false then .ok [dataFrame id payload]
  else match fragmentPayloadSize c with
    | .error e => .error e
    | .ok chunkSize => .ok (fragments chunkSize id payload.length payload)

def isDataFrame (f : Frame) : Bool :=
  kind f.typ = .data ∨ kind f.typ = .dataFrag ∨ kind f.typ = .dataEnd

theorem fragmentsPlain {id} : ∀ f ∈ fragments size id rounds data, f.streamID = id ∧ isDataFrame f = true := by
  induction rounds generalizing data with
  | zero => simp [fragments]
  | succ rounds ih =>
    intro f mem
    simp only [fragments] at mem
    split at mem
    · simp at mem
    split at mem
    · rw [List.mem_singleton.mp mem]
      exact ⟨rfl,rfl⟩
    rcases List.mem_cons.mp mem with rfl | later
    · exact ⟨rfl,rfl⟩
    exact ih f later

theorem dataFramesPlain {id}
    (cut : dataFrames c id data = .ok frames) : ∀ f ∈ frames, f.streamID = id ∧ isDataFrame f = true := by
  unfold dataFrames at cut
  split at cut <;> try contradiction
  split at cut
  · cases cut
    intro f mem
    rw [List.mem_singleton.mp mem]
    exact ⟨rfl,rfl⟩
  split at cut <;> cases cut
  exact fragmentsPlain

def writeFrame (c : Config) (f : Frame) : Except MuxError Bytes :=
  match encodeExperimentalMuxFrame f with
  | .error e => .error (.frame e)
  | .ok data =>
    if c.maxFrame < data.length ∨ maxUint32 < data.length then .error .frameTooLarge else .ok data

def writeAll (c : Config) : List Frame → List Frame × Option MuxError
  | [] => ([],none)
  | f :: rest =>
    match writeFrame c f with
    | .error e => ([],some e)
    | .ok _ => (f :: (writeAll c rest).1,(writeAll c rest).2)

def writeDataFrames (c : Config) (id : UInt64) (payload : Bytes) : List Frame × Option MuxError :=
  match dataFrames c id payload with
  | .error e => ([],some e)
  | .ok frames => writeAll c frames

structure Assembly where
  fragments : Bytes
  fragmentCount : UInt32
  deriving DecidableEq

def Assembly.empty : Assembly := ⟨[],0⟩

def appendFragment (c : Config) (a : Assembly) (payload : Bytes) : Except MuxError Assembly :=
  if c.maxMessage < (a.fragments.length + payload.length : Nat) then .error .frameTooLarge
  else .ok ⟨a.fragments ++ payload,a.fragmentCount + 1⟩

def finishFragments (c : Config) (a : Assembly) (payload : Bytes) : Except MuxError (Bytes × UInt32) :=
  if c.maxMessage < (a.fragments.length + payload.length : Nat) then .error .frameTooLarge
  else .ok (a.fragments ++ payload,a.fragmentCount + 1)

def handed (c : Config) (a : Assembly) : List Frame → Except MuxError (Assembly × List Bytes)
  | [] => .ok (a,[])
  | f :: rest =>
    match kind f.typ with
    | .data => do
      let (last,payloads) ← handed c a rest
      .ok (last,f.payload :: payloads)
    | .dataFrag => do
      let next ← appendFragment c a f.payload
      handed c next rest
    | .dataEnd => do
      let (payload,_) ← finishFragments c a f.payload
      let (last,payloads) ← handed c .empty rest
      .ok (last,payload :: payloads)
    | _ => .error (.unsupported f.typ)

def streamSend (c : Config) (id : UInt64) (msg : Message) : Except MuxError (List Frame) :=
  match encodeMessage c.codecs msg with
  | none => .error .codec
  | some data =>
    match writeDataFrames c id data with
    | (frames,none) => .ok frames
    | (_,some e) => .error e

def dispatchDataPayload (c : Config) (payload : Bytes) : Except MuxError Message :=
  match decodeMessage c.codecs payload with
  | none => .error .codec
  | some msg => .ok msg

end Gofly.MuxMessage
