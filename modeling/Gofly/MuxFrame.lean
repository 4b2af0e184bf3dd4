import Gofly.BinaryFrame

/-! The mux frame: version, type byte, stream id, code, reason, window, payload. -/
namespace Gofly.MuxFrame
open ByteReader BinaryFrame

inductive Kind where
  | opens | data | close | cancel | window | fin | ping | pong | goAway | windowConn
  | dataFrag | dataEnd | unsupported
  deriving DecidableEq

def kind (typ : UInt8) : Kind :=
  if typ = 1 then .opens else if typ = 2 then .data else if typ = 3 then .close
  else if typ = 4 then .cancel else if typ = 5 then .window else if typ = 6 then .fin
  else if typ = 7 then .ping else if typ = 8 then .pong else if typ = 9 then .goAway
  else if typ = 10 then .windowConn else if typ = 11 then .dataFrag
  else if typ = 12 then .dataEnd else .unsupported

structure Frame where
  typ : UInt8
  streamID : UInt64
  code : Bytes
  reason : Bytes
  window : UInt32
  payload : Bytes
  deriving DecidableEq

def isControlFrame (typ : UInt8) : Bool := typ = 7 ∨ typ = 8 ∨ typ = 9 ∨ typ = 10

inductive FrameError where
  | streamIDRequired
  | controlStreamID
  | read (cause : Short)
  | version (v : UInt8)
  | trailing (bytes : Nat)
  deriving DecidableEq

def checkStreamID (f : Frame) : Except FrameError Unit :=
  if f.streamID = 0 ∧ isControlFrame f.typ = false then .error .streamIDRequired
  else if f.streamID ≠ 0 ∧ isControlFrame f.typ = true then .error .controlStreamID
  else .ok ()

def frameBytes (f : Frame) : Bytes :=
  [1] ++ ([f.typ] ++ (be 8 f.streamID.toNat ++ (writeFrameString f.code ++
    (writeFrameString f.reason ++ (be 4 f.window.toNat ++ writeFrameBytes f.payload)))))

def encodeExperimentalMuxFrame (f : Frame) : Except FrameError Bytes := do
  checkStreamID f
  .ok (frameBytes f)

def readFields : Reader FrameError Frame := do
  readVersion .read .version
  let typ ← label .read readByte
  let id ← label .read (readFull 8)
  let code ← label .read readFrameString
  let reason ← label .read readFrameString
  let window ← label .read (readFull 4)
  let payload ← label .read readFrameBytes
  pure ⟨typ,UInt64.ofNat (readBE id),code,reason,UInt32.ofNat (readBE window),payload⟩

def readFrame : Reader FrameError Frame := do
  require (10 ≤ ·) (.read .unexpectedEOF)
  readFields

def decodeExperimentalMuxFrame (data : Bytes) : Except FrameError Frame :=
  match readFrame data with
  | .error e => .error e
  | .ok (f,rest) =>
    if rest.length ≠ 0 then .error (.trailing rest.length)
    else match checkStreamID f with
      | .error e => .error e
      | .ok () => .ok f

theorem localFields : Local readFields := localBind (localVersion _ _) fun _ =>
  localBind (localLabel _ localByte) fun _ => localBind (localLabel _ (localFull 8)) fun _ =>
  localBind (localLabel _ localFrameBytes) fun _ => localBind (localLabel _ localFrameBytes) fun _ =>
  localBind (localLabel _ (localFull 4)) fun _ => localBind (localLabel _ localFrameBytes) fun _ =>
  localPure _

theorem localFrame : Local readFrame := localBind (localRequire fun _ _ le had => had.trans le) fun _ => localFields

structure Frame.InMemory (f : Frame) : Prop where
  code : f.code.length ≤ maxInt
  reason : f.reason.length ≤ maxInt
  payload : f.payload.length ≤ maxInt

theorem readsFixed (width n) : Reads (readFull width) (be width n) (be width n) := by
  have h := readsFull (be width n)
  rwa [beLength] at h

theorem fixedWords (f : Frame) : UInt64.ofNat (readBE (be 8 f.streamID.toNat)) = f.streamID ∧
      UInt32.ofNat (readBE (be 4 f.window.toNat)) = f.window := by
  have id : f.streamID.toNat < 256 ^ 8 := f.streamID.toNat_lt
  have window : f.window.toNat < 256 ^ 4 := f.window.toNat_lt
  rw [readBeBounded 8 _ id,readBeBounded 4 _ window]
  exact ⟨UInt64.ofNat_toNat,UInt32.ofNat_toNat⟩

theorem readsFields (fit : f.InMemory) : Reads readFields (frameBytes f) f := by
  obtain ⟨id,window⟩ := fixedWords f
  have last : Reads (do
      let data ← label FrameError.read readFrameBytes
      pure (⟨f.typ,UInt64.ofNat (readBE (be 8 f.streamID.toNat)),f.code,f.reason,
        UInt32.ofNat (readBE (be 4 f.window.toNat)),data⟩ : Frame)) (writeFrameBytes f.payload) f := by
    rw [id,window]
    intro rest
    exact bindOk (readsLabel _ (readsFrameBytes fit.payload) rest)
  exact readsBind (readsVersion _ _) <| readsBind (readsLabel _ (readsByte f.typ)) <|
    readsBind (readsLabel _ (readsFixed 8 f.streamID.toNat)) <|
    readsBind (readsLabel _ (readsFrameBytes fit.code)) <|
    readsBind (readsLabel _ (readsFrameBytes fit.reason)) <|
    readsBind (readsLabel _ (readsFixed 4 f.window.toNat)) last

theorem readsFrame (fit : f.InMemory) : Reads readFrame (frameBytes f) f := by
  intro rest
  have long : 10 ≤ (frameBytes f ++ rest).length := by
    simp only [frameBytes,List.length_append,beLength]
    omega
  exact (bindOk (requireOk long)).trans (readsFields fit rest)

theorem encodedExact (h : encodeExperimentalMuxFrame f = .ok data) :
    checkStreamID f = .ok () ∧ data = frameBytes f := by
  simp only [encodeExperimentalMuxFrame,bind,Except.bind] at h
  cases checked : checkStreamID f with
  | error e => simp [checked] at h
  | ok u =>
    simp only [checked,Except.ok.injEq] at h
    exact ⟨rfl,h.symm⟩

theorem muxExact (fit : f.InMemory)
    (encoded : encodeExperimentalMuxFrame f = .ok data) : Exact decodeExperimentalMuxFrame data f := by
  obtain ⟨checked,rfl⟩ := encodedExact encoded
  have reads := readsFrame fit
  have whole : readFrame (frameBytes f) = .ok (f,[]) := by simpa using reads []
  refine ⟨?_,?_,?_⟩
  · simp [decodeExperimentalMuxFrame,whole,checked]
  · intro cut more split strict
    obtain ⟨e,failed⟩ := cutFails localFrame (split ▸ whole) strict
    exact ⟨e,by simp only [decodeExperimentalMuxFrame,failed]⟩
  intro more strict
  have left : more.length ≠ 0 := by simpa using strict
  exact ⟨.trailing more.length,by simp only [decodeExperimentalMuxFrame,reads more,if_pos left]⟩

theorem wireCodecsExact : (∀ msg order, Iterates msg.md order → msg.InMemory order →
      Exact unmarshal (marshal msg order) msg) ∧ (∀ f data, f.InMemory → encodeExperimentalMuxFrame f = .ok data →
      Exact decodeExperimentalMuxFrame data f) :=
  ⟨fun _ _ => binaryExact,fun _ _ => muxExact⟩

def request : Message := ⟨[101],[102],[],[1,2,3],MD.ofEntries [([107],[118])],[],[]⟩
def fragment : Frame := ⟨11,3,[],[],0,[9,9]⟩

theorem wireCodecsExactRequest : Exact unmarshal (marshal request [([107],[118])]) request ∧
      Exact decodeExperimentalMuxFrame (frameBytes fragment) fragment :=
  ⟨wireCodecsExact.1 request _ ⟨by decide,rfl⟩ ⟨by decide,by decide,by decide,by decide,by decide,by decide,
        by simp [EntriesFit,maxInt],by decide⟩,
    wireCodecsExact.2 fragment _ ⟨by decide,by decide,by decide⟩ rfl⟩

end Gofly.MuxFrame
