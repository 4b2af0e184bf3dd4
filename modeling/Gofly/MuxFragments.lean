import Gofly.MuxMessage

/-! What fragmentation keeps of a message. -/
namespace Gofly.MuxFragments
open ByteReader BinaryFrame FramedTransport MuxFrame MuxMessage
open List (length_cons length_nil mem_cons_self replicate)

theorem encodedLength (typ id payload) : (frameBytes ⟨typ,id,[],[],0,payload⟩).length =
      16 + (putUvarint payload.length).length + payload.length := by
  have empty : (putUvarint 0).length = 1 := putUvarintShort 0 (by decide)
  simp only [frameBytes,writeFrameString,writeFrameBytes,List.length_append,length_cons,length_nil,beLength]
  omega

theorem uvarintGrows (n) : (n < 2 ^ 14 → (putUvarint n).length ≤ 2) ∧ (2 ^ 14 ≤ n → 3 ≤ (putUvarint n).length) := by
  refine ⟨fun small => ?_,putUvarintLong n⟩
  by_cases short : n < 2 ^ 7
  · rw [putUvarintShort n short]
    omega
  rw [putUvarintTwo n (by omega) small]

theorem fragmentSize (c : Config) : experimentalMuxFragmentPayloadSize c.maxFrame = c.maxFrame - 18 := by
  have range := c.frameRange
  have encoded : encodeExperimentalMuxFrame (fragFrame 1 []) = .ok (frameBytes (fragFrame 1 [])) := rfl
  have length : (frameBytes (fragFrame 1 [])).length = 17 := rfl
  have set : ¬ (c.maxFrame : Int) ≤ 0 := by omega
  have small : ¬ (maxInt : Int) < c.maxFrame := by unfold maxInt; omega
  simp only [experimentalMuxFragmentPayloadSize,encoded,if_neg set,if_neg small]
  split <;> omega

theorem encodesStream (typ) {id} (payload) (stream : id ≠ 0) (plain : isControlFrame typ = false) :
    encodeExperimentalMuxFrame ⟨typ,id,[],[],0,payload⟩ = .ok (frameBytes ⟨typ,id,[],[],0,payload⟩) := by
  simp [encodeExperimentalMuxFrame,checkStreamID,stream,plain,bind,Except.bind]

theorem shouldFragmentExact (c payload) : shouldFragment c payload = true ↔
      c.maxFrame < 16 + (putUvarint payload.length).length + payload.length := by
  have encoded := encodesStream 2 payload (by decide : (1 : UInt64) ≠ 0) rfl
  simp only [shouldFragment,dataFrame,encoded,encodedLength,decide_eq_true_eq]

theorem writesStream (c) {id} (payload) (stream : id ≠ 0) (plain : isControlFrame typ = false) :
    (∃ data, writeFrame c ⟨typ,id,[],[],0,payload⟩ = .ok data) ↔
      16 + (putUvarint payload.length).length + payload.length ≤ c.maxFrame ∧
      16 + (putUvarint payload.length).length + payload.length ≤ maxUint32 := by
  simp only [writeFrame,encodesStream typ payload stream plain,encodedLength]
  split
  · simp only [reduceCtorEq,exists_false,false_iff]
    omega
  simp only [Except.ok.injEq,exists_eq',true_iff]
  omega

theorem writtenAll (each : ∀ f ∈ frames, ∃ data, writeFrame c f = .ok data) : writeAll c frames = (frames,none) := by
  induction frames with
  | nil => rfl
  | cons f _ ih =>
    obtain ⟨data,ok⟩ := each f mem_cons_self
    simp only [writeAll,ok,ih fun g mem => each g (List.mem_cons_of_mem _ mem)]

theorem writtenNone (ok : (writeAll c frames).2 = none) : ∀ f ∈ frames, ∃ data, writeFrame c f = .ok data := by
  induction frames with
  | nil => simp
  | cons _ _ ih =>
    simp only [writeAll] at ok
    split at ok <;> try contradiction
    rename_i data wrote
    intro g mem
    rcases List.mem_cons.mp mem with rfl | later
    · exact ⟨data,wrote⟩
    exact ih ok g later

theorem fragmentForm {id} (mem : f ∈ fragments size id rounds payload) :
    (f = fragFrame id f.payload ∨ f = endFrame id f.payload) ∧ f.payload.length ≤ size := by
  induction rounds generalizing payload with
  | zero => simp [fragments] at mem
  | succ _ ih =>
    simp only [fragments] at mem
    split at mem
    · simp at mem
    split at mem
    · rename_i short
      rw [List.mem_singleton.mp mem]
      exact ⟨.inr rfl,short⟩
    rcases List.mem_cons.mp mem with rfl | later
    · exact ⟨.inl rfl,by simp [fragFrame]⟩
    exact ih later

theorem appendRoom {c : Config} (fits : (a.fragments.length + payload.length : Nat) ≤ c.maxMessage) :
    appendFragment c a payload = .ok ⟨a.fragments ++ payload,a.fragmentCount + 1⟩ :=
  if_neg (not_lt.mpr fits)

theorem finishRoom {c : Config} (fits : (a.fragments.length + payload.length : Nat) ≤ c.maxMessage) :
    finishFragments c a payload = .ok (a.fragments ++ payload,a.fragmentCount + 1) :=
  if_neg (not_lt.mpr fits)

theorem handedFrag (c a id payload rest) : handed c a (fragFrame id payload :: rest) =
      (appendFragment c a payload).bind fun next => handed c next rest := rfl

theorem handedEnd (c a id payload) : handed c a [endFrame id payload] =
      (finishFragments c a payload).bind fun out => .ok (.empty,[out.1]) := rfl

theorem fragmentsHanded {c : Config} (id) (pos : 0 < size) (full : payload ≠ []) (enough : payload.length ≤ rounds) (a)
    (fits : (a.fragments.length + payload.length : Nat) ≤ c.maxMessage) :
    handed c a (fragments size id rounds payload) = .ok (.empty,[a.fragments ++ payload]) := by
  induction rounds generalizing payload a with
  | zero => exact absurd (List.length_eq_zero_iff.mp (Nat.le_zero.mp enough)) full
  | succ _ ih =>
    rw [fragments,if_neg full]
    split
    · rw [handedEnd,finishRoom fits]
      rfl
    have left : (payload.drop size).length = payload.length - size := List.length_drop
    have head : (payload.take size).length = size := by rw [List.length_take]; omega
    have room : (a.fragments.length + (payload.take size).length : Nat) ≤ c.maxMessage := by omega
    have rest := @ih (payload.drop size) (fun none => by rw [none,length_nil] at left; omega) (by omega)
      ⟨a.fragments ++ payload.take size,a.fragmentCount + 1⟩
      (by simp only [List.length_append]; omega)
    rw [handedFrag,appendRoom room]
    simpa only [Except.bind,List.append_assoc,List.take_append_drop] using rest

def Lossless (c peer : Config) (id : UInt64) (payload : Bytes) : Prop :=
  (writeDataFrames c id payload).2 = none ∧
    (∀ f ∈ (writeDataFrames c id payload).1, ∃ data, encodeExperimentalMuxFrame f = .ok data ∧
      data.length ≤ c.maxFrame) ∧
    handed peer .empty (writeDataFrames c id payload).1 = .ok (.empty,[payload])

theorem writtenFits (ok : writeFrame c f = .ok data) :
    encodeExperimentalMuxFrame f = .ok data ∧ data.length ≤ c.maxFrame := by
  unfold writeFrame at ok
  split at ok <;> try contradiction
  rename_i h
  split at ok <;> cases ok
  exact ⟨h,by omega⟩

theorem losslessOf {id}
    (cut : dataFrames c id payload = .ok frames) (each : ∀ f ∈ frames, ∃ data, writeFrame c f = .ok data)
    (whole : handed peer .empty frames = .ok (.empty,[payload])) : Lossless c peer id payload := by
  have wrote : writeDataFrames c id payload = (frames,none) := by
    simp only [writeDataFrames,cut,writtenAll each]
  rw [Lossless,wrote]
  refine ⟨rfl,fun f mem => ?_,whole⟩
  obtain ⟨data,ok⟩ := each f mem
  exact ⟨data,writtenFits ok⟩

theorem losslessWrites {id} (h : Lossless c peer id payload) :
    ∃ frames, dataFrames c id payload = .ok frames ∧ ∀ f ∈ frames, ∃ data, writeFrame c f = .ok data := by
  have ok := h.1
  unfold writeDataFrames at ok
  split at ok <;> try contradiction
  rename_i frames cut
  exact ⟨frames,cut,writtenNone ok⟩

theorem fragmentWritten {id} (stream : id ≠ 0) (mem : f ∈ fragments size id rounds payload)
    (short : size < 2 ^ 14) (frame : size + 18 ≤ c.maxFrame) : ∃ data, writeFrame c f = .ok data := by
  obtain ⟨form,length⟩ := fragmentForm mem
  have varint := (uvarintGrows f.payload.length).1 (by omega)
  have bounds : 16 + (putUvarint f.payload.length).length + f.payload.length ≤ c.maxFrame ∧
      16 + (putUvarint f.payload.length).length + f.payload.length ≤ maxUint32 := by
    unfold maxUint32
    omega
  rcases form with h | h <;> rw [h]
  · exact (writesStream c f.payload stream rfl).mpr bounds
  exact (writesStream c f.payload stream rfl).mpr bounds

section
variable {c : Config} {id : UInt64} {payload : Bytes} (fits : (payload.length : Int) ≤ c.maxMessage)
include fits

theorem wholeCut (whole : 16 + (putUvarint payload.length).length + payload.length ≤ c.maxFrame) :
    dataFrames c id payload = .ok [dataFrame id payload] := by
  have plain : shouldFragment c payload = false := by
    have exact := shouldFragmentExact c payload
    cases h : shouldFragment c payload with
    | false => rfl
    | true => have := exact.mp h; omega
  simp only [dataFrames,if_neg (not_lt.mpr fits),plain,if_true]

theorem fragmentsCut (size : 0 < c.maxFrame - 18)
    (long : c.maxFrame < 16 + (putUvarint payload.length).length + payload.length) :
    dataFrames c id payload = .ok (fragments (c.maxFrame - 18) id payload.length payload) := by
  have cut : shouldFragment c payload = true := (shouldFragmentExact c payload).mpr long
  have nonzero : ¬ c.maxFrame - 18 = 0 := by omega
  simp [dataFrames,not_lt.mpr fits,cut,fragmentPayloadSize,fragmentSize,nonzero]

variable (stream : id ≠ 0)
include stream

theorem wholeLossless (peer) (whole : 16 + (putUvarint payload.length).length + payload.length ≤ c.maxFrame)
    (word : 16 + (putUvarint payload.length).length + payload.length ≤ maxUint32) : Lossless c peer id payload := by
  refine losslessOf (wholeCut fits whole) (fun f mem => ?_) rfl
  rw [List.mem_singleton.mp mem]
  exact (writesStream c payload stream rfl).mpr ⟨whole,word⟩

theorem fragmentedLossless (peerFits : (payload.length : Int) ≤ peer.maxMessage)
    (size : 0 < c.maxFrame - 18) (small : c.maxFrame < 16402)
    (long : c.maxFrame < 16 + (putUvarint payload.length).length + payload.length) : Lossless c peer id payload := by
  have full : payload ≠ [] := by
    rintro rfl
    rw [length_nil,putUvarintShort 0 (by decide)] at long
    omega
  refine losslessOf (fragmentsCut fits size long) (fun f mem => fragmentWritten stream mem (by omega) (by omega)) ?_
  have room : ((Assembly.empty.fragments.length + payload.length : Nat) : Int) ≤ peer.maxMessage := by
    simpa [Assembly.empty] using peerFits
  simpa [Assembly.empty] using fragmentsHanded id size full le_rfl .empty room

theorem fragmentedFails (large : 16402 ≤ c.maxFrame)
    (long : c.maxFrame < 16 + (putUvarint payload.length).length + payload.length) :
    ¬ Lossless c peer id payload := by
  intro lossless
  obtain ⟨frames,cut,each⟩ := losslessWrites lossless
  rw [fragmentsCut fits (by omega) long] at cut
  cases cut
  cases payload with
  | nil =>
    rw [length_nil,putUvarintShort 0 (by decide)] at long
    omega
  | cons b tail =>
    simp only [length_cons,fragments,reduceCtorEq,if_false] at each
    split at each
    · have wrote := (writesStream c (b :: tail) stream rfl).mp (each _ mem_cons_self)
      omega
    have wrote := (writesStream c _ stream rfl).mp (each _ mem_cons_self)
    have length : ((b :: tail).take (c.maxFrame - 18)).length = c.maxFrame - 18 := by
      rw [List.length_take,length_cons]
      omega
    have varint := (uvarintGrows (c.maxFrame - 18)).2 (by omega)
    rw [length] at wrote
    omega

theorem fragmentationLossless {peer : Config} (peerFits : (payload.length : Int) ≤ peer.maxMessage)
    (size : 0 < experimentalMuxFragmentPayloadSize c.maxFrame) : Lossless c peer id payload ↔
      ((frameBytes (dataFrame id payload)).length ≤ c.maxFrame ∧
        (frameBytes (dataFrame id payload)).length ≤ maxUint32) ∨ c.maxFrame < 16402 := by
  rw [fragmentSize] at size
  rw [dataFrame,encodedLength]
  by_cases whole : 16 + (putUvarint payload.length).length + payload.length ≤ c.maxFrame
  · by_cases word : 16 + (putUvarint payload.length).length + payload.length ≤ maxUint32
    · exact ⟨fun _ => .inl ⟨whole,word⟩,fun _ => wholeLossless fits stream peer whole word⟩
    · refine ⟨fun lossless => ?_,fun holds => absurd holds (by unfold maxUint32 at word ⊢; omega)⟩
      obtain ⟨frames,cut,each⟩ := losslessWrites lossless
      rw [wholeCut fits whole] at cut
      cases cut
      exact .inl ((writesStream c payload stream rfl).mp (each _ mem_cons_self))
  by_cases small : c.maxFrame < 16402
  · exact ⟨fun _ => .inr small,fun _ => fragmentedLossless fits stream peerFits size small (by omega)⟩
  refine ⟨fun lossless => absurd lossless (fragmentedFails fits stream (by omega) (by omega)),?_⟩
  omega

end

theorem fragmentationLosslessSample :
    Lossless (newConfig plainCodecs [.maxFrame 96]) (newConfig plainCodecs [.maxFrame 96]) 1 (replicate 200 7) :=
  (fragmentationLossless (by rw [List.length_replicate]; decide) (by decide)
    (by rw [List.length_replicate]; decide) (by decide)).mpr (.inr (by decide))

theorem defaultFragmentsTooLarge : 0 < experimentalMuxFragmentPayloadSize (newConfig plainCodecs []).maxFrame ∧
      ((replicate 4194304 (0 : UInt8)).length : Int) ≤ (newConfig plainCodecs []).maxMessage ∧
      ¬ Lossless (newConfig plainCodecs []) (newConfig plainCodecs []) 1 (replicate 4194304 0) := by
  have frame : (newConfig plainCodecs []).maxFrame = 4194304 := by decide
  have length : (replicate 4194304 (0 : UInt8)).length = 4194304 := List.length_replicate
  have fits : ((replicate 4194304 (0 : UInt8)).length : Int) ≤ (newConfig plainCodecs []).maxMessage := by
    rw [length]
    decide
  refine ⟨by rw [fragmentSize]; decide,fits,fragmentedFails fits (by decide) ?_ ?_⟩
  · decide
  omega

theorem cutCases {id} (cut : dataFrames c id payload = .ok frames) :
    (payload.length : Int) ≤ c.maxMessage ∧ (frames = [dataFrame id payload] ∨
      ∃ size, 0 < size ∧ payload ≠ [] ∧ frames = fragments size id payload.length payload) := by
  unfold dataFrames at cut
  split at cut <;> try contradiction
  rename_i fits
  refine ⟨not_lt.mp fits,?_⟩
  split at cut
  · cases cut
    exact .inl rfl
  rename_i fragmented
  split at cut <;> cases cut
  rename_i chosen
  simp only [fragmentPayloadSize,fragmentSize] at chosen
  split at chosen <;> cases chosen
  rename_i pos
  have long := (shouldFragmentExact c payload).mp (by simpa using fragmented)
  refine .inr ⟨_,Nat.pos_of_ne_zero pos,?_,rfl⟩
  rintro rfl
  rw [length_nil,putUvarintShort 0 (by decide)] at long
  omega

theorem cutHanded {id}
    (cut : dataFrames c id payload = .ok frames) : handed c .empty frames = .ok (.empty,[payload]) := by
  obtain ⟨fits,rfl | ⟨size,pos,full,rfl⟩⟩ := cutCases cut
  · rfl
  have room : ((Assembly.empty.fragments.length + payload.length : Nat) : Int) ≤ c.maxMessage := by
    simpa [Assembly.empty] using fits
  simpa [Assembly.empty] using fragmentsHanded id pos full le_rfl .empty room

theorem streamSent {id} (ok : streamSend c id msg = .ok frames) :
    ∃ data, encodeMessage c.codecs msg = some data ∧ dataFrames c id data = .ok frames := by
  unfold streamSend at ok
  split at ok <;> try contradiction
  rename_i data encoded
  split at ok <;> cases ok
  rename_i wrote
  unfold writeDataFrames at wrote
  split at wrote
  · cases wrote
  rename_i hCut
  have all := writtenAll (writtenNone (congrArg Prod.snd wrote))
  rw [all] at wrote
  cases wrote
  exact ⟨data,encoded,hCut⟩

theorem payloadTransparent (t : Transport) (c : Config) (id : UInt64) (msg : Message) :
    (t.codecs.Lawful → ∀ wire rest, t.send msg = .ok wire →
      ((∃ got, t.receive (wire ++ rest) = .ok (got,rest) ∧ got.payload = msg.payload) ↔
        Transparent t.codecs msg ∧ encodeMessage t.codecs msg ≠ some [])) ∧
    (c.codecs.Lawful → ∀ frames, streamSend c id msg = .ok frames →
      ((∃ data got, handed c .empty frames = .ok (.empty,[data]) ∧
          dispatchDataPayload c data = .ok got ∧ got.payload = msg.payload) ↔ Transparent c.codecs msg)) := by
  refine ⟨fun lawful wire rest ok => framedPayload lawful ok rest,fun lawful frames ok => ?_⟩
  obtain ⟨data,encoded,cut⟩ := streamSent ok
  obtain ⟨got,decoded,same⟩ := decodedPayload lawful encoded
  have dispatched : dispatchDataPayload c data = .ok got := by simp only [dispatchDataPayload,decoded]
  rw [cutHanded cut]
  constructor
  · rintro ⟨other,received,whole,second,payload⟩
    cases whole
    rw [dispatched] at second
    cases second
    exact same.mp payload
  intro holds
  exact ⟨data,got,rfl,dispatched,same.mpr holds⟩

def greeting : Message := ⟨ascii "svc",ascii "Hello",[],[7],∅,[],[]⟩
def greetingData : Bytes := marshal { greeting with codec := ascii "identity" } []

theorem payloadTransparentGreeting : (∃ got, Transport.receive ⟨1024,plainCodecs⟩
        (be 4 greetingData.length ++ greetingData ++ []) = .ok (got,[]) ∧ got.payload = [7]) ∧
    (∃ data got, handed (newConfig plainCodecs []) .empty [dataFrame 1 greetingData] = .ok (.empty,[data]) ∧
      dispatchDataPayload (newConfig plainCodecs []) data = .ok got ∧ got.payload = [7]) :=
  have both := payloadTransparent ⟨1024,plainCodecs⟩ (newConfig plainCodecs []) 1 greeting
  ⟨(both.1 plainLawful _ [] (by rfl)).mpr ⟨.inl rfl,by decide⟩,(both.2 plainLawful _ (by rfl)).mpr (.inl rfl)⟩

def markingCodec : PayloadCodec where
  name := ascii "mark"
  encode payload := some (0 :: payload)
  decode
    | 0 :: payload => some payload
    | _ => none

def markingCodecs : Codecs := ⟨markingCodec,plainFrameCodec⟩
def foreign : Message := { greeting with codec := ascii "json" }
def foreignSeen : Message := { foreign with payload := [0,7] }
def foreignData : Bytes := marshal foreignSeen []

theorem foreignCodecUndecoded : markingCodecs.Lawful ∧
    (Transport.send ⟨1024,markingCodecs⟩ foreign = .ok (be 4 foreignData.length ++ foreignData) ∧
      ∃ got, Transport.receive ⟨1024,markingCodecs⟩ (be 4 foreignData.length ++ foreignData ++ []) =
          .ok (got,[]) ∧ got.payload ≠ foreign.payload) ∧
    (streamSend (newConfig markingCodecs []) 1 foreign = .ok [dataFrame 1 foreignData] ∧
      ∃ got, dispatchDataPayload (newConfig markingCodecs []) foreignData = .ok got ∧
        got.payload ≠ foreign.payload) := by
  have decoded : decodeMessage markingCodecs foreignData = some foreignSeen := rfl
  refine ⟨⟨fun payload encoded ok => ?_,fun _ _ => plainUnmarshals⟩,
    ⟨rfl,foreignSeen,receivesSent (by decide) (by decide) (by decide) decoded [],by decide⟩,
    rfl,foreignSeen,?_,by decide⟩
  · cases ok
    rfl
  simp only [dispatchDataPayload,newConfig,decoded]

end Gofly.MuxFragments
