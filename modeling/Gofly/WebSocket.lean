import Gofly.ByteReader
/-! WebSocket frames: what WriteMessage sends and readFrame takes, beside RFC 6455. -/
namespace Gofly.WebSocket
open ByteReader
open UInt8 (ofNat)

/- Text, binary, close, ping and pong. -/
def messageTypes : List Nat := [1,2,8,9,10]

def shortest (n : Nat) : Nat := if n < 126 then n else if n ≤ 65535 then 126 else 127
def extended (n : Nat) : Bytes := if n < 126 then [] else if n ≤ 65535 then be 2 n else be 8 n

def writeWebSocketFrame (messageType : Nat) (payload : Bytes) : Bytes :=
  (0x80 ||| ofNat messageType) :: ofNat (shortest payload.length) :: extended payload.length ++ payload

inductive FrameErr where
  | unsupported (messageType : Nat)
  | read (e : Short)
  | flags
  | size
  | forbidden
  deriving DecidableEq

def writeMessage (messageType : Nat) (payload : Bytes) : Except FrameErr Bytes :=
  if messageTypes.contains messageType then .ok (writeWebSocketFrame messageType payload)
  else .error (.unsupported messageType)

def readLength (code : Nat) : Reader Short Nat := do
  if code = 126 then pure (readBE (← readFull 2))
  else if code = 127 then pure (readBE (← readFull 8))
  else pure code

def withWebSocketMaxMessageBytes (n : Int) : Int := if 0 < n then n else 2 ^ 20
def unmask (mask payload : Bytes) : Bytes := payload.mapIdx fun i b => b ^^^ mask.getD (i % 4) 0

def readFrame (maxMessageBytes : Int) : Reader FrameErr (Nat × Bytes) := do
  let header ← label .read (readFull 2)
  if header.getD 0 0 &&& 0x80 = 0 ∨ header.getD 1 0 &&& 0x80 = 0 then throw .flags else
  let length ← label .read (readLength (header.getD 1 0 &&& 0x7f).toNat)
  if maxMessageBytes ≤ 0 ∨ 2 ^ 63 ≤ length ∨ maxMessageBytes < length then throw .size else
  let mask ← label .read (readFull 4)
  let payload ← label .read (readFull length)
  pure ((header.getD 0 0 &&& 0x0f).toNat,unmask mask payload)

def readFrames (maxMessageBytes : Int) : Nat → Reader FrameErr (List (Nat × Bytes))
  | 0 => pure []
  | n + 1 => do
    let message ← readFrame maxMessageBytes
    let later ← readFrames maxMessageBytes n
    pure (message :: later)

/- What RFC 6455 lets stand in one unfragmented frame. -/
def permitted (fin : Bool) (rsv opcode length : Nat) : Bool :=
  fin && rsv = 0 && messageTypes.contains opcode && (opcode < 8 || length ≤ 125)

def decodeFrame : Reader FrameErr (Nat × Bytes) := do
  let header ← label .read (readFull 2)
  let length ← label .read (readLength (header.getD 1 0 &&& 0x7f).toNat)
  if permitted (header.getD 0 0 &&& 0x80 ≠ 0) (header.getD 0 0 &&& 0x70).toNat (header.getD 0 0 &&& 0x0f).toNat length &&
      header.getD 1 0 &&& 0x80 = 0 && (header.getD 1 0 &&& 0x7f).toNat = shortest length then
    let payload ← label .read (readFull length)
    pure ((header.getD 0 0 &&& 0x0f).toNat,payload)
  else throw .forbidden

structure Frame where
  fin : Bool
  rsv : Fin 8
  opcode : Fin 16
  mask : Option Bytes
  payload : Bytes
  keyed : ∀ m ∈ mask, m.length = 4
  short : payload.length < 2 ^ 63

namespace Frame

def first (f : Frame) : UInt8 := ofNat (128 * f.fin.toNat + 16 * f.rsv + f.opcode)
def second (f : Frame) : UInt8 := ofNat (128 * f.mask.isSome.toNat + shortest f.payload.length)

def body (f : Frame) : Bytes := match f.mask with
  | none => f.payload
  | some mask => mask ++ unmask mask f.payload

def wire (f : Frame) : Bytes := [f.first,f.second] ++ (extended f.payload.length ++ f.body)
def valid (f : Frame) : Bool := permitted f.fin f.rsv f.opcode f.payload.length && f.mask.isSome

end Frame

theorem shortestBelow (n) : shortest n < 128 := by
  unfold shortest
  split <;> try split
  all_goals omega

theorem lengthReads (short : n < 2 ^ 63) : Reads (readLength (shortest n)) (extended n) n := by
  have wide (width : Nat) (bound : n < 256 ^ width) :
      Reads (do pure (readBE (← readFull width)) : Reader Short Nat) (be width n) n := by
    intro rest
    have whole := readsFull (be width n) rest
    rw [beLength] at whole
    rw [bindOk whole,readBeBounded width n bound]
    rfl
  unfold readLength shortest extended
  split
  · rw [if_neg (by omega),if_neg (by omega)]
    exact readsPure n
  split
  · exact wide 2 (by omega)
  exact wide 8 (by omega)

theorem unmaskTwice (mask payload) : unmask mask (unmask mask payload) = payload := by
  refine List.ext_getElem (by simp [unmask]) fun i _ _ => ?_
  simp only [unmask,List.getElem_mapIdx]
  rw [UInt8.xor_assoc,UInt8.xor_self,UInt8.xor_zero]

theorem fullRead (length : data.length = n) (rest) :
    label FrameErr.read (readFull n) (data ++ rest) = .ok (data,rest) :=
  length ▸ readsLabel FrameErr.read (readsFull data) rest

section
variable (f : Frame) (rest : Bytes)

theorem firstBits : (f.first &&& 0x80 = 0 ↔ f.fin = false) ∧ (f.first &&& 0x70).toNat = 16 * f.rsv ∧
    (f.first &&& 0x0f).toNat = f.opcode := by
  have all : ∀ (fin : Bool) (rsv : Fin 8) (opcode : Fin 16), let b := ofNat (128 * fin.toNat + 16 * rsv + opcode)
      (b &&& 0x80 = 0 ↔ fin = false) ∧ (b &&& 0x70).toNat = 16 * rsv ∧ (b &&& 0x0f).toNat = opcode := by decide +kernel
  exact all f.fin f.rsv f.opcode

theorem secondBits : (f.second &&& 0x80 = 0 ↔ f.mask.isSome = false) ∧
    (f.second &&& 0x7f).toNat = shortest f.payload.length := by
  have all : ∀ (masked : Bool) (code : Fin 128), let b := ofNat (128 * masked.toNat + code)
      (b &&& 0x80 = 0 ↔ masked = false) ∧ (b &&& 0x7f).toNat = code := by decide +kernel
  exact all f.mask.isSome ⟨shortest f.payload.length,shortestBelow _⟩

theorem headerRead : label FrameErr.read (readFull 2) (f.wire ++ rest) =
    .ok ([f.first,f.second],extended f.payload.length ++ (f.body ++ rest)) := by
  have header := fullRead (show [f.first,f.second].length = 2 from rfl) (extended f.payload.length ++ (f.body ++ rest))
  rwa [← List.append_assoc,← List.append_assoc] at header

theorem lengthRead : label FrameErr.read (readLength (f.second &&& 0x7f).toNat)
    (extended f.payload.length ++ (f.body ++ rest)) = .ok (f.payload.length,f.body ++ rest) := by
  rw [(secondBits f).2]
  exact readsLabel FrameErr.read (lengthReads f.short) (f.body ++ rest)

theorem readWire (max) : readFrame max (f.wire ++ rest) = if f.fin = false ∨ f.mask = none then .error .flags
    else if max ≤ 0 ∨ max < f.payload.length then .error .size else .ok ((f.opcode.val,f.payload),rest) := by
  obtain ⟨isFin,_,opcode⟩ := firstBits f
  have flags : (f.first &&& 0x80 = 0 ∨ f.second &&& 0x80 = 0) ↔ f.fin = false ∨ f.mask = none := by
    rw [isFin,(secondBits f).1,Option.isSome_eq_false_iff,Option.isNone_iff_eq_none]
  have size : (max ≤ 0 ∨ 2 ^ 63 ≤ f.payload.length ∨ max < f.payload.length) ↔ max ≤ 0 ∨ max < f.payload.length := by
    have short := f.short
    omega
  rw [readFrame,bindOk (headerRead f rest)]
  simp only [List.getD_cons_zero,List.getD_cons_succ]
  by_cases flagged : f.fin = false ∨ f.mask = none
  · rw [if_pos (flags.mpr flagged),if_pos flagged]
    rfl
  rw [if_neg (mt flags.mp flagged),if_neg flagged,bindOk (lengthRead f rest)]
  by_cases large : max ≤ 0 ∨ max < f.payload.length
  · rw [if_pos (size.mpr large),if_pos large]
    rfl
  rw [if_neg (mt size.mp large),if_neg large]
  obtain ⟨mask,masked⟩ := Option.ne_none_iff_exists'.mp (not_or.mp flagged).2
  have body : f.body = mask ++ unmask mask f.payload := by rw [Frame.body,masked]
  have data := fullRead (show (unmask mask f.payload).length = f.payload.length by simp [unmask]) rest
  rw [body,List.append_assoc,bindOk (fullRead (f.keyed mask masked) _),bindOk data,unmaskTwice,opcode]
  rfl

theorem decodeWire (open_ : f.mask = none) : decodeFrame (f.wire ++ rest) =
    if permitted f.fin f.rsv f.opcode f.payload.length then .ok ((f.opcode.val,f.payload),rest) else .error .forbidden := by
  obtain ⟨isFin,rsv,opcode⟩ := firstBits f
  have body : f.body = f.payload := by rw [Frame.body,open_]
  have checks : (permitted (f.first &&& 0x80 ≠ 0) (f.first &&& 0x70).toNat (f.first &&& 0x0f).toNat f.payload.length &&
      f.second &&& 0x80 = 0 && (f.second &&& 0x7f).toNat = shortest f.payload.length) =
      permitted f.fin f.rsv f.opcode f.payload.length := by
    rw [rsv,opcode,(secondBits f).2]
    simp [permitted,isFin,(secondBits f).1,open_]
  rw [decodeFrame,bindOk (headerRead f rest)]
  simp only [List.getD_cons_zero,List.getD_cons_succ]
  rw [bindOk (lengthRead f rest),checks]
  by_cases allowed : permitted f.fin f.rsv f.opcode f.payload.length = true
  · rw [if_pos allowed,if_pos allowed,body,bindOk (fullRead rfl rest),opcode]
    rfl
  rw [if_neg allowed,if_neg allowed]
  rfl
end

theorem framesRead {max : Int} {frames : List Frame} (pos : 0 < max)
    (valid : ∀ f ∈ frames, f.valid = true ∧ f.payload.length ≤ max) :
    Reads (readFrames max frames.length) (frames.flatMap Frame.wire) (frames.map fun f => (f.opcode.val,f.payload)) := by
  induction frames with
  | nil => exact readsPure []
  | cons f frames ih =>
    obtain ⟨own,fits⟩ := valid f List.mem_cons_self
    have later := ih fun g mem => valid g (List.mem_cons_of_mem f mem)
    simp only [Frame.valid,permitted,Bool.and_eq_true] at own
    have first : Reads (readFrame max) f.wire (f.opcode.val,f.payload) := by
      intro rest
      rw [readWire,if_neg (by simp [own,Option.isSome_iff_ne_none.mp own.2]),if_neg (by omega)]
    have all := readsBind (f := fun later => pure ((f.opcode.val,f.payload) :: later)) later (readsPure _)
    rw [List.append_nil] at all
    exact readsBind first all

theorem writtenWire (ok : messageType ∈ messageTypes) (short : data.length < 2 ^ 63) :
    ∃ f : Frame, f.wire = writeWebSocketFrame messageType data ∧ f.mask = none ∧ f.opcode = messageType ∧ f.payload = data ∧
      (permitted f.fin f.rsv f.opcode f.payload.length = true ↔ (8 ≤ messageType → data.length ≤ 125)) := by
  have below : messageType < 16 := by
    revert messageType
    decide
  refine ⟨⟨true,0,⟨messageType,below⟩,none,data,nofun,short⟩,?_,rfl,rfl,rfl,?_⟩
  · have first : ∀ t ∈ messageTypes, ofNat (128 + t) = 0x80 ||| ofNat t := by decide
    simp [Frame.wire,Frame.first,Frame.second,Frame.body,writeWebSocketFrame,first messageType ok]
  simp only [permitted,List.contains_iff_mem.mpr ok]
  simp
  omega

/-- What WriteMessage sends is read back unless it is an oversized control frame, and readFrame
refuses for FIN, mask or size only. -/
theorem framesConform (n : Int) :
    (∀ messageType payload bytes, payload.length < 2 ^ 63 → writeMessage messageType payload = .ok bytes →
      (Reads decodeFrame bytes (messageType,payload) ↔ (8 ≤ messageType → payload.length ≤ 125))) ∧
    (∀ frames : List Frame, (∀ f ∈ frames, f.valid = true ∧ f.payload.length ≤ withWebSocketMaxMessageBytes n) →
      Reads (readFrames (withWebSocketMaxMessageBytes n) frames.length) (frames.flatMap Frame.wire)
        (frames.map fun f => (f.opcode.val,f.payload))) ∧
    ∀ (f : Frame) rest, Fails (readFrame (withWebSocketMaxMessageBytes n) (f.wire ++ rest)) ↔
      f.fin = false ∨ f.mask = none ∨ withWebSocketMaxMessageBytes n < f.payload.length := by
  have positive : 0 < withWebSocketMaxMessageBytes n := by
    unfold withWebSocketMaxMessageBytes
    split <;> omega
  refine ⟨fun messageType payload bytes short ok => ?_,fun frames => framesRead positive,fun f rest => ?_⟩
  · unfold writeMessage at ok
    split at ok <;> cases ok
    rename_i accepted
    obtain ⟨f,wire,open_,opcode,same,allowed⟩ := writtenWire (List.contains_iff_mem.mp accepted) short
    rw [← wire,← allowed]
    constructor
    · intro reads
      by_contra refused
      have read := reads []
      rw [decodeWire f [] open_,if_neg refused] at read
      contradiction
    · intro permits rest
      rw [decodeWire f rest open_,if_pos permits,opcode,same]
  · rw [readWire]
    split
    · exact iff_of_true ⟨_,rfl⟩ (by tauto)
    split
    · exact iff_of_true ⟨_,rfl⟩ (by omega)
    · exact iff_of_false nofun (by tauto)

theorem forbiddenPass : readFrame 1024 [0xf3,0x80,0,0,0,0] = .ok ((3,[]),[]) ∧
      readFrame 1024 ([0x89,0xfe,0,126,0,0,0,0] ++ List.replicate 126 7) = .ok ((9,List.replicate 126 7),[]) ∧
      decodeFrame (writeWebSocketFrame 9 (List.replicate 126 7)) = .error .forbidden := by decide +kernel

theorem pingConforms : Reads decodeFrame [0x89,1,7] (9,[7]) :=
  ((framesConform 0).1 9 [7] [0x89,1,7] (by decide) rfl).mpr (by decide)

end Gofly.WebSocket
