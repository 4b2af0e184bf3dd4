import Gofly.BinaryFrame

/-! The message transports share one path: Send encodes the payload, stamps the codec name where
it is empty and marshals; the receiver decodes only under the name of its own codec. -/
namespace Gofly.FramedTransport
open ByteReader BinaryFrame

structure PayloadCodec where
  name : Bytes
  encode : Bytes → Option Bytes
  decode : Bytes → Option Bytes

structure FrameCodec where
  marshal : Message → Option Bytes
  unmarshal : Bytes → Option Message

structure Codecs where
  payload : PayloadCodec
  frame : FrameCodec

def stamp (codec : PayloadCodec) (msg : Message) : Option Message := do
  let encoded ← codec.encode msg.payload
  some { msg with payload := encoded,codec := if msg.codec = [] then codec.name else msg.codec }

def encodeMessage (c : Codecs) (msg : Message) : Option Bytes := do
  let stamped ← stamp c.payload msg
  c.frame.marshal stamped

def decodeMessage (c : Codecs) (data : Bytes) : Option Message := do
  let msg ← c.frame.unmarshal data
  if msg.codec = c.payload.name then
    let decoded ← c.payload.decode msg.payload
    some { msg with payload := decoded }
  else some msg

structure Codecs.Lawful (c : Codecs) : Prop where
  decodes : ∀ payload encoded, c.payload.encode payload = some encoded →
    c.payload.decode encoded = some payload
  unmarshals : ∀ msg data, c.frame.marshal msg = some data → c.frame.unmarshal data = some msg

def Transparent (c : Codecs) (msg : Message) : Prop :=
  msg.codec = [] ∨ msg.codec = c.payload.name ∨ c.payload.encode msg.payload = some msg.payload

theorem encodedStamp (ok : encodeMessage c msg = some data) :
    ∃ encoded stamped, c.payload.encode msg.payload = some encoded ∧
      stamped = { msg with payload := encoded,codec := if msg.codec = [] then c.payload.name else msg.codec } ∧
      c.frame.marshal stamped = some data := by
  simp only [encodeMessage,stamp,bind,Option.bind_eq_some_iff] at ok
  obtain ⟨stamped,⟨encoded,hEncoded,last⟩,hData⟩ := ok
  cases last
  exact ⟨encoded,_,hEncoded,rfl,hData⟩

theorem stampedName {c : Codecs} {msg : Message} :
    (if msg.codec = [] then c.payload.name else msg.codec) = c.payload.name ↔
      msg.codec = [] ∨ msg.codec = c.payload.name := by
  split
  · rename_i empty
    simp [empty]
  rename_i named
  simp [named]

section
variable (lawful : c.Lawful) (ok : encodeMessage c msg = some data)
include lawful ok

theorem decodesStamped (own : msg.codec = [] ∨ msg.codec = c.payload.name) :
    decodeMessage c data = some { msg with codec := c.payload.name } := by
  obtain ⟨encoded,stamped,hEncoded,rfl,hData⟩ := encodedStamp ok
  have name := stampedName.mpr own
  simp only [decodeMessage,bind,lawful.unmarshals _ _ hData,Option.bind_some,if_pos name, lawful.decodes _ _ hEncoded]
  simp only [name]

theorem decodesForeign (foreign : ¬ (msg.codec = [] ∨ msg.codec = c.payload.name)) :
    ∃ encoded, c.payload.encode msg.payload = some encoded ∧
      decodeMessage c data = some { msg with payload := encoded } := by
  obtain ⟨encoded,stamped,hEncoded,rfl,hData⟩ := encodedStamp ok
  have other : ¬ (if msg.codec = [] then c.payload.name else msg.codec) = c.payload.name :=
    fun eq => foreign (stampedName.mp eq)
  have set : msg.codec ≠ [] := fun empty => foreign (.inl empty)
  refine ⟨encoded,hEncoded,?_⟩
  simp only [decodeMessage,bind,lawful.unmarshals _ _ hData,Option.bind_some,if_neg other]
  simp only [if_neg set]

theorem decodedPayload :
    ∃ got, decodeMessage c data = some got ∧ (got.payload = msg.payload ↔ Transparent c msg) := by
  by_cases own : msg.codec = [] ∨ msg.codec = c.payload.name
  · refine ⟨_,decodesStamped lawful ok own,?_⟩
    rcases own with h | h <;> simp [Transparent,h]
  obtain ⟨encoded,hEncoded,decoded⟩ := decodesForeign lawful ok own
  obtain ⟨set,other⟩ := not_or.mp own
  exact ⟨_,decoded,by simp [Transparent,set,other,hEncoded]⟩
end

def noopPayloadCodec : PayloadCodec := ⟨ascii "identity",some,some⟩

def plainFrameCodec : FrameCodec where
  marshal msg := if msg.md = ∅ ∧ msg.InMemory [] then some (marshal msg []) else none
  unmarshal data := (unmarshal data).toOption

theorem plainUnmarshals (ok : plainFrameCodec.marshal msg = some data) :
    plainFrameCodec.unmarshal data = some msg := by
  simp only [plainFrameCodec] at ok ⊢
  split at ok <;> cases ok
  rename_i plain
  have iterates : Iterates msg.md [] := ⟨by decide,plain.1.symm⟩
  rw [(binaryExact iterates plain.2).accepts]
  rfl

def plainCodecs : Codecs := ⟨noopPayloadCodec,plainFrameCodec⟩

theorem plainLawful : plainCodecs.Lawful := ⟨fun _ _ encoded => encoded.symm,fun _ _ => plainUnmarshals⟩

structure Transport where
  maxFrame : Int
  codecs : Codecs

inductive TransportError where
  | codec
  | frameTooLarge
  | header (cause : Short)
  | body (cause : Short)
  deriving DecidableEq

def maxUint32 : Nat := 2 ^ 32 - 1

def Transport.send (t : Transport) (msg : Message) : Except TransportError Bytes :=
  match encodeMessage t.codecs msg with
  | none => .error .codec
  | some data =>
    if t.maxFrame < data.length ∨ maxUint32 < data.length then .error .frameTooLarge
    else .ok (be 4 data.length ++ data)

def Transport.receive (t : Transport) : Reader TransportError Message := do
  let header ← label .header (readFull 4)
  if readBE header = 0 ∨ t.maxFrame < readBE header then throw .frameTooLarge
  else do
    let data ← label .body (readFull (readBE header))
    match decodeMessage t.codecs data with
    | none => throw .codec
    | some msg => pure msg

theorem sentExact {t : Transport} (ok : t.send msg = .ok wire) :
    ∃ data, encodeMessage t.codecs msg = some data ∧ (data.length : Int) ≤ t.maxFrame ∧
      data.length ≤ maxUint32 ∧ wire = be 4 data.length ++ data := by
  unfold Transport.send at ok
  split at ok <;> try contradiction
  rename_i data hData
  split at ok <;> cases ok
  exact ⟨data,hData,by omega,by omega,rfl⟩

theorem headerBack (fits : n ≤ maxUint32) : readBE (be 4 n) = n :=
  readBeBounded 4 n (by unfold maxUint32 at fits; omega)

theorem readsHeader {ε α : Type} (f n) (next : Bytes → Reader ε α) (rest) :
    (do let header ← label f (readFull 4); next header : Reader ε α) (be 4 n ++ rest) =
      next (be 4 n) rest := by
  have full := readsFull (be 4 n)
  rw [beLength] at full
  exact bindOk (readsLabel f full rest)

theorem receivesSent {t : Transport}
    (fits : (data.length : Int) ≤ t.maxFrame) (word : data.length ≤ maxUint32) (full : data ≠ [])
    (decoded : decodeMessage t.codecs data = some got) (rest) :
    t.receive (be 4 data.length ++ data ++ rest) = .ok (got,rest) := by
  have nonzero : data.length ≠ 0 := by simpa using full
  rw [Transport.receive,List.append_assoc,readsHeader,headerBack word,if_neg (by omega),
    bindOk (readsLabel _ (readsFull data) rest),decoded]
  rfl

theorem refusesEmpty {t : Transport} (rest) : t.receive (be 4 0 ++ rest) = .error .frameTooLarge := by
  rw [Transport.receive,readsHeader,headerBack (Nat.zero_le _)]
  rfl

theorem framedPayload {t : Transport} (lawful : t.codecs.Lawful) (ok : t.send msg = .ok wire) (rest) :
    (∃ got, t.receive (wire ++ rest) = .ok (got,rest) ∧ got.payload = msg.payload) ↔
      Transparent t.codecs msg ∧ encodeMessage t.codecs msg ≠ some [] := by
  obtain ⟨data,encoded,fits,word,rfl⟩ := sentExact ok
  obtain ⟨got,decoded,eq⟩ := decodedPayload lawful encoded
  by_cases empty : data = []
  · subst empty
    simp only [List.length_nil,List.append_nil,refusesEmpty,encoded,ne_eq,not_true_eq_false, and_false,iff_false]
    rintro ⟨got,received,_⟩
    cases received
  have full : encodeMessage t.codecs msg ≠ some [] := by simpa [encoded] using empty
  rw [receivesSent fits word empty decoded rest]
  constructor
  · rintro ⟨other,received,payload⟩
    cases received
    exact ⟨eq.mp payload,full⟩
  intro holds
  exact ⟨got,rfl,eq.mpr holds.1⟩

end Gofly.FramedTransport
