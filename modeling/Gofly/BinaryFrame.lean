import Gofly.ByteReader
import Mathlib.Data.Finmap

/-! The binary message frame: a version byte, then uvarint-length-prefixed fields. Strings are
byte sequences, as in the source language, and have no encoding. -/
namespace Gofly.BinaryFrame
open ByteReader

def maxInt : Nat := 2 ^ 63 - 1
abbrev MD := Finmap (fun _ : Bytes => Bytes)

structure Message where
  service : Bytes
  method : Bytes
  codec : Bytes
  payload : Bytes
  md : MD
  code : Bytes
  error : Bytes

def MD.ofEntries (entries : List (Bytes × Bytes)) : MD :=
  entries.foldl (fun md e => md.insert e.1 e.2) ∅

structure Iterates (md : MD) (order : List (Bytes × Bytes)) : Prop where
  distinct : (order.map Prod.fst).Nodup
  same : MD.ofEntries order = md

def writeFrameBytes (value : Bytes) : Bytes := putUvarint value.length ++ value
def writeFrameString (value : Bytes) : Bytes := writeFrameBytes value
def writeEntry (e : Bytes × Bytes) : Bytes := writeFrameString e.1 ++ writeFrameString e.2
def writeFrameMetadata (order : List (Bytes × Bytes)) : Bytes :=
  putUvarint order.length ++ order.flatMap writeEntry

def marshal (msg : Message) (order : List (Bytes × Bytes)) : Bytes :=
  [1] ++ (writeFrameString msg.service ++ (writeFrameString msg.method ++ (writeFrameString msg.codec ++
    (writeFrameBytes msg.payload ++ (writeFrameMetadata order ++
      (writeFrameString msg.code ++ writeFrameString msg.error))))))

def readFrameBytes : Reader Short Bytes := do
  let length ← readUvarint
  require (fun left => length ≤ maxInt ∧ length ≤ left) .unexpectedEOF
  readFull length

def readFrameString : Reader Short Bytes := readFrameBytes

def readEntries : Nat → MD → Reader Short MD
  | 0,md => pure md
  | count + 1,md => do
    let key ← readFrameString
    let value ← readFrameString
    readEntries count (md.insert key value)

def readFrameMetadata : Reader Short MD := do
  let count ← readUvarint
  if count = 0 then pure ∅
  else do
    require (fun left => count ≤ maxInt ∧ count ≤ left / 2 + 1) .unexpectedEOF
    readEntries count ∅

inductive Malformed where
  | read (field : String) (cause : Short)
  | version (v : UInt8)
  | trailing (bytes : Nat)
  deriving DecidableEq

def readVersion (short : Short → ε) (wrong : UInt8 → ε) : Reader ε Unit := do
  let version ← label short readByte
  if version = 1 then pure () else throw (wrong version)

def readMessage : Reader Malformed Message := do
  readVersion (.read "version") .version
  let service ← label (.read "service") readFrameString
  let method ← label (.read "method") readFrameString
  let codec ← label (.read "codec") readFrameString
  let payload ← label (.read "payload") readFrameBytes
  let md ← label (.read "metadata") readFrameMetadata
  let code ← label (.read "code") readFrameString
  let error ← label (.read "error") readFrameString
  pure ⟨service,method,codec,payload,md,code,error⟩

def unmarshal (data : Bytes) : Except Malformed Message :=
  match readMessage data with
  | .error e => .error e
  | .ok (msg,rest) => if rest.length ≠ 0 then .error (.trailing rest.length) else .ok msg

theorem localFrameBytes : Local readFrameBytes := localBind localUvarint fun _ => localBind
    (localRequire fun _ _ le had => ⟨had.1,had.2.trans le⟩) fun _ => localFull _

theorem localEntries (count md) : Local (readEntries count md) := by
  induction count generalizing md with
  | zero => exact localPure md
  | succ _ ih => exact localBind localFrameBytes fun _ => localBind localFrameBytes fun _ => ih _

theorem localMetadata : Local readFrameMetadata := by
  refine localBind localUvarint fun count => ?_
  split
  · exact localPure ∅
  refine localBind (localRequire fun m n le had => ⟨had.1,?_⟩) fun _ => localEntries _ _
  omega

theorem localVersion (short wrong) : Local (readVersion (ε := ε) short wrong) := by
  refine localBind (localLabel _ localByte) fun version => ?_
  split
  · exact localPure ()
  exact localThrow _

theorem localMessage : Local readMessage := localBind (localVersion _ _) fun _ =>
  localBind (localLabel _ localFrameBytes) fun _ => localBind (localLabel _ localFrameBytes) fun _ =>
  localBind (localLabel _ localFrameBytes) fun _ => localBind (localLabel _ localFrameBytes) fun _ =>
  localBind (localLabel _ localMetadata) fun _ => localBind (localLabel _ localFrameBytes) fun _ =>
  localBind (localLabel _ localFrameBytes) fun _ => localPure _

theorem readsFrameBytes (fits : value.length ≤ maxInt) : Reads readFrameBytes (writeFrameBytes value) value := by
  have small : value.length < 2 ^ 64 := by unfold maxInt at fits; omega
  refine readsBind (readsUvarint _ small) fun rest => ?_
  rw [bindOk (requireOk ⟨fits,by simp⟩)]
  exact readsFull value rest

def EntriesFit (entries : List (Bytes × Bytes)) : Prop :=
  ∀ e ∈ entries, e.1.length ≤ maxInt ∧ e.2.length ≤ maxInt

theorem readsEntries (fit : EntriesFit entries) (md) :
    Reads (readEntries entries.length md) (entries.flatMap writeEntry)
      (entries.foldl (fun md e => md.insert e.1 e.2) md) := by
  induction entries generalizing md with
  | nil => exact readsPure md
  | cons e _ ih =>
    have head := fit e List.mem_cons_self
    have rest := ih (fun e' mem => fit e' (List.mem_cons_of_mem _ mem)) (md.insert e.1 e.2)
    rw [List.flatMap_cons,writeEntry,List.append_assoc]
    exact readsBind (readsFrameBytes head.1) (readsBind (readsFrameBytes head.2) rest)

theorem frameBytesPositive (value) : 1 ≤ (writeFrameBytes value).length := by
  have := putUvarintPositive value.length
  simp only [writeFrameBytes,List.length_append]
  omega

theorem entriesLength (entries : List (Bytes × Bytes)) :
    2 * entries.length ≤ (entries.flatMap writeEntry).length := by
  induction entries with
  | nil => simp
  | cons e _ ih =>
    have key := frameBytesPositive e.1
    have value := frameBytesPositive e.2
    simp only [List.flatMap_cons,List.length_append,List.length_cons,writeEntry,writeFrameString] at ih ⊢
    omega

theorem readsMetadata (iterates : Iterates md order) (fit : EntriesFit order) (few : order.length ≤ maxInt) :
    Reads readFrameMetadata (writeFrameMetadata order) md := by
  have small : order.length < 2 ^ 64 := by unfold maxInt at few; omega
  refine readsBind (readsUvarint _ small) ?_
  split
  · rename_i none
    have empty : order = [] := List.eq_nil_of_length_eq_zero none
    subst empty
    rw [← iterates.same]
    exact readsPure ∅
  intro rest
  -- every entry takes two bytes at least, so the count passes the guard
  have bytes := entriesLength order
  rw [bindOk (requireOk ⟨few,by simp only [List.length_append]; omega⟩),← iterates.same]
  exact readsEntries fit ∅ rest

structure Message.InMemory (msg : Message) (order : List (Bytes × Bytes)) : Prop where
  service : msg.service.length ≤ maxInt
  method : msg.method.length ≤ maxInt
  codec : msg.codec.length ≤ maxInt
  payload : msg.payload.length ≤ maxInt
  code : msg.code.length ≤ maxInt
  error : msg.error.length ≤ maxInt
  entries : EntriesFit order
  count : order.length ≤ maxInt
instance (entries : List (Bytes × Bytes)) : Decidable (EntriesFit entries) :=
  inferInstanceAs (Decidable (∀ e ∈ entries, e.1.length ≤ maxInt ∧ e.2.length ≤ maxInt))
instance (msg : Message) (order : List (Bytes × Bytes)) : Decidable (msg.InMemory order) :=
  decidable_of_iff (msg.service.length ≤ maxInt ∧ msg.method.length ≤ maxInt ∧
      msg.codec.length ≤ maxInt ∧ msg.payload.length ≤ maxInt ∧ msg.code.length ≤ maxInt ∧
      msg.error.length ≤ maxInt ∧ EntriesFit order ∧ order.length ≤ maxInt)
    ⟨fun ⟨a,b,c,d,e,f,g,h⟩ => ⟨a,b,c,d,e,f,g,h⟩,
      fun ⟨a,b,c,d,e,f,g,h⟩ => ⟨a,b,c,d,e,f,g,h⟩⟩

theorem readsVersion (short wrong) : Reads (readVersion (ε := ε) short wrong) [1] () :=
  readsBind (readsLabel _ (readsByte 1)) (readsPure ())

theorem readsMessage (iterates : Iterates msg.md order)
    (fit : msg.InMemory order) : Reads readMessage (marshal msg order) msg := by
  have last : Reads (do
      let error ← label (Malformed.read "error") readFrameString
      pure (⟨msg.service,msg.method,msg.codec,msg.payload,msg.md,msg.code,error⟩ : Message))
      (writeFrameString msg.error) msg := by
    intro rest
    exact bindOk (readsLabel _ (readsFrameBytes fit.error) rest)
  exact readsBind (readsVersion _ _) <| readsBind (readsLabel _ (readsFrameBytes fit.service)) <|
    readsBind (readsLabel _ (readsFrameBytes fit.method)) <|
    readsBind (readsLabel _ (readsFrameBytes fit.codec)) <|
    readsBind (readsLabel _ (readsFrameBytes fit.payload)) <|
    readsBind (readsLabel _ (readsMetadata iterates fit.entries fit.count)) <|
    readsBind (readsLabel _ (readsFrameBytes fit.code)) last

theorem binaryExact (iterates : Iterates msg.md order)
    (fit : msg.InMemory order) : Exact unmarshal (marshal msg order) msg := by
  have reads := readsMessage iterates fit
  have whole : readMessage (marshal msg order) = .ok (msg,[]) := by simpa using reads []
  refine ⟨?_,?_,?_⟩
  · simp [unmarshal,whole]
  · intro cut more split strict
    obtain ⟨e,failed⟩ := cutFails localMessage (split ▸ whole) strict
    exact ⟨e,by simp only [unmarshal,failed]⟩
  intro more strict
  have left : more.length ≠ 0 := by simpa using strict
  exact ⟨.trailing more.length,by simp only [unmarshal,reads more,if_pos left]⟩

end Gofly.BinaryFrame
