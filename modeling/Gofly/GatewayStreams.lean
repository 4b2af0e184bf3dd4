import Gofly.GatewayAggregate
import Gofly.Transition
/-! Transcoded streams of the gateway and how they are settled with the breaker. A settlement
may be called from several places and counts once. -/
namespace Gofly.Gateway

def markOf (success : Bool) : Mark := if success then .success else .failure

structure Settlement (κ : Type) where
  reason : Option κ
  marks : List Mark
  deriving DecidableEq

variable {κ : Type}
def unsettled : Settlement κ := ⟨none,[]⟩

def Settlement.done (s : Settlement κ) (reason : κ) (success : Bool) : Settlement κ :=
  if s.reason.isSome then s else ⟨some reason,s.marks ++ [markOf success]⟩
def Settlement.Faithful (verdict : κ → Mark) (s : Settlement κ) : Prop := s.marks = s.reason.toList.map verdict

theorem doneFaithful {verdict : κ → Mark} {s : Settlement κ} (faithful : s.Faithful verdict)
    (agrees : markOf success = verdict reason) : (s.done reason success).Faithful verdict := by
  unfold Settlement.done
  split
  · exact faithful
  rename_i open'
  have none : s.reason = none := by simpa using open'
  have empty : s.marks = [] := by simpa [Settlement.Faithful,none] using faithful
  simp [Settlement.Faithful,empty,agrees]

theorem doneSettled (s : Settlement κ) (reason success) : (s.done reason success).reason.isSome = true := by
  unfold Settlement.done
  split
  · assumption
  rfl

def streamMaxBodyBytes : Nat := 16 * 1024 * 1024
def streamMaxMessages : Nat := 10000
def streamMaxFrameBytes : Nat := 1024 * 1024

structure StreamLimits where
  messages : Nat
  bytes : Nat
  deriving DecidableEq

def StreamLimits.count (l : StreamLimits) (size : Nat) : StreamLimits := ⟨l.messages + 1,l.bytes + size⟩
def StreamLimits.accept (l : StreamLimits) (size : Nat) : Bool :=
  l.messages ≤ streamMaxMessages && size ≤ streamMaxFrameBytes && l.bytes ≤ streamMaxBodyBytes

inductive Received where
  | message (mapped : Option Nat)
  | eof
  | failed
  deriving DecidableEq

section

inductive SseEnd where
  | eof
  | rpcError (canceled : Bool)
  | unwritten
  | unmapped
  | oversize
  | closed
  deriving DecidableEq

def SseEnd.verdict : SseEnd → Mark
  | .rpcError false => .failure
  | _ => .success

inductive Pending where
  | message
  | ended (eof : Bool)
  | receive
  | stopped
  deriving DecidableEq

structure SseBody where
  limits : StreamLimits
  pending : Pending
  closed : Bool
  settlement : Settlement SseEnd
  deriving DecidableEq

inductive SseAct where
  | write (ok : Bool)
  | receive (got : Received)
  | finish (canceled : Bool)
  | close
  deriving DecidableEq

def newTranscodeSSEBody (limits : StreamLimits) (eof : Bool) : SseBody :=
  ⟨limits,if eof then .ended true else .message,false,unsettled⟩

def SseBody.stop (b : SseBody) (reason : SseEnd) (success : Bool) : SseBody :=
  { b with pending := .stopped,settlement := b.settlement.done reason success }

def SseBody.take (b : SseBody) : Received → SseBody
  | .message none => b.stop .unmapped true
  | .message (some size) =>
    let limits := b.limits.count size
    if limits.accept size then { b with limits,pending := .message } else { b with limits }.stop .oversize true
  | .eof => { b with pending := .ended true }
  | .failed => { b with pending := .ended false }

def SseBody.step (b : SseBody) : SseAct → Option SseBody
  | .write ok =>
    if b.pending = .message then some (if ok then { b with pending := .receive } else b.stop .unwritten true) else none
  | .receive got => if b.pending = .receive then some (b.take got) else none
  | .finish canceled =>
    match b.pending with
    | .ended true => some (b.stop .eof true)
    | .ended false => some (b.stop (.rpcError canceled) canceled)
    | _ => none
  | .close => some { b with closed := true,settlement := b.settlement.done .closed true }

structure SseBody.Sound (b : SseBody) : Prop where
  faithful : b.settlement.Faithful SseEnd.verdict
  stopped : b.pending = .stopped → b.settlement.reason.isSome = true
  closed : b.closed = true → b.settlement.reason.isSome = true

variable {b next : SseBody}

theorem stopSound (sound : b.Sound) (agrees : markOf success = reason.verdict) : (b.stop reason success).Sound :=
  ⟨doneFaithful sound.faithful agrees,fun _ => doneSettled _ _ _,fun _ => doneSettled _ _ _⟩

theorem waitSound (sound : b.Sound) (open' : pending ≠ .stopped) : SseBody.Sound { b with limits,pending } :=
  { sound with stopped := fun stopped => absurd stopped open' }

theorem takeSound (sound : b.Sound) (got) : (b.take got).Sound := by
  unfold SseBody.take
  split
  · exact stopSound sound rfl
  · dsimp only
    split
    · exact waitSound sound (by simp)
    exact stopSound { sound with } rfl
  · exact waitSound sound (by simp)
  exact waitSound sound (by simp)

theorem sseSound (sound : b.Sound) (ran : b.step act = some next) : next.Sound := by
  cases act with
  | write ok =>
    simp only [SseBody.step] at ran
    split at ran <;> cases ran
    split
    · exact waitSound sound (by simp)
    exact stopSound sound rfl
  | receive got =>
    simp only [SseBody.step] at ran
    split at ran <;> cases ran
    exact takeSound sound got
  | finish canceled =>
    simp only [SseBody.step] at ran
    split at ran <;> try contradiction
    · cases ran
      exact stopSound sound rfl
    cases ran
    exact stopSound sound (by cases canceled <;> rfl)
  | close =>
    cases ran
    exact ⟨doneFaithful sound.faithful rfl,fun _ => doneSettled _ _ _,fun _ => doneSettled _ _ _⟩

theorem newSound (limits eof) : (newTranscodeSSEBody limits eof).Sound := by
  refine ⟨rfl,fun stopped => ?_,fun closed => ?_⟩
  · cases eof <;> simp [newTranscodeSSEBody] at stopped
  simp [newTranscodeSSEBody] at closed
end

inductive BridgeEnd where
  | headerError
  | headersUnwritten
  | eof
  | rpcError (canceled : Bool)
  | unmapped
  | oversizeReply
  | unwritten
  | contextDone
  | unread
  | notText
  | oversizeRequest
  | malformed
  | sentAfterClose
  | unmappedRequest
  | sendError (input : Bool)
  | closedTwice
  | closeSendError
  | unsupported
  | notUpgraded
  deriving DecidableEq

def BridgeEnd.verdict : BridgeEnd → Mark
  | .headerError => .failure
  | .rpcError false => .failure
  | .oversizeReply => .failure
  | .sendError false => .failure
  | .closeSendError => .failure
  | _ => .success

inductive Receiver where
  | header
  | receive
  | done
  deriving DecidableEq

structure Bridge where
  receiver : Receiver
  bridging : Bool
  halfClosed : Bool
  received : StreamLimits
  sent : StreamLimits
  settlement : Settlement BridgeEnd
  deriving DecidableEq

inductive Headers where
  | failed
  | empty
  | sent (written : Bool)
  deriving DecidableEq

inductive Envelope where
  | malformed
  | unsupported
  | message (mapped : Bool) (sendError : Option Bool)
  | halfClose (closed : Bool)
  deriving DecidableEq

inductive Inbound where
  | unread
  | ping
  | pong
  | other
  | text (size : Nat) (envelope : Envelope)
  deriving DecidableEq

inductive BridgeAct where
  | header (got : Headers)
  | receive (got : Received) (canceled written : Bool)
  | receiveDone
  | contextDone
  | inbound (message : Inbound)
  deriving DecidableEq

def newBridge : Bridge := ⟨.header,true,false,⟨0,0⟩,⟨0,0⟩,unsettled⟩

namespace Bridge

def endReceive (b : Bridge) (reason : BridgeEnd) (success : Bool) : Bridge :=
  { b with receiver := .done,settlement := b.settlement.done reason success }

-- an error is the bridge's own doing once it has closed the stream
def receiveError (b : Bridge) (reason : BridgeEnd) (success : Bool) : Bridge :=
  if b.bridging then b.endReceive reason success else { b with receiver := .done }

def leave (b : Bridge) (reason : BridgeEnd) (success : Bool) : Bridge :=
  { b with bridging := false,settlement := b.settlement.done reason success }

def takeHeader (b : Bridge) : Headers → Bridge
  | .failed => b.receiveError .headerError false
  | .empty => { b with receiver := .receive }
  | .sent true => { b with receiver := .receive }
  | .sent false => b.endReceive .headersUnwritten true

def take (b : Bridge) (got : Received) (canceled written : Bool) : Bridge :=
  match got with
  | .eof => b.endReceive .eof true
  | .failed => b.receiveError (.rpcError canceled) canceled
  | .message none => b.endReceive .unmapped true
  | .message (some size) =>
    let b := { b with received := b.received.count size }
    if !b.received.accept size then b.endReceive .oversizeReply false
    else if written then b else b.endReceive .unwritten true

def openEnvelope (b : Bridge) : Envelope → Bridge
  | .malformed => b.leave .malformed true
  | .unsupported => b.leave .unsupported true
  | .message mapped sendError =>
    if b.halfClosed then b.leave .sentAfterClose true
    else if !mapped then b.leave .unmappedRequest true
    else match sendError with
      | some input => b.leave (.sendError input) input
      | none => b
  | .halfClose closed =>
    if b.halfClosed then b.leave .closedTwice true
    else if !closed then b.leave .closeSendError false
    else { b with halfClosed := true }

def accept (b : Bridge) : Inbound → Bridge
  | .unread => b.leave .unread true
  | .ping => b
  | .pong => b
  | .other => b.leave .notText true
  | .text size envelope =>
    let b := { b with sent := b.sent.count size }
    if !b.sent.accept size then b.leave .oversizeRequest true else b.openEnvelope envelope

def step (b : Bridge) : BridgeAct → Option Bridge
  | .header got => if b.receiver = .header then some (b.takeHeader got) else none
  | .receive got canceled written => if b.receiver = .receive then some (b.take got canceled written) else none
  | .receiveDone => if b.bridging ∧ b.receiver = .done then some { b with bridging := false } else none
  | .contextDone => if b.bridging then some (b.leave .contextDone true) else none
  | .inbound message => if b.bridging then some (b.accept message) else none

structure Sound (b : Bridge) : Prop where
  faithful : b.settlement.Faithful BridgeEnd.verdict
  left : b.bridging = false → b.settlement.reason.isSome = true
  received : b.receiver = .done → b.bridging = true → b.settlement.reason.isSome = true

variable {b next : Bridge} {reason : BridgeEnd}

section
variable (sound : b.Sound)
include sound

section
variable (agrees : markOf success = reason.verdict)
include agrees

theorem endReceiveSound : (b.endReceive reason success).Sound :=
  ⟨doneFaithful sound.faithful agrees,fun _ => doneSettled _ _ _,fun _ _ => doneSettled _ _ _⟩

theorem receiveErrorSound : (b.receiveError reason success).Sound := by
  unfold receiveError
  split
  · exact endReceiveSound sound agrees
  exact { sound with received := fun _ bridging => absurd bridging ‹_› }

theorem leaveSound : (b.leave reason success).Sound :=
  ⟨doneFaithful sound.faithful agrees,fun _ => doneSettled _ _ _,fun _ _ => doneSettled _ _ _⟩
end

theorem receivingSound : Sound { b with receiver := .receive } :=
  { sound with received := by simp }

theorem headerSound (got) : (b.takeHeader got).Sound := by
  unfold takeHeader
  split
  · exact receiveErrorSound sound rfl
  · exact receivingSound sound
  · exact receivingSound sound
  exact endReceiveSound sound rfl

theorem takeSound (got canceled wrote) : (b.take got canceled wrote).Sound := by
  unfold take
  split
  · exact endReceiveSound sound rfl
  · exact receiveErrorSound sound (by cases canceled <;> rfl)
  · exact endReceiveSound sound rfl
  rename_i size
  have counted : Sound { b with received := b.received.count size } := { sound with }
  dsimp only
  split
  · exact endReceiveSound counted rfl
  split
  · exact counted
  exact endReceiveSound counted rfl

theorem envelopeSound (envelope) : (b.openEnvelope envelope).Sound := by
  unfold openEnvelope
  split
  · exact leaveSound sound rfl
  · exact leaveSound sound rfl
  · split
    · exact leaveSound sound rfl
    · split
      · exact leaveSound sound rfl
      · split
        · exact leaveSound sound (by cases ‹_› <;> rfl)
        · exact sound
  split
  · exact leaveSound sound rfl
  split
  · exact leaveSound sound rfl
  exact { sound with }

theorem acceptSound (message) : (b.accept message).Sound := by
  unfold accept
  split
  · exact leaveSound sound rfl
  · exact sound
  · exact sound
  · exact leaveSound sound rfl
  rename_i size envelope
  have counted : Sound { b with sent := b.sent.count size } := { sound with }
  dsimp only
  split
  · exact leaveSound counted rfl
  exact envelopeSound counted envelope

theorem stepSound (ran : b.step act = some next) : next.Sound := by
  cases act with
  | header got =>
    simp only [step] at ran
    split at ran <;> cases ran
    exact headerSound sound got
  | receive got canceled wrote =>
    simp only [step] at ran
    split at ran <;> cases ran
    exact takeSound sound got canceled wrote
  | receiveDone =>
    simp only [step] at ran
    split at ran <;> cases ran
    rename_i ended
    exact ⟨sound.faithful,fun _ => sound.received ended.2 ended.1,by simp⟩
  | contextDone =>
    simp only [step] at ran
    split at ran <;> cases ran
    exact leaveSound sound rfl
  | inbound message =>
    simp only [step] at ran
    split at ran <;> cases ran
    exact acceptSound sound message
end

theorem newSound : newBridge.Sound := ⟨rfl,by simp [newBridge],by simp [newBridge]⟩

end Bridge
end Gofly.Gateway
