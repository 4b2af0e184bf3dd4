import Gofly.GatewayStreams
/-! What one proxied attempt tells the breaker of its route. Every function goes through its
return paths; what happens outside of it, the upstream's answer too, is its course. -/
namespace Gofly.Gateway
open Transition Governance

inductive Code where
  | canceled
  | unknown
  | invalidArgument
  | deadlineExceeded
  | notFound
  | alreadyExists
  | permissionDenied
  | resourceExhausted
  | failedPrecondition
  | aborted
  | outOfRange
  | unimplemented
  | internal
  | unavailable
  | dataLoss
  | unauthenticated
  deriving DecidableEq

def Code.httpStatus : Code → Int
  | .canceled => 499
  | .invalidArgument => 400
  | .deadlineExceeded => 504
  | .notFound => 404
  | .alreadyExists => 409
  | .permissionDenied => 403
  | .resourceExhausted => 429
  | .failedPrecondition => 400
  | .aborted => 409
  | .outOfRange => 400
  | .unimplemented => 501
  | .unavailable => 503
  | .unauthenticated => 401
  | .unknown => 500
  | .internal => 500
  | .dataLoss => 500

inductive AttemptErr (ε : Type) where
  | foreign (e : ε)
  | rpc (code : Code)
  | upstreamStatus (status : Int)
  deriving DecidableEq

structure Attempt (ε : Type) where
  status : Int := 0
  hijacked : Bool := false
  doNotRetry : Bool := false
  err : Option (AttemptErr ε) := none
  contacted : Bool := false
  marks : List Mark := []
  body : Option SseBody := none
  bridge : Option Bridge := none
  deriving DecidableEq

variable {ε : Type}
def ended (marks : List Mark) (e : AttemptErr ε) : Attempt ε := { err := some e,marks }

structure Gate (ε : Type) where
  refused : Option ε
  unpicked : Option ε
  deriving DecidableEq

def Gate.pass (gate : Gate ε) (attempt : Attempt ε) : Attempt ε :=
  match gate.refused with
  | some e => ended [] (.foreign e)
  | none =>
    match gate.unpicked with
    | some e => ended [.failure] (.foreign e)
    | none => attempt

inductive HttpAnswer (ε : Type) where
  | error (e : ε)
  | response (status : Int) (streaming : Bool) (copyErr : Option ε)
  deriving DecidableEq

structure HttpCourse (ε : Type) where
  targetErr : Option ε
  requestErr : Option ε
  answer : HttpAnswer ε
  deriving DecidableEq

def proxyHTTPOnce (c : HttpCourse ε) : Attempt ε :=
  match c.targetErr with
  | some e => ended [.failure] (.foreign e)
  | none =>
    match c.requestErr with
    | some e => ended [] (.foreign e)
    | none =>
      match c.answer with
      | .error e => { ended [.failure] (.foreign e) with contacted := true }
      | .response status streaming copyErr =>
        if status < statusInternalServerError ∧ streaming then
          { status,contacted := true,marks := [markOf (decide (status < statusInternalServerError))] }
        else
          { status,err := copyErr.map .foreign,contacted := true
            marks := [markOf (decide (status < statusInternalServerError) && copyErr.isNone)] }

inductive Dial (ε : Type) where
  | unaddressed (e : ε)
  | error (e : ε)
  | response (status : Int)
  deriving DecidableEq

def statusSwitchingProtocols : Int := 101

structure WebSocketCourse (ε : Type) where
  targetErr : Option ε
  dial : Dial ε
  hijackErr : Option ε
  writeErr : Option ε
  flushErr : Option ε
  deriving DecidableEq

def proxyWebSocket (c : WebSocketCourse ε) : Attempt ε :=
  match c.targetErr with
  | some e => ended [.failure] (.foreign e)
  | none =>
    match c.dial with
    | .unaddressed e => ended [.failure] (.foreign e)
    | .error e => { ended [.failure] (.foreign e) with contacted := true }
    | .response status =>
      if status ≠ statusSwitchingProtocols then { ended [.failure] (.upstreamStatus status) with contacted := true }
      else match c.hijackErr with
        | some e => { ended [.failure] (.foreign e) with contacted := true }
        | none =>
          match c.writeErr.or c.flushErr with
          | some e =>
            { ended [] (.foreign e) with status := statusSwitchingProtocols,hijacked := true,contacted := true }
          | none => { status := statusSwitchingProtocols,hijacked := true,contacted := true,marks := [.success] }

def transcodeCallError (contacted : Bool) (code : Code) : Attempt ε :=
  { status := code.httpStatus,contacted,marks := [.failure]
    err := if code = .unavailable ∨ code = .deadlineExceeded then some (.rpc code) else none }

inductive FirstReceived where
  | message (mapped : Option Nat)
  | eof
  | failed (code : Code)
  deriving DecidableEq

inductive Opening where
  | failed (contacted : Bool) (code : Code) (established : Bool)
  | opened (first : FirstReceived)
  deriving DecidableEq

inductive UnaryCall where
  | failed (contacted : Bool) (code : Code)
  | answered (mapped : Bool)
  deriving DecidableEq

structure TranscodeCourse (ε : Type) where
  targetErr : Option ε
  payloadErr : Bool
  clientErr : Option ε
  pathErr : Option ε
  opening : Option Opening
  call : UnaryCall
  deriving DecidableEq

def statusTooManyRequests : Int := 429

def openServerStream : Opening → Attempt ε
  | .failed contacted code established =>
    let result := transcodeCallError contacted code
    if established then { result with err := none,doNotRetry := true } else result
  | .opened first =>
    match first with
    | .failed code => { (transcodeCallError true code : Attempt ε) with err := none,doNotRetry := true }
    | .message none => { status := statusBadRequest,contacted := true,marks := [.success] }
    | .message (some size) =>
      let limits := StreamLimits.count ⟨0,0⟩ size
      if !limits.accept size then
        { status := statusTooManyRequests,contacted := true,marks := [.success],doNotRetry := true }
      else { status := statusOK,contacted := true,body := some (newTranscodeSSEBody limits false) }
    | .eof => { status := statusOK,contacted := true,body := some (newTranscodeSSEBody ⟨0,0⟩ true) }

def transcodeOnce (c : TranscodeCourse ε) : Attempt ε :=
  match c.targetErr with
  | some e => ended [.failure] (.foreign e)
  | none =>
    if c.payloadErr then { status := statusBadRequest }
    else match c.clientErr.or c.pathErr with
      | some e => ended [.failure] (.foreign e)
      | none =>
        match c.opening with
        | some opening => openServerStream opening
        | none =>
          match c.call with
          | .failed contacted code => transcodeCallError contacted code
          | .answered mapped =>
            { status := if mapped then statusOK else statusBadRequest,contacted := true,marks := [.success] }

inductive StreamCall where
  | failed (code : Code) (input : Bool)
  | answered (mapped : Bool)
  deriving DecidableEq

structure ClientStreamCourse (ε : Type) where
  media : Bool
  targetErr : Option ε
  clientErr : Option ε
  supported : Bool
  pathErr : Option ε
  handled : Bool
  contacted : Bool
  call : StreamCall
  canceled : Option ε
  deriving DecidableEq

def statusUnsupportedMediaType : Int := 415
def statusRequestEntityTooLarge : Int := 413

def ClientStreamCourse.outcome (c : ClientStreamCourse ε) : StreamCall :=
  if c.handled then c.call else .failed .unimplemented false

def transcodeClientStreamOnce (c : ClientStreamCourse ε) : Attempt ε :=
  match c.targetErr.or c.clientErr with
  | some e => ended [] (.foreign e)
  | none =>
    if !c.supported then transcodeCallError false .unimplemented
    else match c.pathErr with
      | some e => ended [] (.foreign e)
      | none =>
        match c.canceled with
        | some e => { ended [.success] (.foreign e) with contacted := c.contacted }
        | none =>
          match c.outcome with
          | .failed code true =>
            { status := if code = .resourceExhausted then statusRequestEntityTooLarge else code.httpStatus
              contacted := c.contacted }
          | .failed code false => { (transcodeCallError c.contacted code : Attempt ε) with err := none }
          | .answered false => { status := statusBadRequest,contacted := c.contacted }
          | .answered true => { status := statusOK,contacted := c.contacted,marks := [.success] }

def proxyClientStream (gate : Gate ε) (c : ClientStreamCourse ε) : Attempt ε :=
  if !c.media then { status := statusUnsupportedMediaType } else gate.pass (transcodeClientStreamOnce c)

inductive BridgeOpening where
  | failed (contacted : Bool) (code : Code)
  | unhandled
  | opened
  deriving DecidableEq

structure BridgeCourse (ε : Type) where
  offered : Bool
  targetErr : Option ε
  clientErr : Option ε
  supported : Bool
  pathErr : Option ε
  opening : BridgeOpening
  upgradeErr : Option ε
  deriving DecidableEq

def openBidirectionalStream (c : BridgeCourse ε) : Attempt ε :=
  match c.targetErr.or c.clientErr with
  | some e => ended [] (.foreign e)
  | none =>
    if !c.supported then transcodeCallError false .unimplemented
    else match c.pathErr with
      | some e => ended [] (.foreign e)
      | none =>
        match c.opening with
        | .failed contacted code => transcodeCallError contacted code
        | .unhandled => transcodeCallError false .unimplemented
        | .opened =>
          match c.upgradeErr with
          | some e =>
            { ended (unsettled.done BridgeEnd.notUpgraded true).marks (.foreign e) with contacted := true }
          | none => { status := statusSwitchingProtocols,hijacked := true,contacted := true,bridge := some newBridge }

def proxyBidirectionalStream (gate : Gate ε) (c : BridgeCourse ε) : Attempt ε :=
  if !c.offered then { status := statusBadRequest } else gate.pass (openBidirectionalStream c)

structure Settled (a : Attempt ε) (leftOut fails : Bool) : Prop where
  once : a.marks.length ≤ 1
  streams : (a.body.isSome || a.bridge.isSome) = true → a.marks = []
  exact : a.contacted = true → leftOut = false → (a.body.isSome || a.bridge.isSome) = false →
    a.marks = [markOf !fails]

theorem quietSettled (once : a.marks.length ≤ 1) (alone : (a.body.isSome || a.bridge.isSome) = false)
    (quiet : a.contacted = true → leftOut = true) : Settled a leftOut fails := by
  refine ⟨once,fun going => ?_,fun called kept => ?_⟩
  · rw [alone] at going
    contradiction
  rw [quiet called] at kept
  contradiction

theorem markedSettled (alone : (a.body.isSome || a.bridge.isSome) = false) (marks : a.marks = [markOf !fails]) :
    Settled a leftOut fails := by
  refine ⟨by simp [marks],fun going => ?_,fun _ _ _ => marks⟩
  rw [alone] at going
  contradiction

theorem streamSettled (going : (a.body.isSome || a.bridge.isSome) = true) (marks : a.marks = []) :
    Settled a leftOut fails := by
  refine ⟨by simp [marks],fun _ => marks,fun _ _ alone => ?_⟩
  rw [alone] at going
  contradiction

theorem endedSettled (once : marks.length ≤ 1) (e : AttemptErr ε) : Settled (ended marks e) leftOut fails :=
  quietSettled once rfl (by simp [ended])

theorem passSettled (done : Settled a leftOut fails) (gate : Gate ε) : Settled (gate.pass a) leftOut fails := by
  unfold Gate.pass
  split
  · exact endedSettled (by simp) _
  split
  · exact endedSettled (by simp) _
  exact done

def HttpCourse.fails (c : HttpCourse ε) : Bool :=
  match c.answer with
  | .error _ => true
  | .response status streaming copyErr =>
    decide (statusInternalServerError ≤ status) || (!streaming && copyErr.isSome)

theorem httpSettled (c : HttpCourse ε) : Settled (proxyHTTPOnce c) false c.fails := by
  unfold proxyHTTPOnce HttpCourse.fails
  split
  · exact endedSettled (by simp) _
  split
  · exact endedSettled (by simp) _
  cases c.answer with
  | error => exact markedSettled rfl rfl
  | response status streaming copyErr =>
    dsimp only
    split
    · rename_i fits
      refine markedSettled rfl ?_
      simp [fits.1,fits.2,not_le.mpr fits.1]
    rename_i other
    refine markedSettled rfl ?_
    by_cases below : status < statusInternalServerError
    · have plain : streaming = false := by simpa [below] using other
      cases copyErr <;> simp [below,plain,not_le.mpr below]
    simp [below,not_lt.mp below]

def WebSocketCourse.fails (c : WebSocketCourse ε) : Bool :=
  match c.dial with
  | .response status => decide (status ≠ statusSwitchingProtocols)
  | _ => true

def WebSocketCourse.leftOut (c : WebSocketCourse ε) : Bool :=
  !c.fails && (c.hijackErr.isSome || (c.writeErr.or c.flushErr).isSome)

theorem webSocketSettled (c : WebSocketCourse ε) : Settled (proxyWebSocket c) c.leftOut c.fails := by
  unfold proxyWebSocket WebSocketCourse.leftOut WebSocketCourse.fails
  split
  · exact endedSettled (by simp) _
  cases c.dial with
  | unaddressed => exact endedSettled (by simp) _
  | error => exact markedSettled rfl rfl
  | response status =>
    by_cases switched : status = statusSwitchingProtocols
    · simp only [switched,ne_eq,not_true_eq_false,if_false]
      split
      · exact quietSettled (by simp [ended]) rfl (by simp [‹_›])
      split
      · exact quietSettled (by simp [ended]) rfl (by simp [‹_›])
      exact markedSettled rfl rfl
    simp only [ne_eq,switched]
    exact markedSettled rfl rfl

theorem callErrorSettled (called code) : Settled (transcodeCallError called code : Attempt ε) leftOut true :=
  markedSettled rfl rfl

def TranscodeCourse.fails (c : TranscodeCourse ε) : Bool :=
  match c.opening with
  | some (.failed _ _ _) => true
  | some (.opened (.failed _)) => true
  | some (.opened _) => false
  | none =>
    match c.call with
    | .failed _ _ => true
    | .answered _ => false

theorem openedSettled (first) :
    Settled (openServerStream (.opened first) : Attempt ε) false (first matches .failed _) := by
  unfold openServerStream
  cases first with
  | failed => exact markedSettled rfl rfl
  | eof => exact streamSettled rfl rfl
  | message mapped =>
    cases mapped with
    | none => exact markedSettled rfl rfl
    | some =>
      dsimp only
      split
      · exact markedSettled rfl rfl
      exact streamSettled rfl rfl

theorem transcodeSettled (c : TranscodeCourse ε) : Settled (transcodeOnce c) false c.fails := by
  unfold transcodeOnce TranscodeCourse.fails
  split
  · exact endedSettled (by simp) _
  split
  · exact quietSettled (by simp) rfl (by simp)
  split
  · exact endedSettled (by simp) _
  cases c.opening with
  | none =>
    cases c.call with
    | failed called code => exact callErrorSettled called code
    | answered => exact markedSettled rfl rfl
  | some opening =>
    cases opening with
    | failed called code established =>
      cases established
      · exact callErrorSettled called code
      exact markedSettled rfl rfl
    | opened first => cases first <;> exact openedSettled _

def ClientStreamCourse.fails (c : ClientStreamCourse ε) : Bool :=
  c.canceled.isNone && c.outcome matches .failed _ false

def ClientStreamCourse.leftOut (c : ClientStreamCourse ε) : Bool :=
  c.canceled.isNone && (c.outcome matches .failed _ true || c.outcome matches .answered false)

theorem clientStreamSettled (c : ClientStreamCourse ε) : Settled (transcodeClientStreamOnce c) c.leftOut c.fails := by
  unfold transcodeClientStreamOnce ClientStreamCourse.leftOut ClientStreamCourse.fails
  split
  · exact endedSettled (by simp) _
  split
  · exact quietSettled (by simp [transcodeCallError]) rfl (by simp [transcodeCallError])
  split
  · exact endedSettled (by simp) _
  cases c.canceled with
  | some => exact markedSettled rfl rfl
  | none =>
    cases c.outcome with
    | failed _ input =>
      cases input
      · exact markedSettled rfl rfl
      exact quietSettled (by simp) rfl fun _ => rfl
    | answered mapped =>
      cases mapped
      · exact quietSettled (by simp) rfl fun _ => rfl
      exact markedSettled rfl rfl

def BridgeCourse.fails (c : BridgeCourse ε) : Bool := c.opening matches .failed _ _

theorem bridgeOpeningSettled (c : BridgeCourse ε) : Settled (openBidirectionalStream c) false c.fails := by
  unfold openBidirectionalStream BridgeCourse.fails
  split
  · exact endedSettled (by simp) _
  split
  · exact quietSettled (by simp [transcodeCallError]) rfl (by simp [transcodeCallError])
  split
  · exact endedSettled (by simp) _
  cases c.opening with
  | failed called code => exact callErrorSettled called code
  | unhandled => exact quietSettled (by simp [transcodeCallError]) rfl (by simp [transcodeCallError])
  | opened =>
    dsimp only
    split
    · exact markedSettled rfl rfl
    exact streamSettled rfl rfl

theorem bodyStarted (gate : Gate ε)
    (started : (gate.pass (transcodeOnce c)).body = some b) : ∃ limits eof, b = newTranscodeSSEBody limits eof := by
  unfold Gate.pass at started
  split at started <;> try contradiction
  split at started <;> try contradiction
  unfold transcodeOnce at started
  split at started <;> try contradiction
  split at started <;> try contradiction
  split at started <;> try contradiction
  cases opened : c.opening with
  | none =>
    rw [opened] at started
    cases call : c.call <;> simp [call,transcodeCallError] at started
  | some opening =>
    rw [opened] at started
    cases opening with
    | failed _ _ established => cases established <;> simp [openServerStream,transcodeCallError] at started
    | opened first =>
      cases first with
      | failed => simp [openServerStream,transcodeCallError] at started
      | eof =>
        cases started
        exact ⟨_,_,rfl⟩
      | message mapped =>
        cases mapped with
        | none => simp [openServerStream] at started
        | some =>
          simp only [openServerStream] at started
          split at started
          · simp at started
          cases started
          exact ⟨_,_,rfl⟩

theorem bridgeStarted (gate) (started : (proxyBidirectionalStream gate c).bridge = some b) : b = newBridge := by
  unfold proxyBidirectionalStream at started
  split at started <;> try contradiction
  unfold Gate.pass at started
  split at started <;> try contradiction
  split at started <;> try contradiction
  unfold openBidirectionalStream at started
  split at started <;> try contradiction
  split at started <;> try contradiction
  split at started <;> try contradiction
  split at started <;> try contradiction
  split at started <;> try contradiction
  exact (Option.some.inj started).symm

def Concluded {κ : Type} (s : Settlement κ) (verdict : κ → Mark) (leftOut : κ → Bool) (finished : Bool) : Prop :=
  s.marks.length ≤ 1 ∧ (finished = true → ∃ reason mark, s.reason = some reason ∧ s.marks = [mark] ∧
    (leftOut reason = false → mark = verdict reason))

theorem concluded {κ : Type} {s} {verdict : κ → Mark} {leftOut : κ → Bool} (faithful : s.Faithful verdict)
    (done : finished = true → s.reason.isSome = true) : Concluded s verdict leftOut finished := by
  unfold Settlement.Faithful at faithful
  refine ⟨?_,fun isFinished => ?_⟩
  · rw [faithful]
    cases s.reason <;> simp
  obtain ⟨reason,got⟩ := Option.isSome_iff_exists.mp (done isFinished)
  exact ⟨reason,_,got,by simp [faithful,got],fun _ => rfl⟩

-- a reply over the gateway's own limits, which a server stream does not hold against the upstream
def BridgeEnd.leftOut (reason : BridgeEnd) : Bool := reason = .oversizeReply

def aggregationFails (site : Site ε) (endpoint : Str) (calls : Calls ε) : Bool :=
  let steps := site.route.aggregation.steps
  let results := calls.arrive (steps.mapIdx fun i step => (stepRan site endpoint calls i step).result)
  decide (steps = []) || (site.render results matches .error _) || results.any (requiredFailed steps)

theorem aggregateMarks (site : Site ε) (endpoint calls) :
    (aggregateOnce site endpoint calls).marks = [markOf !aggregationFails site endpoint calls] := by
  unfold aggregateOnce aggregationFails
  dsimp only
  split
  · rename_i none
    simp [failed,none,markOf]
  rename_i some
  split
  · rename_i unrendered
    simp [failed,unrendered,markOf]
  rename_i rendered
  simp only [rendered,some]
  cases (calls.arrive _).any (requiredFailed site.route.aggregation.steps) <;> rfl

def streamCourse : TranscodeCourse Str := ⟨none,false,none,none,some (.opened (.message (some 1))),.answered true⟩
def bridgeCourse : BridgeCourse Str := ⟨true,none,none,true,none,.opened,none⟩

def unaryCourse (code : Code) : TranscodeCourse Unit := ⟨none,false,none,none,none,.failed true code⟩
def clientStreamCourse (call : StreamCall) (canceled : Option Unit) : ClientStreamCourse Unit :=
  ⟨true,none,none,true,none,true,true,call,canceled⟩

end Gofly.Gateway
