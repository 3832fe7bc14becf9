import InfiniShell.AgentProviders.RequestBudget

namespace InfiniShell.AgentProviders.Responses

open Collections

abbrev Text := List Char

def field (key : String) (value : Value) : Option Value := value.asObject.bind fun fields => fields.get key

def asStr : Value → Option Text
  | .string text => some text
  | _ => none

def textField (key : String) (value : Value) : Option Text := (field key value).bind asStr

inductive ResponseEventKind where
  | created | queued | inProgress | completed | failed | incomplete | cancelled
  | outputItemAdded | outputItemDone | contentPartAdded | contentPartDone
  | outputTextDelta | outputTextDone | outputTextAnnotationAdded | refusalDelta | refusalDone
  | functionCallArgumentsDelta | functionCallArgumentsDone
  | fileSearchCallInProgress | fileSearchCallSearching | fileSearchCallCompleted
  | webSearchCallInProgress | webSearchCallSearching | webSearchCallCompleted
  | reasoningSummaryPartAdded | reasoningSummaryPartDone | reasoningSummaryTextDelta | reasoningSummaryTextDone
  | reasoningTextDelta | reasoningTextDone
  | imageGenerationCallInProgress | imageGenerationCallGenerating | imageGenerationCallPartialImage
  | imageGenerationCallCompleted
  | mcpCallArgumentsDelta | mcpCallArgumentsDone | mcpCallInProgress | mcpCallCompleted | mcpCallFailed
  | mcpListToolsInProgress | mcpListToolsCompleted | mcpListToolsFailed
  | codeInterpreterCallInProgress | codeInterpreterCallInterpreting | codeInterpreterCallCompleted
  | codeInterpreterCallCodeDelta | codeInterpreterCallCodeDone
  | customToolCallInputDelta | customToolCallInputDone
  | audioDelta | audioDone | audioTranscriptDelta | audioTranscriptDone
  | injectCreated | injectFailed | error
  | unknown (wire : Text)
deriving DecidableEq

/-- The kind is the name it has on the wire. -/
structure ResponseItem where
  kind : Text
  id : Option Text
  callId : Option Text
  callerId : Option Text
  phase : Option Text
  raw : Value

inductive ResponseProtocolError where
  | expectedObject (what : String)
  | missingDiscriminator (what : String)

def ResponseItem.fromValue (raw : Value) : Except ResponseProtocolError ResponseItem :=
  match raw.asObject with
  | none => .error (.expectedObject "response item")
  | some _ =>
    match textField "type" raw with
    | none => .error (.missingDiscriminator "response item")
    | some wireKind =>
      .ok {
        kind := wireKind
        id := textField "id" raw
        callId := textField "call_id" raw
        callerId := textField "caller_id" raw
        phase := textField "phase" raw
        raw }

structure ResponseUsage where
  inputTokens : Option Nat
  inputTokensDetails : Option Value
  outputTokens : Option Nat
  outputTokensDetails : Option Value
  totalTokens : Option Nat

structure ResponseObject where
  id : Text
  status : Text
  output : List ResponseItem
  usage : Option ResponseUsage

def ResponseObject.isSuccess (response : ResponseObject) : Bool := response.status = "completed".toList

structure ResponseStreamEvent where
  kind : ResponseEventKind
  sequenceNumber : Option Nat
  responseId : Option Text
  outputIndex : Option Nat
  raw : Value

abbrev Decode (E : Type) := Value → Except E ResponseObject

variable {E X : Type}

def ResponseStreamEvent.response (decode : Decode E) (event : ResponseStreamEvent) :
    Option (Except E ResponseObject) :=
  (field "response" event.raw).map decode

inductive ResponseStateMode where
  | localReplay | previousResponse | conversation

inductive ResponseTransportMode where
  | http | webSocket

/-- The fields of a request that the session sets; `rest` are the others. -/
structure ResponseCreateRequest (X : Type) where
  background : Option Bool
  conversation : Option Value
  includes : Option (List Text)
  input : Option Value
  previousResponseId : Option Text
  store : Option Bool
  rest : X

inductive ResponseRequestValidationError where
  | conflictingStateHandles

def ResponseCreateRequest.validate (request : ResponseCreateRequest X) :
    Except ResponseRequestValidationError Unit :=
  if request.previousResponseId.isSome ∧ request.conversation.isSome then .error .conflictingStateHandles else .ok ()

inductive ResponseStateError where
  | backgroundRequiresServerState
  | missingConversationId
  | invalidRequest (error : ResponseRequestValidationError)

structure ResponseSessionState where
  mode : ResponseStateMode := .localReplay
  currentResponseId : Option Text := none
  conversationId : Option Text := none
  lastSequenceNumber : Option Nat := none
  lastStatus : Option Text := none
  requestContextFingerprint : Option Text := none
  replayItems : List ResponseItem := []
  unknownEvents : List ResponseStreamEvent := []

inductive ResponseEventDisposition where
  | applied | duplicate | gapDetected

def ensureInclude (includes : Option (List Text)) (value : Text) : Option (List Text) :=
  let values := includes.getD []
  some (if value ∈ values then values else values ++ [value])

def prependReplayItems (input : Option Value) (replayItems : List ResponseItem) : Option Value :=
  if replayItems.isEmpty then input
  else
    let values := replayItems.map ResponseItem.raw
    match input with
    | some (.array inputItems) => some (.array (values ++ inputItems))
    | some input => some (.array (values ++ [input]))
    | none => some (.array values)

namespace ResponseSessionState

def prepareRequest (s : ResponseSessionState) (request : ResponseCreateRequest X) (_ : ResponseTransportMode) :
    ResponseCreateRequest X × Except ResponseStateError Unit :=
  let request := { request with includes := ensureInclude request.includes "reasoning.encrypted_content".toList }
  let finish (request : ResponseCreateRequest X) := (request, request.validate.mapError .invalidRequest)
  match s.mode with
  | .localReplay =>
    if request.background = some true then (request, .error .backgroundRequiresServerState)
    else
      finish { request with
        store := some false
        conversation := none
        previousResponseId := none
        input := prependReplayItems request.input s.replayItems }
  | .previousResponse =>
    finish { request with store := some true, conversation := none, previousResponseId := s.currentResponseId }
  | .conversation =>
    match s.conversationId with
    | none => (request, .error .missingConversationId)
    | some conversationId =>
      finish { request with
        store := some true, previousResponseId := none, conversation := some (.string conversationId) }

end ResponseSessionState

def held (window : List ResponseItem) (item : ResponseItem) : Bool :=
  item.id.any fun id => window.any fun existing => existing.id = some id

def pushNew (window : List ResponseItem) (item : ResponseItem) : List ResponseItem :=
  if held window item then window else window ++ [item]

def doneItem (event : ResponseStreamEvent) : Option ResponseItem :=
  if event.kind = .outputItemDone then
    (field "item" event.raw).bind fun rawItem => (ResponseItem.fromValue rawItem).toOption
  else none

namespace ResponseSessionState

def extendReplay (s : ResponseSessionState) (items : List ResponseItem) : ResponseSessionState :=
  { s with replayItems := items.foldl pushNew s.replayItems }

def recordEventResponse (decode : Decode E) (s : ResponseSessionState) (event : ResponseStreamEvent) :
    ResponseSessionState :=
  match (event.response decode).bind Except.toOption with
  | some response =>
    let s := { s with currentResponseId := some response.id, lastStatus := some response.status }
    if event.kind = .completed then s.extendReplay response.output else s
  | none =>
    match event.responseId with
    | some responseId => { s with currentResponseId := some responseId }
    | none => s

def recordEventPayload (decode : Decode E) (s : ResponseSessionState) (event : ResponseStreamEvent) :
    ResponseSessionState :=
  let s := s.recordEventResponse decode event
  let s := s.extendReplay (doneItem event).toList
  match event.kind with
  | .unknown _ => { s with unknownEvents := s.unknownEvents ++ [event] }
  | _ => s

def passed (watermark : Option Nat) (sequence : Nat) : Bool := watermark.any fun last => sequence ≤ last

def maxU64 : Nat := 2 ^ 64 - 1

def recordEvent (decode : Decode E) (s : ResponseSessionState) (event : ResponseStreamEvent) :
    ResponseSessionState × ResponseEventDisposition :=
  match event.sequenceNumber with
  | none => (s.recordEventPayload decode event, .applied)
  | some sequence =>
    if passed s.lastSequenceNumber sequence then (s, .duplicate)
    else
      let gap := s.lastSequenceNumber.any fun last => min (last + 1) maxU64 < sequence
      let s := { s with lastSequenceNumber := some sequence }
      (s.recordEventPayload decode event, if gap then .gapDetected else .applied)

def recordResponse (s : ResponseSessionState) (response : ResponseObject) : ResponseSessionState :=
  let s := { s with currentResponseId := some response.id, lastStatus := some response.status }
  if response.isSuccess then s.extendReplay response.output else s

def replaceWithCompaction (s : ResponseSessionState) (items : List ResponseItem) : ResponseSessionState :=
  { s with
    replayItems := items
    currentResponseId := none
    lastSequenceNumber := none
    lastStatus := some "compacted".toList }

def fallBackToLocalReplay (s : ResponseSessionState) : ResponseSessionState :=
  { s with mode := .localReplay, currentResponseId := none, conversationId := none, lastSequenceNumber := none }

def invalidateIfContextChanged (s : ResponseSessionState) (fingerprint : Text) : ResponseSessionState × Bool :=
  if s.requestContextFingerprint = some fingerprint then (s, false)
  else
    ({ s with
        currentResponseId := none
        conversationId := none
        lastSequenceNumber := none
        lastStatus := none
        requestContextFingerprint := some fingerprint }, true)

end ResponseSessionState

end InfiniShell.AgentProviders.Responses
