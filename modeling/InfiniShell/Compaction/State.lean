import Mathlib.Data.List.Basic

namespace InfiniShell.Compaction

def compactionBuffer : Nat := 20000
def minPreserveRecentTokens : Nat := 2000
def maxPreserveRecentTokens : Nat := 8000
def charsPerToken : Nat := 4

structure CompactionConfig where
  tailTurns : Nat := 2
  preserveRecentTokens : Option Nat := none
  reserved : Option Nat := none

structure ModelLimit where
  context : Nat
  input : Nat
  maxOutput : Nat

def CompactionConfig.preserveRecentBudget (cfg : CompactionConfig) (usableTokens : Nat) : Nat :=
  cfg.preserveRecentTokens.getD
    (min maxPreserveRecentTokens (max minPreserveRecentTokens (usableTokens / 4)))

def usable (cfg : CompactionConfig) (model : ModelLimit) : Nat :=
  if model.context = 0 then 0
  else
    let reserved := cfg.reserved.getD (min compactionBuffer model.maxOutput)
    if 0 < model.input then model.input - reserved else model.context - model.maxOutput

inductive Role where
  | user | assistant | tool
deriving DecidableEq

structure ToolOutputRef (C : Type) where
  callId : C
  toolName : String
  outputSize : Nat
  completed : Bool
  alreadyCompacted : Bool

class MessageRef (M : Type) (I C : outParam Type) where
  id : M → I
  role : M → Role
  isCompactionMarker : M → Bool
  isSummary : M → Bool
  estimateSize : M → Nat
  toolOutputs : M → List (ToolOutputRef C)

structure Turn (I : Type) where
  start : Nat
  stop : Nat
  id : I

structure Tail (I : Type) where
  start : Nat
  id : I

structure SelectResult (I : Type) where
  headEnd : Nat
  tailStartId : Option I

section Select

variable {M I C : Type} [MessageRef M I C]

def closeTurns : List (Turn I) → List (Turn I)
  | turn :: next :: rest => { turn with stop := next.start } :: closeTurns (next :: rest)
  | result => result

def turns (messages : List M) : List (Turn I) :=
  closeTurns <| messages.zipIdx.filterMap fun (msg, i) =>
    if MessageRef.role msg ≠ .user then none
    else if MessageRef.isCompactionMarker msg then none
    else some ⟨i, messages.length, MessageRef.id msg⟩

def slice (messages : List M) (start stop : Nat) : List M := (messages.take stop).drop start

def splitTurn (messages : List M) (turn : Turn I) (budget : Nat) (estimate : List M → Nat) :
    Option (Tail I) :=
  if budget = 0 then none
  else if turn.stop - turn.start ≤ 1 then none
  else do
    let start ← (List.range' (turn.start + 1) (turn.stop - (turn.start + 1))).find? fun start =>
      estimate (slice messages start turn.stop) ≤ budget
    let msg ← messages[start]?
    some ⟨start, MessageRef.id msg⟩

def keepTail (messages : List M) (budget : Nat) (estimateSlice : List M → Nat) :
    List (Turn I) → Nat → Option (Tail I) → Option (Tail I)
  | [], _, keep => keep
  | turn :: earlier, total, keep =>
    let size := estimateSlice (slice messages turn.start turn.stop)
    if total + size ≤ budget then
      keepTail messages budget estimateSlice earlier (total + size) (some ⟨turn.start, turn.id⟩)
    else (splitTurn messages turn (budget - total) estimateSlice).or keep

def select (messages : List M) (cfg : CompactionConfig) (model : ModelLimit)
    (estimateSlice : List M → Nat) : SelectResult I :=
  if cfg.tailTurns = 0 then ⟨messages.length, none⟩
  else
    let budget := cfg.preserveRecentBudget (usable cfg model)
    let all := turns messages
    if all.isEmpty then ⟨messages.length, none⟩
    else
      let recent := all.drop (all.length - cfg.tailTurns)
      match keepTail messages budget estimateSlice recent.reverse 0 none with
      | none => ⟨messages.length, none⟩
      | some tail =>
        if tail.start = 0 then ⟨messages.length, none⟩ else ⟨tail.start, some tail.id⟩

end Select

variable {P : Type}

/-- `P` stands for the protobuf contents that compaction never looks into. -/
inductive Tool (P : Type) where
  | readSkill (tool : P)
  | subagent (tool : P)
  | other (tool : P)
deriving DecidableEq

inductive MessageKind (P : Type) where
  | userQuery (query : String) (rest : P)
  | agentOutput (text : String)
  | agentReasoning (reasoning : String) (rest : P)
  | toolCall (toolCallId : String) (tool : Option (Tool P))
  | toolCallResult (toolCallId : String) (result : Option P) (rest : P)
  | other (rest : P)
deriving DecidableEq

structure Message (P : Type) where
  id : String
  taskId : String
  requestId : String
  serverMessageData : String
  message : Option (MessageKind P)
  rest : P
deriving DecidableEq

/-- The length of a value's `Debug` text. -/
class DebugRepr (P : Type) where
  debugChars : P → Nat

namespace Message

def isUserQuery (m : Message P) : Bool :=
  match m.message with
  | some (.userQuery ..) => true
  | _ => false

def isToolCallOrResult (m : Message P) : Bool :=
  match m.message with
  | some (.toolCall ..) | some (.toolCallResult ..) => true
  | _ => false

/-- The tool call that a message makes, unless it starts a subagent. -/
def openedToolCall (m : Message P) : Option (String × String) :=
  match m.message with
  | some (.toolCall _ (some (.subagent _))) => none
  | some (.toolCall toolCallId _) => some (m.taskId, toolCallId)
  | _ => none

def closedToolCall (m : Message P) : Option (String × String) :=
  match m.message with
  | some (.toolCallResult toolCallId _ _) => some (m.taskId, toolCallId)
  | _ => none

theorem not_closed_of_opened {m : Message P} {call : String × String}
    (h : m.openedToolCall = some call) : m.closedToolCall = none := by
  unfold openedToolCall at h
  unfold closedToolCall
  split at h <;> simp_all

def isSummarizable (m : Message P) : Bool :=
  match m.message with
  | some (.userQuery ..) | some (.agentOutput _) | some (.toolCall ..) | some (.toolCallResult ..) => true
  | _ => false

def isOutputOrReasoning (m : Message P) : Bool :=
  match m.message with
  | some (.agentOutput _) | some (.agentReasoning ..) => true
  | _ => false

end Message

inductive CompactionTrigger where
  | manual | auto

structure MessageMarker where
  isSummary : Bool := false
  compactionTrigger : Option CompactionTrigger := none
  toolOutputCompactedAt : Option Nat := none
  syntheticContinue : Bool := false

structure CompletedCompaction where
  userMsgId : String
  assistantMsgId : String
  summaryMessageIds : List String
  headMessageIds : List String
  tailStartId : Option String
  summaryText : Option String
  auto : Bool
  overflow : Bool

def CompletedCompaction.hides (c : CompletedCompaction) : List String :=
  c.headMessageIds ++ c.userMsgId :: c.assistantMsgId :: c.summaryMessageIds

structure CompactionState where
  markers : String → Option MessageMarker := fun _ => none
  completed : List CompletedCompaction := []

namespace CompactionState

def upsertMarker (s : CompactionState) (msgId : String) (f : MessageMarker → MessageMarker) :
    CompactionState :=
  { s with markers := Function.update s.markers msgId (some (f ((s.markers msgId).getD {}))) }

def markToolCompacted (s : CompactionState) (msgId : String) (nowMs : Nat) : CompactionState :=
  s.upsertMarker msgId fun m => { m with toolOutputCompactedAt := some nowMs }

def markSummary (s : CompactionState) (msgId : String) : CompactionState :=
  s.upsertMarker msgId fun m => { m with isSummary := true }

def pushCompleted (s : CompactionState) (c : CompletedCompaction) : CompactionState :=
  let trigger : CompactionTrigger := if c.auto then .auto else .manual
  let s := s.upsertMarker c.userMsgId fun m => { m with compactionTrigger := some trigger }
  let s := c.summaryMessageIds.foldl markSummary (s.markSummary c.assistantMsgId)
  { s with completed := s.completed ++ [c] }

def previousSummary (s : CompactionState) : Option String :=
  s.completed.getLast?.bind CompletedCompaction.summaryText

def previousSummaryId (s : CompactionState) : Option String :=
  s.completed.getLast?.map CompletedCompaction.assistantMsgId

def hiddenMessageIds (s : CompactionState) : List String :=
  s.completed.flatMap CompletedCompaction.hides

@[simp] theorem completed_upsertMarker (s : CompactionState) (msgId : String)
    (f : MessageMarker → MessageMarker) : (s.upsertMarker msgId f).completed = s.completed := rfl

theorem completed_foldl_markSummary (ids : List String) (s : CompactionState) :
    (ids.foldl markSummary s).completed = s.completed := by
  induction ids generalizing s with
  | nil => rfl
  | cons id ids ih => exact ih (s.markSummary id)

@[simp] theorem completed_pushCompleted (s : CompactionState) (c : CompletedCompaction) :
    (s.pushCompleted c).completed = s.completed ++ [c] := by
  simp [pushCompleted, completed_foldl_markSummary, markSummary]

theorem mem_hiddenMessageIds_pushCompleted (s : CompactionState) (c : CompletedCompaction) (id : String) :
    id ∈ (s.pushCompleted c).hiddenMessageIds ↔ id ∈ s.hiddenMessageIds ∨ id ∈ c.hides := by
  simp [hiddenMessageIds]

theorem hiddenMessageIds_subset {s later : CompactionState} (h : s.completed <+: later.completed) :
    s.hiddenMessageIds ⊆ later.hiddenMessageIds := by
  obtain ⟨others, h⟩ := h
  intro id hid
  simp only [hiddenMessageIds, ← h, List.flatMap_append]
  exact List.mem_append_left _ hid

end CompactionState

section View

def buildToolNameLookup (messages : List (Message P)) : String → Option String :=
  messages.foldl (fun lookup m =>
    match m.message with
    | some (.toolCall toolCallId tool) =>
      Function.update lookup toolCallId
        (some (match tool with | some (.readSkill _) => "skill" | _ => ""))
    | _ => lookup) fun _ => none

structure WarpMessageView (P : Type) where
  msg : Message P
  state : CompactionState
  toolNames : String → Option String

def estimateChars (chars : Nat) : Nat := (chars + charsPerToken / 2) / charsPerToken

def estimateMessage [DebugRepr P] (msg : Message P) : Nat :=
  estimateChars <|
    match msg.message with
    | some (.userQuery query _) => query.length
    | some (.agentOutput text) => text.length
    | some (.agentReasoning reasoning _) => reasoning.length
    | some (.toolCall ..) => max msg.serverMessageData.length 64
    | some (.toolCallResult _ result _) =>
      max (max ((result.map DebugRepr.debugChars).getD 0) msg.serverMessageData.length) 32
    | _ => 0

def WarpMessageView.role (v : WarpMessageView P) : Role :=
  match v.msg.message with
  | some (.userQuery ..) => .user
  | some (.toolCallResult ..) => .tool
  | _ => .assistant

def WarpMessageView.marker (v : WarpMessageView P) : MessageMarker := (v.state.markers v.msg.id).getD {}

def WarpMessageView.toolOutputs [DebugRepr P] (v : WarpMessageView P) : List (ToolOutputRef String) :=
  match v.msg.message with
  | some (.toolCallResult toolCallId result _) =>
    [{ callId := toolCallId
       toolName := (v.toolNames toolCallId).getD ""
       outputSize := estimateMessage v.msg
       completed := result.isSome || !v.msg.serverMessageData.isEmpty
       alreadyCompacted := v.marker.toolOutputCompactedAt.isSome }]
  | _ => []

instance [DebugRepr P] : MessageRef (WarpMessageView P) String String where
  id v := v.msg.id
  role v := v.role
  isCompactionMarker v := v.role == .user && v.marker.compactionTrigger.isSome
  isSummary v := v.role == .assistant && v.marker.isSummary
  estimateSize v := estimateMessage v.msg
  toolOutputs v := v.toolOutputs

def project (messages : List (Message P)) (state : CompactionState) (toolNames : String → Option String) :
    List (WarpMessageView P) :=
  messages.map fun msg => ⟨msg, state, toolNames⟩

end View

end InfiniShell.Compaction
