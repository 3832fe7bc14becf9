import InfiniShell.LocalCli.Tables

namespace InfiniShell.LocalCli

open RuntimeHost (Uuid)

namespace Json

def escape (c : Char) : String :=
  if c = '"' then "\\\""
  else if c = '\\' then "\\\\"
  else if c = '\x08' then "\\b"
  else if c = '\x0c' then "\\f"
  else if c = '\n' then "\\n"
  else if c = '\r' then "\\r"
  else if c = '\t' then "\\t"
  else if c.toNat < 0x20 then "\\u" ++ hexDigits 4 c.toNat
  else c.toString

def renderString (text : String) : String := "\"" ++ String.join (text.toList.map escape) ++ "\""

mutual

def render : Json → String
  | null => "null"
  | bool value => toString value
  | integer value => toString value
  | float text => text
  | string text => renderString text
  | array items => "[" ++ renderItems items ++ "]"
  | object fields => "\x7b" ++ renderFields fields ++ "\x7d"

def renderItems : JsonArray → String
  | .nil => ""
  | .cons head .nil => render head
  | .cons head (.cons next tail) => render head ++ "," ++ renderItems (.cons next tail)

def renderFields : JsonObject → String
  | .nil => ""
  | .cons key value .nil => renderString key ++ ":" ++ render value
  | .cons key value (.cons nextKey next rest) =>
    renderString key ++ ":" ++ render value ++ "," ++ renderFields (.cons nextKey next rest)

end

end Json

def stateName : LocalCliTaskState → String
  | .queued => "queued"
  | .running => "running"
  | .waitingForUser => "waiting_for_user"
  | .unconfirmed => "unconfirmed"
  | .completed => "completed"
  | .failed => "failed"
  | .cancelled => "cancelled"
  | .disconnected => "disconnected"
  | .unknown => "unknown"

/-- The first characters of a text that take at most `maximum` bytes. -/
def takeBytes : Nat → List Char → List Char
  | _, [] => []
  | maximum, c :: rest => if c.utf8Size ≤ maximum then c :: takeBytes (maximum - c.utf8Size) rest else []

def utf8Excerpt (text : String) (maximumBytes : Nat) : String := String.ofList (takeBytes maximumBytes text.toList)

def optionalString : Option String → Json
  | some text => .string text
  | none => .null

def taskResultMessageBody (task : LocalCliTask) : String :=
  let result := task.result.map fun text => utf8Excerpt text (128 * 1024)
  let evidence := task.terminalEvidence.map fun text => utf8Excerpt text 4096
  Json.render (.object
    (.cons "evidence_truncated" (.bool (evidence ≠ task.terminalEvidence))
    (.cons "generation" (.integer task.generation)
    (.cons "result" (optionalString result)
    (.cons "result_bytes" ((task.result.map fun text => Json.integer text.utf8ByteSize).getD .null)
    (.cons "state" (.string (stateName task.state))
    (.cons "task_id" (.string task.taskId)
    (.cons "terminal_evidence" (optionalString evidence)
    (.cons "truncated" (.bool (result ≠ task.result)) .nil)))))))))

def resultMessageId (crates : Crates) (taskId : String) (generation : Int) : String :=
  Uuid.toText ((crates.sha256 ("infinishell-result:" ++ taskId ++ ":" ++ toString generation)).extractLsb' 128 128)

def grokMailboxDigest (crates : Crates) (message : LocalCliMessage) : String :=
  hex (crates.sha256 (crates.messageText message.original))

def LocalCliTask.parentPaired (task : LocalCliTask) : Bool := task.parentTaskId.isSome = task.parentGeneration.isSome

def grokMailboxOriginMatches (crates : Crates) (message : LocalCliMessage) (sender recipient : LocalCliTask)
    (digest : String) : Bool :=
  message.version = 1 && sender.version = 1 && recipient.version = 1 && recipient.harness = "grok" &&
    message.senderTaskId = sender.taskId && message.recipientTaskId = recipient.taskId &&
    message.senderGeneration = sender.generation && message.recipientGeneration = recipient.generation &&
    sender.parentPaired && recipient.parentPaired &&
    (sender.taskId = recipient.taskId || sender.parentTaskId = some recipient.taskId ||
      recipient.parentTaskId = some sender.taskId) &&
    grokMailboxDigest crates message = digest &&
    (message.subject ≠ taskResultSubject ||
      (sender.parentTaskId = some recipient.taskId && sender.parentGeneration = some recipient.generation &&
        sender.state.isTerminal && taskResultMessageBody sender = message.body))

def ClaudeResultLink.fromMessage (crates : Crates) (message : LocalCliMessage) : Except String ClaudeResultLink := do
  if message.subject ≠ taskResultSubject || message.recipientGeneration < 1 then throw "Claude 自动结果关联无效"
  return ⟨← crates.parseUuid message.messageId, message.recipientGeneration, grokMailboxDigest crates message⟩

def ClaudeResultLink.matches (crates : Crates) (link : ClaudeResultLink) (message : LocalCliMessage) : Bool :=
  match ClaudeResultLink.fromMessage crates message with
  | .ok actual => actual = link
  | .error _ => false

def nativeIdValid (id : String) : Bool := !blank id && id.utf8ByteSize ≤ 4096 && !id.toList.any isControl

def runtimeOf (crates : Crates) (config : Json) : Option Uuid :=
  match (config.index "runtime_generation").asStr? with
  | none => none
  | some text =>
    match crates.parseUuid text with
    | .ok id => if id = 0 then none else some id
    | .error _ => none

def runtimeGeneration (crates : Crates) (task : LocalCliTask) : Option Uuid :=
  match crates.parseJson task.configJson with
  | .ok config => runtimeOf crates config
  | .error _ => none

def sameProcess (harness : String) (crates : Crates) (original current : LocalCliTask) : Bool :=
  original.version = 1 && current.version = 1 && original.harness = harness && current.harness = harness &&
    original.taskId = current.taskId && original.generation ≤ current.generation &&
    original.nativeSessionId.any nativeIdValid && original.nativeSessionId = current.nativeSessionId &&
    (runtimeGeneration crates original).isSome && runtimeGeneration crates original = runtimeGeneration crates current

def claudeSameProcess : Crates → LocalCliTask → LocalCliTask → Bool := sameProcess "claude"

def grokSameProcess : Crates → LocalCliTask → LocalCliTask → Bool := sameProcess "grok"

def claudeResultOriginMatches (db : Tables) (message : LocalCliMessage) (parent : LocalCliTask) : Bool :=
  match db.readTaskGeneration message.senderTaskId message.senderGeneration with
  | none => false
  | some source =>
    message.version = 1 && message.subject = taskResultSubject && message.recipientTaskId = parent.taskId &&
      message.recipientGeneration = parent.generation && source.version = 1 && source.taskId = message.senderTaskId &&
      source.generation = message.senderGeneration && source.parentTaskId = some parent.taskId &&
      source.parentGeneration = some parent.generation && source.state.isTerminal &&
      taskResultMessageBody source = message.body

def Json.present? (value : Json) (key : String) : Option Json := (value.get? key).filter (· ≠ .null)

def inputContinues (link : ClaudeResultLink) (input pending : Json) (previous : LocalCliTask) : Bool :=
  (input.index "turn_id").asStr? = some link.messageId.toText &&
    (input.index "submission_generation").asI64? = some previous.generation &&
    pending.index "message_id" = input.index "turn_id" &&
    pending.index "submission_generation" = input.index "submission_generation" &&
    pending.index "result" = input.index "result" && link.recipientGeneration ≤ previous.generation

def driverMatches (crates : Crates) (db : Tables) (link : ClaudeResultLink) (current : LocalCliTask) : Bool :=
  match db.readMessage link.messageId.toText, db.readTaskGeneration current.taskId link.recipientGeneration with
  | some driver, some origin =>
    driver.state = .acknowledged && driver.receiptKind = some .nativeProtocol && link.matches crates driver &&
      claudeSameProcess crates origin current && claudeResultOriginMatches db driver origin
  | _, _ => false

/-- The run `next` was opened by an acknowledged result of the run before it. -/
def drivenByResult (crates : Crates) (db : Tables) (current previous next : LocalCliTask) : Except String Bool := do
  let config ← crates.parseJson next.configJson
  let input := config.index "claude_current_input"
  match input.present? "result" with
  | none => return false
  | some value => do
    let link ← crates.resultLink value
    let previousConfig ← crates.parseJson previous.configJson
    return inputContinues link input (previousConfig.index "claude_pending_input") previous &&
      driverMatches crates db link current

/-- Go through the runs from `generation` on, each opened by a result of the one before. -/
def claudeRunsMatch (crates : Crates) (db : Tables) (current : LocalCliTask) :
    Nat → Int → LocalCliTask → Except String Bool
  | 0, _, previous => .ok (previous = current)
  | count + 1, generation, previous =>
    match db.readTaskGeneration current.taskId generation with
    | none => .ok false
    | some next =>
      if previous.state ≠ .completed || !claudeSameProcess crates next current then .ok false
      else do
        if ← drivenByResult crates db current previous next then
          claudeRunsMatch crates db current count (generation + 1) next
        else return false

def claudeResultHistoryMatches (crates : Crates) (db : Tables) (message : LocalCliMessage) (current : LocalCliTask) :
    Except String Bool :=
  if message.recipientGeneration < 1 || message.recipientGeneration > current.generation ||
      message.recipientTaskId ≠ current.taskId || message.subject ≠ taskResultSubject ||
      !(current.state = .queued || current.state = .running || current.state = .waitingForUser ||
        current.state = .completed) then .ok false
  else match db.readTaskGeneration current.taskId message.recipientGeneration with
    | none => .ok false
    | some previous =>
      if !claudeSameProcess crates previous current || !claudeResultOriginMatches db message previous then .ok false
      else claudeRunsMatch crates db current (current.generation - message.recipientGeneration).toNat
        (message.recipientGeneration + 1) previous

def receiptInput (crates : Crates) (message : LocalCliMessage) (current : LocalCliTask) (config : Json)
    (key idKey : String) : Bool :=
  let input := config.index key
  (input.index idKey).asStr? = some message.messageId &&
    (input.present? "result").any (fun value =>
      match crates.resultLink value with
      | .ok link => link.matches crates message
      | .error _ => false) &&
    (input.index "submission_generation").asI64?.any fun generation =>
      generation = current.generation || (key = "claude_current_input" && generation + 1 = current.generation)

def matchesClaudeResultReceipt (crates : Crates) (db : Tables) (message : LocalCliMessage) (current : LocalCliTask)
    (state : LocalCliMessageState) (receipt : Option LocalCliReceiptKind) : Except String Bool := do
  if !((state = .acknowledged && receipt = some .nativeProtocol) || (state = .failed && receipt = none)) ||
      !(message.state = .sent || message.state = .acknowledged) then return false
  if !(← claudeResultHistoryMatches crates db message current) then return false
  let config ← crates.parseJson current.configJson
  return receiptInput crates message current config "claude_pending_input" "message_id" ||
    receiptInput crates message current config "claude_current_input" "turn_id"

/-- Go through the runs, which must follow each other, completed, in one process. -/
def grokRunsMatch (crates : Crates) (current : LocalCliTask) : Int → List LocalCliTask → Bool
  | _, [] => false
  | expected, task :: rest =>
    if task.generation ≠ expected || !grokSameProcess crates task current ||
        (task.generation < current.generation && task.state ≠ .completed) then false
    else if task.generation = current.generation then task = current
    else grokRunsMatch crates current (expected + 1) rest

def grokResultHistoryMatches (crates : Crates) (message : LocalCliMessage) (generations : List LocalCliTask)
    (current : LocalCliTask) : Bool :=
  if message.subject ≠ taskResultSubject || message.recipientTaskId ≠ current.taskId ||
      message.recipientGeneration < 1 || message.recipientGeneration > current.generation then false
  else grokRunsMatch crates current message.recipientGeneration
    ((generations.filter fun task =>
      task.generation ≥ message.recipientGeneration && task.generation ≤ current.generation).mergeSort
        fun a b => a.generation ≤ b.generation)

/-- What an input of the queue says of the message with this id; nothing if the queue is not valid. -/
def scanInputs (crates : Crates) (message : LocalCliMessage) (sender original current : LocalCliTask)
    (runtime messageId : Uuid) (nativeAck : Bool) :
    List Uuid → List String → Bool → List PersistedGrokInputLink → Bool
  | _, _, matched, [] => matched
  | messages, turns, matched, input :: rest =>
    if input.messageId = 0 || input.runtimeGeneration ≠ runtime || input.submissionGeneration < 1 ||
        input.submissionGeneration > current.generation || input.messageId ∈ messages ||
        input.nativeTurnId.any (fun turn => !nativeIdValid turn || turn ∈ turns) then false
    else
      let messages := input.messageId :: messages
      let turns := input.nativeTurnId.toList ++ turns
      if input.messageId = messageId then
        if input.submissionGeneration ≠ original.generation || (nativeAck && input.nativeTurnId.isNone) then false
        else if match input.mailboxSha256 with
            | some digest => grokMailboxOriginMatches crates message sender original digest
            | none => message.subject = "user_input" && message.senderTaskId = current.taskId &&
                original.generation = message.senderGeneration &&
                message.senderGeneration = message.recipientGeneration && crates.isSubmit message.body then
          scanInputs crates message sender original current runtime messageId nativeAck messages turns true rest
        else false
      else scanInputs crates message sender original current runtime messageId nativeAck messages turns matched rest

def configPart {A : Type} (config : Json) (key : String) (decode : Json → Except String A) (absent : A) : Except String A :=
  match config.present? key with
  | some value => decode value
  | none => .ok absent

def matchesGrokQueuedInputReceipt (crates : Crates) (message : LocalCliMessage) (sender original current : LocalCliTask)
    (state : LocalCliMessageState) (receipt : Option LocalCliReceiptKind) : Bool :=
  let nativeAck := state = .acknowledged && receipt = some .nativeProtocol
  if (!nativeAck && !(state = .failed && receipt = none)) || message.state ≠ .sent || message.receiptKind.isSome ||
      original.harness ≠ "grok" || current.harness ≠ "grok" || message.recipientTaskId ≠ current.taskId ||
      original.taskId ≠ current.taskId || original.generation ≠ message.recipientGeneration ||
      current.generation ≤ original.generation || current.state = .disconnected || current.state = .unknown ||
      current.state = .unconfirmed || !original.nativeSessionId.any nativeIdValid ||
      current.nativeSessionId ≠ original.nativeSessionId then false
  else match crates.parseJson original.configJson, crates.parseJson current.configJson,
      crates.parseUuid message.messageId with
    | .ok originalConfig, .ok config, .ok messageId =>
      match runtimeOf crates originalConfig with
      | none => false
      | some runtime =>
        if messageId = 0 || runtimeOf crates config ≠ some runtime then false
        else match configPart config "grok_pending_inputs" crates.inputLinks [],
            configPart config "grok_current_input" (fun value => some <$> crates.inputLink value) none with
          | .ok pending, .ok currentInput =>
            if pending.length + currentInput.toList.length > 33 ||
                currentInput.any (fun input => input.nativeTurnId.isNone) then false
            else scanInputs crates message sender original current runtime messageId nativeAck [] [] false
              (pending ++ currentInput.toList)
          | _, _ => false
    | _, _, _ => false

end InfiniShell.LocalCli
