import InfiniShell.LocalCli.Checkpoint

namespace InfiniShell.LocalCli

open Effects Effects.Program
open RuntimeHost (Uuid)

inductive LocalCliEnqueueOutcome where
  | created
  | existing (state : LocalCliMessageState)

def present {A : Type} (value : Option A) (missing : String) : Except String A :=
  match value with
  | some a => .ok a
  | none => .error missing

def messageInvalid (message : LocalCliMessage) : Bool :=
  message.version ≠ 1 || blank message.messageId || message.state ≠ .queued || message.receiptKind.isSome ||
    message.body.utf8ByteSize > 1024 * 1024 || message.subject.utf8ByteSize > 4096

def runsOutdated (message : LocalCliMessage) (sender recipient : LocalCliTask) (isTaskResult : Bool) : Bool :=
  sender.version ≠ 1 || recipient.version ≠ 1 || sender.generation ≠ message.senderGeneration ||
    recipient.generation ≠ message.recipientGeneration || (sender.state = .cancelled && !isTaskResult) ||
    sender.state = .unknown || (recipient.state.isTerminal && !isTaskResult) ||
    (recipient.state = .unknown && !isTaskResult) || !sender.parentPaired ||
    (!recipient.parentPaired && !isTaskResult)

def unrelated (sender recipient : LocalCliTask) : Bool :=
  sender.taskId ≠ recipient.taskId && sender.parentTaskId ≠ some recipient.taskId &&
    recipient.parentTaskId ≠ some sender.taskId

def insertMessageWithOrigin (crates : Crates) (message : LocalCliMessage) (isTaskResult : Bool) :
    Transact LocalCliEnqueueOutcome := do
  ensure (NativeBridge.isInputSubject message.subject = false) "普通 Grok 原生桥输入只能使用专用领取事务"
  ensure (messageInvalid message = false) "本地消息字段无效或版本不兼容"
  transaction do
    let db ← read id
    match db.readMessage message.messageId with
    | some existing => do
      ensure (existing.original = message) "相同消息 ID 不能用于不同内容或运行"
      return .existing existing.state
    | none => do
      let sender ← ofResult (present (db.readTask message.senderTaskId) "消息发送任务不存在")
      let recipient ← ofResult (present
        (if isTaskResult then db.readTaskGeneration message.recipientTaskId message.recipientGeneration
          else db.readTask message.recipientTaskId) "消息接收运行不存在")
      ensure (NativeBridge.isTask crates sender = false ∧ NativeBridge.isTask crates recipient = false)
        "普通 Grok 原生桥账本不能使用通用消息队列"
      ensure (runsOutdated message sender recipient isTaskResult = false) "消息对应的任务已结束或运行已过时"
      ensure (unrelated sender recipient = false) "本地消息只能投递到同一任务或已记录的父子任务"
      insertRow message.toData
      return .created

def insertMessage (crates : Crates) (message : LocalCliMessage) : Transact LocalCliEnqueueOutcome := do
  ensure (message.subject ≠ taskResultSubject) "结果消息只能从已提交任务记录生成"
  insertMessageWithOrigin crates message false

def checkpointWithMessage (crates : Crates) (task : LocalCliTask) (expectedGeneration : Option Int)
    (message : LocalCliMessage) : Transact LocalCliEnqueueOutcome := do
  ensure (message.recipientTaskId = task.taskId ∧ message.recipientGeneration = task.generation)
    "首条输入必须属于同一事务创建的运行"
  transaction do
    checkpoint crates task expectedGeneration
    insertMessage crates message

def resultMessage (crates : Crates) (task parent : LocalCliTask) : LocalCliMessage where
  version := 1
  messageId := resultMessageId crates task.taskId task.generation
  senderTaskId := task.taskId
  recipientTaskId := parent.taskId
  senderGeneration := task.generation
  recipientGeneration := parent.generation
  subject := taskResultSubject
  body := taskResultMessageBody task
  state := .queued
  receiptKind := none

/-- A result for a Claude run that a user's turn has replaced is not to be executed any more. -/
def disqualified (crates : Crates) (db : Tables) (message : LocalCliMessage) : Except String Bool :=
  match db.readTask message.recipientTaskId with
  | some current =>
    if current.harness = "claude" ∧ current.generation ≠ message.recipientGeneration then
      (!·) <$> claudeResultHistoryMatches crates db message current
    else .ok false
  | none => .ok false

def insertTaskResult (crates : Crates) (taskId : String) (generation : Int) : Transact (Option LocalCliMessage) :=
  transaction do
    let db ← read id
    let task ← ofResult (present (db.readTask taskId) "结果任务不存在")
    ensure (task.version = 1 ∧ task.generation = generation ∧ task.state.isTerminal) "只能回收当前已提交的真实终态"
    match task.parentTaskId with
    | none => return none
    | some parentId => do
      let parentGeneration ← ofResult (present task.parentGeneration "结果缺少创建时的父运行标识")
      let parent ← ofResult (present (db.readTaskGeneration parentId parentGeneration) "结果接收父运行不存在")
      match db.readMessage (resultMessageId crates taskId generation) with
      | some message => return some message
      | none => do
        let message := resultMessage crates task parent
        let _ ← insertMessageWithOrigin crates message true
        let db ← read id
        if ← ofResult (disqualified crates db message) then
          writeMessageState crates { message with state := .cancelled }
          return some { message with state := .cancelled }
        else return some message

def claimable (db : Tables) (message : LocalCliMessage) (missing changed : String) :
    Except String LocalCliMessage := do
  let stored ← present (db.readMessage message.messageId) missing
  if stored.original ≠ message then throw changed
  return stored

/-- The state that a message moves to, and the receipt that it moves with. -/
structure Outcome where
  state : LocalCliMessageState
  receipt : Option LocalCliReceiptKind

namespace Outcome

def isNativeAck (o : Outcome) : Bool := o.state = .acknowledged && o.receipt = some .nativeProtocol

def isDelivery (o : Outcome) : Bool := o.isNativeAck || o.state = .failed

end Outcome

def validateParentMessage (crates : Crates) (message : LocalCliMessage) (source parent : LocalCliTask) :
    Except String Unit := do
  let permissions ← crates.parseJson source.configJson
  let parentConfig ← crates.parseJson parent.configJson
  if message.subject = taskResultSubject || message.subject = "native_tool_call" ||
      message.subject = "native_tool_result" || source.version ≠ 1 || parent.version ≠ 1 ||
      source.generation ≠ message.senderGeneration || parent.generation ≠ message.recipientGeneration ||
      source.parentTaskId ≠ some parent.taskId || source.parentGeneration ≠ some parent.generation ||
      parent.harness ≠ "oz" || !parent.state.isActive ||
      parentConfig.index "execution_kind" ≠ .string "local_parent" ||
      !(parentConfig.index "history_identity").isObject ||
      (permissions.index "local_tools").index "allow_message" ≠ .bool true then
    throw "普通消息未获授权或不属于创建时的活动父运行"

def allowed : LocalCliMessageState → LocalCliMessageState → Bool
  | .queued, .sent | .queued, .acknowledged | .queued, .failed | .queued, .cancelled => true
  | .sent, .acknowledged | .sent, .failed | .sent, .cancelled => true
  | _, _ => false

/-- The report comes from another run than the message's. -/
def receiptOutdated (message : LocalCliMessage) (taskId : String) (generation : Int) (sender recipient : LocalCliTask)
    (sameQueue : Bool) : Bool :=
  message.version ≠ 1 || recipient.version ≠ 1 || sender.version ≠ 1 || !sender.parentPaired ||
    !recipient.parentPaired || message.recipientTaskId ≠ taskId || message.recipientGeneration ≠ generation ||
    (recipient.generation ≠ generation && !sameQueue) ||
    (sender.generation ≠ message.senderGeneration && message.subject ≠ taskResultSubject)

def checkHistory (crates : Crates) (message : LocalCliMessage) (sender recipient : LocalCliTask) (o : Outcome) :
    Except String Unit :=
  if o.receipt = some .applicationHistory then
    if recipient.harness ≠ "oz" then .error "应用历史只能确认 Oz 父会话消息"
    else if message.subject ≠ taskResultSubject then do
      validateParentMessage crates message sender recipient
      if message.state ≠ .sent then throw "普通父消息必须先领取再确认历史提交"
    else .ok ()
  else .ok ()

def earlierRunGoesOn (crates : Crates) (db : Tables) (message : LocalCliMessage) (sender recipient : LocalCliTask)
    (o : Outcome) : Except String Bool := do
  let original := if o.isDelivery && recipient.harness = "grok" && recipient.generation ≠ message.recipientGeneration then
    db.readTaskGeneration message.recipientTaskId message.recipientGeneration else none
  let sameGrokQueue := original.any fun original =>
    matchesGrokQueuedInputReceipt crates message sender original recipient o.state o.receipt
  let sameClaudeResult ←
    if recipient.harness = "claude" ∧ recipient.generation ≠ message.recipientGeneration then
      matchesClaudeResultReceipt crates db message recipient o.state o.receipt
    else pure false
  return sameGrokQueue || sameClaudeResult

def updateMessageStateWithReceipt (crates : Crates) (messageId taskId : String) (generation : Int) (o : Outcome) :
    Transact Unit :=
  transaction do
    let db ← read id
    let message ← ofResult (present (db.readMessage messageId) "本地消息不存在")
    ensure (GrokTerminal.isInputSubject message.subject = false ∧ NativeBridge.isInputSubject message.subject = false)
      "普通 Grok 输入必须使用原生精确回执"
    let recipient ← ofResult (present (db.readTask taskId) "本地任务不存在")
    let sender ← ofResult (present
      (if o.isDelivery then db.readTaskGeneration message.senderTaskId message.senderGeneration
        else db.readTask message.senderTaskId) "消息发送运行不存在")
    let sameQueue ← ofResult (earlierRunGoesOn crates db message sender recipient o)
    ensure (receiptOutdated message taskId generation sender recipient sameQueue = false)
      "本地消息回执属于过时或不同的运行"
    if message.state = o.state then
      ensure (o.receipt.isSome → message.receiptKind = o.receipt) "已有消息回执来源不匹配"
    else do
      ofResult (checkHistory crates message sender recipient o)
      ensure (¬((recipient.state.isTerminal ∧ ¬(o.isDelivery ∧ message.state = .sent)) ∨ recipient.state = .unknown))
        "已结束任务不能确认新消息"
      ensure (allowed message.state o.state) "本地消息状态不能回退"
      writeMessageState crates { message with state := o.state, receiptKind := o.receipt }

def updateMessageState (crates : Crates) (messageId taskId : String) (generation : Int) (state : LocalCliMessageState) :
    Transact Unit :=
  updateMessageStateWithReceipt crates messageId taskId generation
    ⟨state, if state = .acknowledged then some .nativeProtocol else none⟩

def sentTo (db : Tables) (taskId : String) : List LocalCliMessage :=
  (db.messages.filter fun row => row.recipientTaskId = taskId ∧ row.state = .sent).map (·.data.message)

def grokSlotTaken (crates : Crates) (db : Tables) (recipient : LocalCliTask) : List LocalCliMessage → Except String Bool
  | [] => .ok false
  | other :: rest =>
    if other.subject = taskResultSubject then
      match db.readTaskGeneration other.recipientTaskId other.recipientGeneration with
      | none => .error "未确认结果的原接收运行不存在"
      | some original =>
        if other.version ≠ 1 || other.state ≠ .sent || other.recipientTaskId ≠ recipient.taskId ||
            !grokSameProcess crates original original then .error "未确认结果的原接收身份无效"
        else if grokSameProcess crates original recipient then .ok true
        else grokSlotTaken crates db recipient rest
    else grokSlotTaken crates db recipient rest

def claudeSlotTaken (crates : Crates) (db : Tables) (recipient : LocalCliTask) :
    List LocalCliMessage → Except String Bool
  | [] => .ok false
  | other :: rest =>
    if other.subject = taskResultSubject then
      match db.readTaskGeneration other.recipientTaskId other.recipientGeneration with
      | none => .error "Claude 未确认结果的原接收运行不存在"
      | some original =>
        if claudeSameProcess crates original recipient then .ok true else claudeSlotTaken crates db recipient rest
    else claudeSlotTaken crates db recipient rest

def grokInputsPending (config : Json) : Bool := (config.present? "grok_pending_inputs").any (!·.isEmptyArray)

/-- The result comes from a child of the run that it is addressed to, and that run goes on in `recipient`. -/
def grokOriginMatches (crates : Crates) (db : Tables) (message : LocalCliMessage) (recipient : LocalCliTask) :
    Except String Unit := do
  let generations := db.readTaskGenerations recipient.taskId
  if !grokResultHistoryMatches crates message generations recipient then
    throw "结果接收运行不属于连续完成的同一原生进程"
  let original ← present (generations.find? (·.generation = message.recipientGeneration)) "结果原父运行不存在"
  let source ← present (db.readTaskGeneration message.senderTaskId message.senderGeneration) "结果来源运行不存在"
  if !grokMailboxOriginMatches crates message source original (grokMailboxDigest crates message) then
    throw "结果来源、亲缘或原运行不符"

def claudeRecipientInvalid (crates : Crates) (recipient : LocalCliTask) (expected : Option LocalCliTask) (config : Json) :
    Bool :=
  expected ≠ some recipient || recipient.version ≠ 1 || !recipient.nativeSessionId.any nativeIdValid ||
    (runtimeOf crates config).isNone || (config.present? "claude_pending_input").isSome

def dispatchUnless (crates : Crates) (stored : LocalCliMessage) (slotTaken : Bool) : Transact (Option LocalCliMessage) :=
  if slotTaken then return none
  else do
    writeMessageState crates { stored.original with state := .sent }
    return some { stored.original with state := .sent }

def claimResultIfCurrent (crates : Crates) (message : LocalCliMessage) (expectedRecipient : Option LocalCliTask) :
    Transact (Option LocalCliMessage) :=
  transaction do
    ensure (message.subject = taskResultSubject ∧ message.state = .queued) "只能领取已生成的待派发任务结果"
    let db ← read id
    let stored ← ofResult (claimable db message "任务结果尚未持久化" "结果消息内容与持久化记录不一致")
    if stored.state ≠ .queued then return none
    let recipient ← ofResult (present (db.readTask message.recipientTaskId) "结果接收任务不存在")
    ensure (expectedRecipient.all (· = recipient)) "结果领取前当前接收运行已被更新"
    if recipient.harness = "grok" then
      let config ← ofResult (crates.parseJson recipient.configJson)
      if recipient.state ≠ .completed || grokInputsPending config then return none
      ofResult (grokOriginMatches crates db message recipient)
      let taken ← ofResult (grokSlotTaken crates db recipient (sentTo db recipient.taskId))
      dispatchUnless crates stored taken
    else if recipient.harness = "claude" && recipient.state = .completed then
      let config ← ofResult (crates.parseJson recipient.configJson)
      ensure (claudeRecipientInvalid crates recipient expectedRecipient config = false)
        "Claude 结果接收运行未验证或仍有待确认输入"
      let continues ← ofResult (claudeResultHistoryMatches crates db message recipient)
      ensure continues "Claude 结果来源或原生 ACK 驱动的连续父运行不符"
      let taken ← ofResult (claudeSlotTaken crates db recipient (sentTo db recipient.taskId))
      dispatchUnless crates stored taken
    else
      ensure (recipient.generation = message.recipientGeneration ∧ recipient.state.isActive)
        "结果接收运行已结束、断开或被继续操作取代"
      updateMessageState crates message.messageId message.recipientTaskId message.recipientGeneration .sent
      return some { stored.original with state := .sent }

def claimParentMessage (crates : Crates) (message : LocalCliMessage) : Transact (Option LocalCliMessage) :=
  transaction do
    ensure (message.state = .queued) "只能领取待派发的普通父消息"
    let db ← read id
    let stored ← ofResult (claimable db message "普通父消息尚未入队" "普通父消息内容与持久化记录不一致")
    if stored.state ≠ .queued then return none
    let source ← ofResult (present (db.readTask message.senderTaskId) "消息子任务不存在")
    let parent ← ofResult (present (db.readTask message.recipientTaskId) "消息父任务不存在")
    ofResult (validateParentMessage crates message source parent)
    ensure source.state.isActive "消息子任务已停止，不能开始新的历史投递"
    updateMessageState crates message.messageId message.recipientTaskId message.recipientGeneration .sent
    return some { stored.original with state := .sent }

/-- A message between a parent and its child that may not be handed out now. -/
def managedInvalid (message : LocalCliMessage) (sender recipient expectedSender expectedRecipient : LocalCliTask)
    (permissions : Json) : Bool :=
  sender ≠ expectedSender || recipient ≠ expectedRecipient || sender.version ≠ 1 || recipient.version ≠ 1 ||
    sender.generation ≠ message.senderGeneration || recipient.generation ≠ message.recipientGeneration ||
    !sender.state.isActive || !recipient.state.isActive || recipient.harness = "oz" ||
    (permissions.index "local_tools").index "allow_message" ≠ .bool true ||
    (!(sender.parentTaskId = some recipient.taskId && sender.parentGeneration = some recipient.generation) &&
      !(recipient.parentTaskId = some sender.taskId && recipient.parentGeneration = some sender.generation))

def claimManagedMessage (crates : Crates) (message : LocalCliMessage) (expectedSender expectedRecipient : LocalCliTask) :
    Transact (Option LocalCliMessage) :=
  transaction do
    ensure (message.state = .queued ∧ message.receiptKind = none ∧ message.senderTaskId ≠ message.recipientTaskId ∧
      message.subject ≠ taskResultSubject ∧ message.subject ≠ "native_tool_call" ∧
      message.subject ≠ "native_tool_result") "只能领取待派发的普通父子消息"
    let db ← read id
    let stored ← ofResult (claimable db message "普通父子消息尚未入队" "普通父子消息内容与持久化记录不一致")
    if stored.state ≠ .queued then return none
    let sender ← ofResult (present (db.readTask message.senderTaskId) "消息发送任务不存在")
    let recipient ← ofResult (present (db.readTask message.recipientTaskId) "消息接收任务不存在")
    let permissions ← ofResult (crates.parseJson sender.configJson)
    ensure (managedInvalid message sender recipient expectedSender expectedRecipient permissions = false)
      "普通父子消息未获授权或接收运行已经变化"
    writeMessageState crates { stored.original with state := .sent }
    return some { stored.original with state := .sent }

end InfiniShell.LocalCli
