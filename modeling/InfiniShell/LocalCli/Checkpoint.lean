import InfiniShell.LocalCli.ResultHistory

namespace InfiniShell.LocalCli

open Effects Effects.Program
open RuntimeHost (Uuid)
open Collections

structure GrokTerminalInputRecord where
  message : LocalCliMessage
  delivery : Option GrokTerminalDelivery
  result : Option GrokTerminalVerifiedResult

def MessageData.grokRecord (data : MessageData) : GrokTerminalInputRecord :=
  ⟨data.message, data.grokTerminalDelivery, data.grokTerminalResult⟩

def GrokTerminalInputRecord.toData (record : GrokTerminalInputRecord) : MessageData :=
  ⟨record.message, record.delivery, record.result, none⟩

namespace GrokTerminal

def textDigest (crates : Crates) (text : String) : String := hex (crates.sha256 text)

def owner (crates : Crates) (task : LocalCliTask) : Except String GrokTerminalOwner := do
  validateTask crates task
  let config ← crates.parseJson task.configJson
  if task.version ≠ 1 || task.harness ≠ "grok" || task.parentTaskId.isSome || task.parentGeneration.isSome ||
      config.index "execution_kind" ≠ .string executionKind then throw "输入不属于普通 owned Grok 根会话"
  let owned ← crates.grokOwner (config.index "grok_terminal")
  if owned.version ≠ 1 || owned.launchId = 0 || owned.bindingId = 0 || owned.sessionId = 0 ||
      owned.inputRevision = 0 || owned.permissionRevision = 0 || owned.cliVersion ≠ "1.0.41" ||
      owned.modelId ≠ "grok-4.7" || task.nativeSessionId ≠ some owned.sessionId.toText then
    throw "普通 Grok 启动绑定不完整或不兼容"
  return owned

def identityInvalid (messageId : Uuid) (state : LocalCliMessageState) (message : LocalCliMessage) : Bool :=
  message.version ≠ 1 || !isInputSubject message.subject || message.senderGeneration < 1 ||
    message.messageId ≠ messageId.toText || message.senderTaskId ≠ message.recipientTaskId ||
    message.senderGeneration ≠ message.recipientGeneration || state ≠ message.state

def deliveryInvalid (crates : Crates) (messageId : Uuid) (message : LocalCliMessage)
    (delivery : GrokTerminalDelivery) : Bool :=
  delivery.version ≠ 1 || delivery.messageId ≠ messageId || delivery.taskId ≠ message.recipientTaskId ||
    delivery.taskGeneration ≠ message.recipientGeneration || delivery.taskRevision < 0 || delivery.rpcId = 0 ||
    delivery.launchId = 0 || delivery.bindingId = 0 || delivery.sessionId = 0 || delivery.inputRevision = 0 ||
    delivery.permissionRevision = 0 || delivery.configSha256.utf8ByteSize ≠ 64 ||
    delivery.bodySha256 ≠ textDigest crates message.body

def statusConsistent (message : LocalCliMessage) : GrokTerminalDeliveryStatus → Bool
  | .unknown => message.state = .sent && message.receiptKind.isNone
  | .finished nativePromptId _ =>
    nativePromptId ≠ 0 && message.state = .acknowledged && message.receiptKind = some .nativeProtocol

/-- The turn that a verified result is of has ended, and its text and its watermark are valid. -/
def resultValid (delivery : GrokTerminalDelivery) (verified : GrokTerminalVerifiedResult) : Bool :=
  delivery.status = .finished verified.nativePromptId .endTurn && !blank verified.output &&
    verified.output.utf8ByteSize ≤ 8 * 1024 * 1024 &&
    match (verified.completionWatermark.dropPrefix? (delivery.sessionId.toText ++ "-")).map (·.toString) with
    | some suffix => suffix.toNat?.any fun sequence => sequence < 2 ^ 64 && toString sequence = suffix
    | none => false

def readRecord (crates : Crates) (db : Tables) (messageId : Uuid) :
    Except String (Option (MessageData × GrokTerminalInputRecord)) :=
  match db.messageRow messageId.toText with
  | none => return none
  | some row => do
    let record := row.data.grokRecord
    if identityInvalid messageId row.state record.message then throw "普通 Grok 输入记录身份不一致"
    match record.delivery with
    | some delivery =>
      if deliveryInvalid crates messageId record.message delivery then throw "普通 Grok 输入领取记录损坏"
      if !statusConsistent record.message delivery.status then throw "普通 Grok 输入状态与回执不一致"
    | none =>
      if !(record.message.state = .queued || record.message.state = .cancelled) || record.message.receiptKind.isSome then
        throw "普通 Grok 已派发输入缺少领取记录"
    match record.result with
    | none => pure ()
    | some verified =>
      match record.delivery with
      | none => throw "普通 Grok 结果缺少原生领取记录"
      | some delivery => if !resultValid delivery verified then throw "普通 Grok 历史结果与原生回合不一致"
    return some (row.data, record)

def claimedInput (crates : Crates) (db : Tables) (message : LocalCliMessage) :
    Except String (Option GrokTerminalDelivery) := do
  let id ← crates.parseUuid message.messageId
  match ← readRecord crates db id with
  | some (_, record) => return record.delivery
  | none => throw "普通 Grok 输入记录已丢失"

def claimedInputs (crates : Crates) (db : Tables) (taskId : String) : Except String (List GrokTerminalDelivery) := do
  let deliveries ← ((db.readTaskMessages taskId).filter fun message => isInputSubject message.subject).mapM
    (claimedInput crates db)
  return deliveries.filterMap id

/-- Only an input that is still queued may be cancelled by the mailbox. -/
def validateUnclaimedCancellation (crates : Crates) (db : Tables) (message : LocalCliMessage) : Except String Unit := do
  let id ← crates.parseUuid message.messageId
  match ← readRecord crates db id with
  | none => throw "普通 Grok 输入不存在"
  | some (_, previous) => do
    if previous.message.state ≠ .queued || previous.delivery.isSome || message.state ≠ .cancelled then
      throw "普通 Grok 已领取输入禁止通用状态改写"
    if { previous.message with state := .cancelled } ≠ message then throw "取消普通 Grok 输入不能修改正文或来源"

theorem validateUnclaimedCancellation_eq_ok {crates : Crates} {db : Tables} {message : LocalCliMessage} :
    validateUnclaimedCancellation crates db message = .ok () ↔
      ∃ messageId data record, crates.parseUuid message.messageId = .ok messageId ∧
        readRecord crates db messageId = .ok (some (data, record)) ∧ record.message.state = .queued ∧
        record.delivery = none ∧ message = { record.message with state := .cancelled } := by
  rw [validateUnclaimedCancellation, Results.bind_eq_ok]
  constructor
  · rintro ⟨messageId, hid, h⟩
    obtain ⟨found, hfound, h⟩ := Results.bind_eq_ok.mp h
    cases found with
    | none => exact absurd h nofun
    | some pair =>
      obtain ⟨data, record⟩ := pair
      dsimp only at h
      split at h
      · exact absurd h nofun
      · rename_i hunclaimed
        simp only [Bool.or_eq_true, not_or, decide_eq_true_eq, ne_eq, not_not, Option.isSome_iff_ne_none] at hunclaimed
        split at h
        · exact absurd h nofun
        · rename_i hsame
          exact ⟨messageId, data, record, hid, hfound, hunclaimed.1.1, hunclaimed.1.2, (not_not.mp hsame).symm⟩
  · rintro ⟨messageId, data, record, hid, hfound, hqueued, hunclaimed, hsame⟩
    refine ⟨messageId, hid, Results.bind_eq_ok.mpr ⟨_, hfound, ?_⟩⟩
    have hstate : message.state = .cancelled := by rw [hsame]
    dsimp only
    rw [if_neg (by simp [hqueued, hunclaimed, hstate]), if_neg (not_not.mpr hsame.symm)]
    rfl

end GrokTerminal

def setMessage (message : LocalCliMessage) (row : MessageRow) : MessageRow :=
  if row.messageId = message.messageId then row.set message.toData else row

def writeMessageState (crates : Crates) (message : LocalCliMessage) : Transact Unit := do
  ensure (NativeBridge.isInputSubject message.subject = false) "普通 Grok 原生桥输入只能使用专用精确回执事务"
  let db ← read id
  -- the dedicated data of an owned input is kept: the mailbox only cancels what was not dispatched
  ofResult (if GrokTerminal.isInputSubject message.subject then
    GrokTerminal.validateUnclaimedCancellation crates db message else .ok ())
  modify (·.mapMessages (setMessage message))

/-- What a checkpoint spares of the messages that are still queued. -/
structure Cancellation where
  taskId : String
  cancelOutgoing : Bool
  keepIncomingResults : Bool
  continuedGrok : Option LocalCliTask

namespace Cancellation

def concerns (c : Cancellation) (row : MessageRow) : Bool :=
  row.state = .queued && (row.recipientTaskId = c.taskId || (c.cancelOutgoing && row.senderTaskId = c.taskId))

/-- A result that the sender's next run, or an ended Grok run, leaves in the queue. -/
def sparesResult (c : Cancellation) (message : LocalCliMessage) : Bool :=
  message.subject = taskResultSubject &&
    ((message.senderTaskId = c.taskId && message.recipientTaskId ≠ c.taskId) ||
      (c.keepIncomingResults && message.recipientTaskId = c.taskId))

def continuesGrok (c : Cancellation) (crates : Crates) (db : Tables) (message : LocalCliMessage) : Bool :=
  message.subject = taskResultSubject && message.recipientTaskId = c.taskId &&
    match c.continuedGrok with
    | none => false
    | some current =>
      let generations := db.readTaskGenerations c.taskId
      grokResultHistoryMatches crates message generations current &&
        match generations.find? (·.generation = message.recipientGeneration),
          db.readTaskGeneration message.senderTaskId message.senderGeneration with
        | some original, some source =>
          grokMailboxOriginMatches crates message source original (grokMailboxDigest crates message)
        | _, _ => false

def continuesClaude (c : Cancellation) (crates : Crates) (db : Tables) (message : LocalCliMessage) :
    Except String Bool :=
  if message.subject = taskResultSubject ∧ message.recipientTaskId = c.taskId then
    match db.readTask c.taskId with
    | some current =>
      if current.harness = "claude" then claudeResultHistoryMatches crates db message current else .ok false
    | none => .ok false
  else .ok false

def cancelOne (c : Cancellation) (crates : Crates) (message : LocalCliMessage) : Transact Unit := do
  if c.sparesResult message then return
  let db ← read id
  if c.continuesGrok crates db message then return
  if ← ofResult (c.continuesClaude crates db message) then return
  writeMessageState crates { message with state := .cancelled }

end Cancellation

def cancelPendingMessages (crates : Crates) (c : Cancellation) : Transact Unit := do
  let db ← read id
  forEach ((db.messages.filter c.concerns).map (·.data.message)) (c.cancelOne crates)

/-- The row that a checkpoint replaces was written by another run. -/
def superseded (task previous : LocalCliTask) (expectedGeneration : Option Int) : Bool :=
  previous.version ≠ 1 || expectedGeneration ≠ some previous.generation || task.harness ≠ previous.harness ||
    task.parentTaskId ≠ previous.parentTaskId || task.parentGeneration ≠ previous.parentGeneration

/-- An update within a run that is out of date, or goes back. -/
def regresses (task previous : LocalCliTask) : Bool :=
  checkedAdd previous.revision 1 ≠ some task.revision ||
    (previous.state.isTerminal && task.state ≠ previous.state) ||
    (previous.nativeSessionId.isSome && task.nativeSessionId ≠ previous.nativeSessionId) ||
    (previous.state ≠ .queued && task.state = .queued) ||
    (previous.result.isSome && task.result.isNone) ||
    (previous.terminalEvidence.isSome && task.terminalEvidence ≠ previous.terminalEvidence)

def notFresh (task : LocalCliTask) : Bool :=
  task.revision ≠ 0 || task.state ≠ .queued || task.result.isSome || task.terminalEvidence.isSome

def cannotContinue (task previous : LocalCliTask) : Bool :=
  checkedAdd previous.generation 1 ≠ some task.generation || previous.state.isActive || previous.state = .unknown ||
    notFresh task

/-- The guards of a checkpoint on the row it replaces; `false` if there is nothing to write. -/
def admitCheckpoint (task : LocalCliTask) (expectedGeneration : Option Int) :
    Option LocalCliTask → Except String Bool
  | some previous =>
    if superseded task previous expectedGeneration then .error "本地任务已由其他运行或更新取代"
    else if previous = task ∧ task.state ≠ .queued then .ok false
    else if task.generation = previous.generation then
      if regresses task previous then .error "本地任务更新过时或状态回退" else .ok true
    else if cannotContinue task previous then .error "活动任务不能重复继续，或新运行的起始状态无效"
    else .ok true
  | none =>
    if expectedGeneration.isSome || task.generation ≠ 1 || notFresh task then .error "本地任务初始检查点无效"
    else .ok true

def checkParent (db : Tables) (task : LocalCliTask) (created : Bool) : Except String Unit :=
  match task.parentTaskId with
  | none => .ok ()
  | some parentId =>
    match db.readTask parentId, task.parentGeneration with
    | none, _ => .error "本地父任务尚未持久化"
    | some _, none => .error "缺少创建时的父运行标识"
    | some parent, some generation =>
      if created && (parent.version ≠ 1 || parent.generation ≠ generation || !parent.state.isActive) then
        .error "创建子任务时的父运行已过时或结束"
      else if (db.readTaskGeneration parentId generation).isNone then .error "本地父运行记录不存在"
      else .ok ()

def isNewGeneration (task : LocalCliTask) (previous : Option LocalCliTask) : Bool :=
  previous.any (·.generation ≠ task.generation)

/-- What the checkpoint of a task that ends, or that opens a new run, cancels. -/
def cancellation (crates : Crates) (task : LocalCliTask) (previous : Option LocalCliTask) : Cancellation where
  taskId := task.taskId
  cancelOutgoing := isNewGeneration task previous || task.state = .cancelled
  keepIncomingResults := task.harness = "grok" && task.state.isTerminal && !isNewGeneration task previous
  continuedGrok := (previous.filter fun old =>
    isNewGeneration task previous && old.state = .completed && grokSameProcess crates old task).map fun _ => task

def checkpoint (crates : Crates) (task : LocalCliTask) (expectedGeneration : Option Int) : Transact Unit := do
  ofResult (validateTask crates task)
  transaction do
    let db ← read id
    let previous := db.readTask task.taskId
    ensure (NativeBridge.isTask crates task = false ∧ previous.any (NativeBridge.isTask crates) = false)
      "普通 Grok 原生桥账本不能使用通用任务状态写入"
    if ← ofResult (admitCheckpoint task expectedGeneration previous) then
      ofResult (checkParent db task previous.isNone)
      writeTask task
      if task.state.isTerminal || isNewGeneration task previous then
        cancelPendingMessages crates (cancellation crates task previous)

/-- The rows that a recovery disconnects. -/
def interrupted (crates : Crates) (task : LocalCliTask) : Bool :=
  task.version = 1 && task.state.isActive && !NativeBridge.isTask crates task && task.parentPaired

def recoverTask (crates : Crates) (task : LocalCliTask) : Transact LocalCliTask :=
  if interrupted crates task then
    match checkedAdd task.revision 1 with
    | none => throw "本地任务 revision 溢出"
    | some revision => do
      let recovered := { task with state := .disconnected, revision := revision }
      writeTask recovered
      return recovered
  else return task

def recoverTasks (crates : Crates) : List LocalCliTask → Transact (List LocalCliTask)
  | [] => return []
  | task :: rest => do
    let recovered ← recoverTask crates task
    return recovered :: (← recoverTasks crates rest)

def readTasks (crates : Crates) (recoverInterrupted : Bool) : Transact (List LocalCliTask) :=
  transaction do
    let db ← read id
    let tasks ← if recoverInterrupted then recoverTasks crates db.tasks.values else pure db.tasks.values
    return tasks.filter fun task => !NativeBridge.isTask crates task

end InfiniShell.LocalCli
