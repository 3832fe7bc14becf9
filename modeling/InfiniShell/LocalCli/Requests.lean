import InfiniShell.LocalCli.Mailbox

namespace InfiniShell.LocalCli

open Effects Effects.Program
open RuntimeHost (Uuid)

structure GrokTerminalInputClaim where
  message : LocalCliMessage
  expectedTask : LocalCliTask
  bindingId : Uuid
  sessionId : Uuid
  inputRevision : Uuid
  bodySha256 : String
  rpcId : Uuid

namespace GrokTerminal

def writeRecord (original : MessageData) (record : GrokTerminalInputRecord) : Transact Unit :=
  updateRow original.message.state original record.toData "普通 Grok 输入已由其他写入取代"

def claimDelivery (crates : Crates) (claim : GrokTerminalInputClaim) (task : LocalCliTask) (owned : GrokTerminalOwner)
    (id : Uuid) : GrokTerminalDelivery where
  version := 1
  taskId := task.taskId
  taskGeneration := task.generation
  taskRevision := task.revision
  configSha256 := textDigest crates task.configJson
  launchId := owned.launchId
  bindingId := owned.bindingId
  sessionId := owned.sessionId
  inputRevision := owned.inputRevision
  permissionRevision := owned.permissionRevision
  messageId := id
  rpcId := claim.rpcId
  bodySha256 := claim.bodySha256
  status := .unknown

def claimInvalid (crates : Crates) (claim : GrokTerminalInputClaim) (id : Uuid) : Bool :=
  id = 0 || claim.rpcId = 0 || claim.message.state ≠ .queued || claim.message.receiptKind.isSome ||
    blank claim.message.body || claim.bodySha256 ≠ textDigest crates claim.message.body

def claimOutdated (claim : GrokTerminalInputClaim) (message : LocalCliMessage) (task : LocalCliTask)
    (owned : GrokTerminalOwner) : Bool :=
  task ≠ claim.expectedTask || task.generation ≠ message.recipientGeneration || task.state ≠ .running ||
    owned.permissionMode ≠ "default" || owned.bindingId ≠ claim.bindingId || owned.sessionId ≠ claim.sessionId ||
    owned.inputRevision ≠ claim.inputRevision

def claimOnce (crates : Crates) (claim : GrokTerminalInputClaim) : Transact (Option GrokTerminalInputRecord) :=
  transaction do
    let id ← ofResult (crates.parseUuid claim.message.messageId)
    ensure (claimInvalid crates claim id = false) "普通 Grok 输入领取参数无效"
    let db ← read (fun db => db)
    match ← ofResult (readRecord crates db id) with
    | none => throw "普通 Grok 输入尚未入队"
    | some (raw, record) => do
      ensure (record.message.original = claim.message) "普通 Grok 输入正文或来源与持久化记录不同"
      if record.message.state ≠ .queued then return none
      let task ← ofResult (present (db.readTask record.message.recipientTaskId) "普通 Grok 会话不存在")
      let owned ← ofResult (owner crates task)
      ensure (claimOutdated claim record.message task owned = false) "普通 Grok 输入代际、配置、权限证据或编辑快照已变化"
      let claimed ← ofResult (claimedInputs crates db task.taskId)
      ensure (claimed.any (fun previous => previous.bindingId = owned.bindingId &&
        (previous.rpcId = claim.rpcId || previous.inputRevision = claim.inputRevision)) = false)
        "普通 Grok RPC 或编辑快照已经领取，不能换消息 ID 重投"
      let sent : GrokTerminalInputRecord :=
        ⟨{ record.message with state := .sent }, some (claimDelivery crates claim task owned id), record.result⟩
      writeRecord raw sent
      return some sent

def nativePrompt (crates : Crates) (response : Json) : Option Uuid :=
  match (((response.index "result").index "_meta").index "promptId").asStr? with
  | none => none
  | some text =>
    match crates.parseUuid text with
    | .ok id => if id = 0 then none else some id
    | .error _ => none

def responseInvalid (response : Json) (delivery : GrokTerminalDelivery) (prompt : Uuid) : Bool :=
  let metadata := (response.index "result").index "_meta"
  response.index "jsonrpc" ≠ .string "2.0" || (response.get? "method").isSome || (response.get? "error").isSome ||
    (response.index "id").asStr? ≠ some delivery.rpcId.toText ||
    (metadata.index "sessionId").asStr? ≠ some delivery.sessionId.toText ||
    (metadata.index "requestId").asStr? ≠ some prompt.toText || metadata.index "modelId" ≠ .string "grok-4.7"

def nativeOutcome (crates : Crates) (response : Json) (delivery : GrokTerminalDelivery) :
    Except String GrokTerminalDeliveryStatus := do
  let prompt ← present (nativePrompt crates response) "普通 Grok 最终响应缺少原生 promptId"
  if responseInvalid response delivery prompt then throw "普通 Grok 最终响应不属于此 RPC、会话或模型"
  if ((response.index "result").index "stopReason").asStr? = some "end_turn" then return .finished prompt .endTurn
  else if ((response.index "result").index "stopReason").asStr? = some "cancelled" then
    return .finished prompt .cancelled
  else throw "普通 Grok 最终响应语义尚未验证"

def samePrompt : GrokTerminalDeliveryStatus → GrokTerminalDeliveryStatus → Bool
  | .finished first _, .finished second _ => first = second
  | _, _ => false

def acknowledgeExact (crates : Crates) (expected : GrokTerminalDelivery) (response : Json) :
    Transact (Option GrokTerminalInputRecord) :=
  transaction do
    let db ← read id
    match ← ofResult (readRecord crates db expected.messageId) with
    | none => throw "普通 Grok 输入不存在"
    | some (raw, record) => do
      let stored ← ofResult (present record.delivery "普通 Grok 输入尚未领取")
      ensure ({ stored with status := .unknown } = { expected with status := .unknown })
        "普通 Grok 回执属于另一条输入或领取快照"
      let task ← ofResult (present (db.readTask stored.taskId) "普通 Grok 会话不存在")
      let owned ← ofResult (owner crates task)
      ensure (task.generation = stored.taskGeneration ∧ owned.launchId = stored.launchId ∧
        owned.bindingId = stored.bindingId ∧ owned.sessionId = stored.sessionId) "普通 Grok 回执对应的原运行已被替换"
      let next ← ofResult (nativeOutcome crates response stored)
      if stored.status ≠ .unknown then
        ensure (stored.status = next) "同一普通 Grok RPC 收到冲突的原生 prompt 或终态"
        return some record
      else
        let claimed ← ofResult (claimedInputs crates db stored.taskId)
        ensure (claimed.any (fun other => other.messageId ≠ stored.messageId && other.sessionId = stored.sessionId &&
          samePrompt other.status next) = false) "原生 promptId 已属于另一条普通 Grok 输入"
        let finished : GrokTerminalInputRecord :=
          ⟨{ record.message with state := .acknowledged, receiptKind := some .nativeProtocol },
            some { stored with status := next }, record.result⟩
        writeRecord raw finished
        return some finished

/-- An input of the same run, stored after this one, already has a result. -/
def laterResult (crates : Crates) (db : Tables) (messageId : String) : Bool → List LocalCliMessage → Except String (Bool × Bool)
  | afterThis, [] => .ok (afterThis, false)
  | afterThis, message :: rest =>
    if message.messageId = messageId then laterResult crates db messageId true rest
    else if afterThis then do
      let id ← crates.parseUuid message.messageId
      match ← readRecord crates db id with
      | some (_, later) =>
        if later.result.isSome then return (true, true) else laterResult crates db messageId afterThis rest
      | none => laterResult crates db messageId afterThis rest
    else laterResult crates db messageId afterThis rest

def replaceGeneration (historical task : LocalCliTask) : Transact Unit := do
  let db ← read id
  ensure (db.readTaskGeneration task.taskId task.generation = some historical) "普通 Grok 旧任务代已由其他写入取代"
  modify fun db => { db with generations := db.generations.insert (toLex (task.taskId, task.generation)) task }

def saveTaskResult (crates : Crates) (historical current task : LocalCliTask) (output : String) :
    Transact (Option LocalCliTask) := do
  if task.state = .cancelled || task.state = .failed || task.state = .unknown then return none
  if task.result = some output then return some task
  let revision ← ofResult (present (checkedAdd task.revision 1) "普通 Grok 任务 revision 溢出")
  let updated := { task with revision := revision, result := some output }
  if updated.generation = current.generation then checkpoint crates updated (some updated.generation)
  else replaceGeneration historical updated
  return some updated

def saveVerifiedExact (crates : Crates) (expected : GrokTerminalDelivery) (verified : GrokTerminalVerifiedResult) :
    Transact (Option LocalCliTask) :=
  transaction do
    let db ← read id
    match ← ofResult (readRecord crates db expected.messageId) with
    | none => throw "普通 Grok 已确认输入不存在"
    | some (raw, record) => do
      let stored ← ofResult (present record.delivery "普通 Grok 输入缺少原生回执")
      ensure (stored = expected ∧ resultValid stored verified) "普通 Grok 历史结果不属于已经确认的原生回合"
      match record.result with
      | some previous => do
        ensure (previous = verified) "普通 Grok 同一回合出现不同的历史结果"
        return none
      | none => do
        let historical ← ofResult (present (db.readTaskGeneration stored.taskId stored.taskGeneration)
          "普通 Grok 原任务代不存在")
        let owned ← ofResult (owner crates historical)
        ensure (owned.launchId = stored.launchId ∧ owned.bindingId = stored.bindingId ∧
          owned.sessionId = stored.sessionId ∧ historical.generation = stored.taskGeneration)
          "普通 Grok 历史结果对应的运行身份已变化"
        let saved : GrokTerminalInputRecord := ⟨record.message, some stored, some verified⟩
        writeRecord raw saved
        let db ← read id
        let (afterThis, later) ← ofResult (laterResult crates db record.message.messageId false
          ((db.readTaskMessages stored.taskId).filter fun message => message.recipientTaskId = stored.taskId &&
            message.recipientGeneration = stored.taskGeneration && isInputSubject message.subject))
        if later then return none
        ensure afterThis "普通 Grok 历史结果的输入顺序不存在"
        let current ← ofResult (present (db.readTask stored.taskId) "普通 Grok 当前任务不存在")
        saveTaskResult crates historical current
          (if current.generation = stored.taskGeneration then current else historical) verified.output

def missesResult (record : GrokTerminalInputRecord) : Option GrokTerminalDelivery :=
  match record.delivery, record.result with
  | some delivery, none =>
    match delivery.status with
    | .finished _ .endTurn => some delivery
    | _ => none
  | _, _ => none

def notOfHistory (delivery : GrokTerminalDelivery) (historical persisted : LocalCliTask)
    (historicalOwner persistedOwner : GrokTerminalOwner) : Bool :=
  historical.generation ≠ delivery.taskGeneration ||
    (historical.generation < persisted.generation &&
      !(historical.state.isTerminal || historical.state = .disconnected)) ||
    historicalOwner.launchId ≠ delivery.launchId || historicalOwner.bindingId ≠ delivery.bindingId ||
    historicalOwner.sessionId ≠ delivery.sessionId || delivery.sessionId ≠ persistedOwner.sessionId

def missingOne (crates : Crates) (db : Tables) (persisted : LocalCliTask) (persistedOwner : GrokTerminalOwner)
    (message : LocalCliMessage) : Except String (Option GrokTerminalDelivery) := do
  let id ← crates.parseUuid message.messageId
  match ← readRecord crates db id with
  | none => throw "普通 Grok 旧输入记录不存在"
  | some (_, record) =>
    match missesResult record with
    | none => return none
    | some delivery => do
      let historical ← present (db.readTaskGeneration persisted.taskId delivery.taskGeneration) "普通 Grok 旧任务代不存在"
      let historicalOwner ← owner crates historical
      if notOfHistory delivery historical persisted historicalOwner persistedOwner then
        throw "普通 Grok 旧回合不属于当前原生会话的历史链"
      return some delivery

/-- The deliveries found so far, with a bound on their number. -/
def collectMissing (crates : Crates) (db : Tables) (persisted : LocalCliTask) (persistedOwner : GrokTerminalOwner) :
    List GrokTerminalDelivery → List LocalCliMessage → Except String (List GrokTerminalDelivery)
  | missing, [] => .ok missing
  | missing, message :: rest => do
    match ← missingOne crates db persisted persistedOwner message with
    | none => collectMissing crates db persisted persistedOwner missing rest
    | some delivery =>
      if missing.length + 1 > 128 then throw "普通 Grok 待补查历史超过有界数量"
      else collectMissing crates db persisted persistedOwner (missing ++ [delivery]) rest

def missingHistoricalExact (crates : Crates) (currentTask : LocalCliTask) : Transact (List GrokTerminalDelivery) := do
  let db ← read id
  let persisted ← ofResult (present (db.readTask currentTask.taskId) "普通 Grok 当前运行不存在")
  let requestedOwner ← ofResult (owner crates currentTask)
  let persistedOwner ← ofResult (owner crates persisted)
  ensure (currentTask.generation = persisted.generation ∧ requestedOwner.launchId = persistedOwner.launchId ∧
    requestedOwner.bindingId = persistedOwner.bindingId ∧ requestedOwner.sessionId = persistedOwner.sessionId ∧
    requestedOwner.permissionMode = "default" ∧ persistedOwner.permissionMode = "default")
    "普通 Grok 历史补查不属于当前绑定运行"
  ofResult (collectMissing crates db persisted persistedOwner []
    ((db.readTaskMessages persisted.taskId).filter fun message => message.recipientTaskId = persisted.taskId &&
      message.recipientGeneration ≤ persisted.generation && isInputSubject message.subject))

end GrokTerminal

/-- The requests to the mailbox and to the ledger of the tasks. -/
inductive Request where
  | checkpointTask (task : LocalCliTask) (expectedGeneration : Option Int)
  | checkpointTaskWithMessage (task : LocalCliTask) (expectedGeneration : Option Int) (message : LocalCliMessage)
  | enqueueTaskResult (taskId : String) (generation : Int)
  | claimTaskResult (message : LocalCliMessage) (expectedRecipient : Option LocalCliTask)
  | claimParentHistoryMessage (message : LocalCliMessage)
  | claimManagedMessage (message : LocalCliMessage) (expectedSender expectedRecipient : LocalCliTask)
  | enqueueMessage (message : LocalCliMessage)
  | acknowledgeMessage (messageId taskId : String) (generation : Int) (state : LocalCliMessageState)
  | acknowledgeApplicationHistory (messageId taskId : String) (generation : Int)
  | loadTasks (recoverInterrupted : Bool)
  | loadTaskGenerations (taskId : String)
  | loadMessages (taskId : String) (generation : Int)
  | loadTaskMessages (taskId : String)

inductive Answer where
  | done
  | enqueued (outcome : LocalCliEnqueueOutcome)
  | result (message : Option LocalCliMessage)
  | claimed (message : Option LocalCliMessage)
  | tasks (tasks : List LocalCliTask)
  | messages (messages : List LocalCliMessage)

def handleRequest (crates : Crates) : Request → Transact Answer
  | .checkpointTask task expectedGeneration => do
    checkpoint crates task expectedGeneration
    return .done
  | .checkpointTaskWithMessage task expectedGeneration message => do
    return .enqueued (← checkpointWithMessage crates task expectedGeneration message)
  | .enqueueTaskResult taskId generation => do return .result (← insertTaskResult crates taskId generation)
  | .claimTaskResult message expectedRecipient => do
    return .claimed (← claimResultIfCurrent crates message expectedRecipient)
  | .claimParentHistoryMessage message => do return .claimed (← claimParentMessage crates message)
  | .claimManagedMessage message expectedSender expectedRecipient => do
    return .claimed (← claimManagedMessage crates message expectedSender expectedRecipient)
  | .enqueueMessage message => do return .enqueued (← insertMessage crates message)
  | .acknowledgeMessage messageId taskId generation state => do
    updateMessageState crates messageId taskId generation state
    return .done
  | .acknowledgeApplicationHistory messageId taskId generation => do
    updateMessageStateWithReceipt crates messageId taskId generation ⟨.acknowledged, some .applicationHistory⟩
    return .done
  | .loadTasks recoverInterrupted => do return .tasks (← readTasks crates recoverInterrupted)
  | .loadTaskGenerations taskId => do return .tasks (← read (·.readTaskGenerations taskId))
  | .loadMessages taskId generation => do return .messages (← read (·.readMessages taskId generation))
  | .loadTaskMessages taskId => do return .messages (← read (·.readTaskMessages taskId))

def serve (crates : Crates) : List Request → Tables → List (Except String Answer) × Tables
  | [], db => ([], db)
  | request :: requests, db =>
    ((handleRequest crates request db).1 :: (serve crates requests (handleRequest crates request db).2).1,
      (serve crates requests (handleRequest crates request db).2).2)

theorem serve_induction {crates : Crates} {P : Tables → Prop}
    (hstep : ∀ request db, P db → P (handleRequest crates request db).2) (requests : List Request) (db : Tables)
    (h : P db) : P (serve crates requests db).2 := by
  induction requests generalizing db with
  | nil => exact h
  | cons request requests ih => exact ih _ (hstep request db h)

/-- The requests to the ledger of the inputs of owned terminals. -/
inductive GrokTerminal.Request where
  | claim (claim : GrokTerminalInputClaim)
  | acknowledge (expected : GrokTerminalDelivery) (response : Json)
  | load (messageId : Uuid)
  | saveVerifiedResult (expected : GrokTerminalDelivery) (verified : GrokTerminalVerifiedResult)
  | missingHistoricalResults (currentTask : LocalCliTask)

inductive GrokTerminal.Answer where
  | record (record : Option GrokTerminalInputRecord)
  | saved (task : Option LocalCliTask)
  | missing (deliveries : List GrokTerminalDelivery)

def GrokTerminal.handleRequest (crates : Crates) : GrokTerminal.Request → Transact GrokTerminal.Answer
  | .claim claim => do return .record (← GrokTerminal.claimOnce crates claim)
  | .acknowledge expected response => do return .record (← GrokTerminal.acknowledgeExact crates expected response)
  | .load messageId => do
    let db ← read id
    let row ← ofResult (GrokTerminal.readRecord crates db messageId)
    return .record (row.map Prod.snd)
  | .saveVerifiedResult expected verified => do return .saved (← GrokTerminal.saveVerifiedExact crates expected verified)
  | .missingHistoricalResults currentTask => do
    return .missing (← GrokTerminal.missingHistoricalExact crates currentTask)

end InfiniShell.LocalCli
