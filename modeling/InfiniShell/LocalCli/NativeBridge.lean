import InfiniShell.LocalCli.Tables

namespace InfiniShell.LocalCli

open Collections Effects Effects.Program
open RuntimeHost (Uuid)

instance : LinearOrder Uuid where
  le_refl := BitVec.le_refl
  le_trans _ _ _ := BitVec.le_trans
  le_antisymm _ _ := BitVec.le_antisymm
  le_total := BitVec.le_total
  lt_iff_le_not_ge a b := by
    rw [BitVec.lt_def, BitVec.le_def, BitVec.le_def]
    omega
  toDecidableLE := inferInstance

namespace NativeBridgeProcessSnapshot

def valid : NativeBridgeProcessSnapshot → Bool
  | .macos pid pidVersion uniqueId _ => pid > 0 && pidVersion > 0 && uniqueId > 0
  | .platform (.linux pid startTimeTicks procInode _ pidNamespaceInode _ _ executableInode) =>
    pid > 0 && startTimeTicks > 0 && procInode > 0 && pidNamespaceInode > 0 && executableInode > 0
  | .platform (.windows pid createdAt logonLow logonHigh _) =>
    pid > 0 && createdAt > 0 && (logonLow ≠ 0 || logonHigh ≠ 0)

def sameTerminalScope : NativeBridgeProcessSnapshot → NativeBridgeProcessSnapshot → Bool
  | .macos .., .macos .. => true
  | .platform (.linux _ _ _ device inode uid _ _), .platform (.linux _ _ _ shellDevice shellInode shellUid _ _) =>
    device = shellDevice && inode = shellInode && uid = shellUid
  | .platform (.windows _ _ low high session), .platform (.windows _ _ shellLow shellHigh shellSession) =>
    low = shellLow && high = shellHigh && session = shellSession
  | _, _ => false

end NativeBridgeProcessSnapshot

namespace NativeBridgeBindingSnapshot

def terminalValid (crates : Crates) (binding : NativeBridgeBindingSnapshot) : Bool :=
  match binding.nativeProcess with
  | .platform (.windows ..) =>
    binding.bootSession.isNone && binding.slaveDevice.isNone && binding.terminalGeneration.any (· ≠ 0)
  | _ =>
    binding.bootSession.any (fun boot => (crates.parseUuid boot).isOk) && binding.slaveDevice.any (· ≠ 0) &&
      binding.terminalGeneration.isNone

def validate (crates : Crates) (binding : NativeBridgeBindingSnapshot) : Except String Unit :=
  if binding.instanceId = 0 || !binding.nativeProcess.valid || !binding.shell.valid ||
      !binding.nativeProcess.sameTerminalScope binding.shell || !binding.terminalValid crates ||
      !isHexDigest binding.artifactSha256 then
    throw "普通 Grok 原生桥身份快照无效"
  else pure ()

end NativeBridgeBindingSnapshot

structure NativeBridgeInput where
  binding : Json
  sessionId : Uuid
  workingDirectory : String
  inputRevision : Uuid
  messageId : Uuid
  replaces : Option Uuid
  subject : String
  body : String

structure NativeBridgeInputRecord where
  message : LocalCliMessage
  delivery : NativeBridgeDelivery
deriving DecidableEq

def NativeBridgeInputRecord.toData (record : NativeBridgeInputRecord) : MessageData :=
  ⟨record.message, none, none, some record.delivery⟩

def MessageData.bridgeRecord (data : MessageData) : Except String NativeBridgeInputRecord :=
  match data.nativeDelivery with
  | some delivery => .ok ⟨data.message, delivery⟩
  | none => .error "missing field \x60delivery\x60"

inductive NativeBridgeClaimOutcome where
  | claimed (record : NativeBridgeInputRecord)
  | existing (record : NativeBridgeInputRecord)

namespace NativeBridge

def maxTextBytes : Nat := 128 * 1024

abbrev Attachments := String → String → Except String String

def bindingSnapshot (crates : Crates) (value : Json) : Except String NativeBridgeBindingSnapshot := do
  let binding ← crates.bridgeBinding value
  binding.validate crates
  return binding

def bodyValid (subject body : String) : Bool :=
  if subject = inputSubject then !blank body && body.utf8ByteSize ≤ maxTextBytes
  else if subject = richInputSubject then body ≠ "" && body.utf8ByteSize ≤ 1024 * 1024
  else false

def validateBody (subject body : String) : Except String Unit :=
  if bodyValid subject body then pure () else throw "普通 Grok 原生桥输入类型或正文无效"

def blakeText (crates : Crates) (body : String) : String := "blake3:" ++ hex (crates.blake3 body)

def payloadDigest (crates : Crates) (attachments : Attachments) (subject body : String) : Except String String := do
  validateBody subject body
  if subject = inputSubject then pure (blakeText crates body) else attachments subject body

def validateInput (sessionId : Uuid) (subject body : String) : Except String Unit :=
  if sessionId = 0 then throw "普通 Grok 原生桥会话或输入正文无效" else validateBody subject body

def validateStoredPayload (crates : Crates) (record : NativeBridgeInputRecord) : Except String Unit :=
  if record.message.subject = inputSubject then
    if record.delivery.version ≠ 1 || record.delivery.bodySha256.isSome ||
        record.delivery.payloadDigest ≠ blakeText crates record.message.body then
      throw "普通 Grok 原生桥旧文本记录不一致"
    else pure ()
  else if record.delivery.version ≠ 2 ||
      record.delivery.bodySha256 ≠ some (hex (crates.sha256 record.message.body)) ||
      !(record.delivery.payloadDigest.startsWith "blake3:" &&
        isHexDigest (record.delivery.payloadDigest.drop 7).toString) then
    throw "普通 Grok 原生桥图片引用记录不一致"
  else crates.validatePersistedBody record.message.body

def taskIdStart : String := "grok-native-terminal:"

def taskId (crates : Crates) (binding : NativeBridgeBindingSnapshot) (sessionId : Uuid) : String :=
  taskIdStart ++ hex (crates.blake3 (crates.bridgeIdentity binding sessionId))

def bindingTaskRecord (crates : Crates) (binding : NativeBridgeBindingSnapshot) (sessionId : Uuid)
    (workingDirectory : String) : LocalCliTask where
  version := 1
  taskId := taskId crates binding sessionId
  parentTaskId := none
  parentGeneration := none
  harness := "grok"
  workingDirectory := workingDirectory
  configJson := crates.bridgeConfig binding sessionId
  nativeSessionId := none
  generation := 1
  revision := 0
  state := .running
  result := none
  terminalEvidence := none

def bindingTask (crates : Crates) (binding : NativeBridgeBindingSnapshot) (sessionId : Uuid)
    (workingDirectory : String) : Except String LocalCliTask := do
  validateTask crates (bindingTaskRecord crates binding sessionId workingDirectory)
  return bindingTaskRecord crates binding sessionId workingDirectory

def settledAs : NativeBridgeDeliveryState → LocalCliMessageState × Option LocalCliReceiptKind
  | .unknown => (.unknown, none)
  | .notSent => (.failed, none)
  | .nativeAcknowledged => (.acknowledged, some .nativeProtocol)
  | .nativeRejected => (.failed, some .nativeProtocol)

def identityInvalid (crates : Crates) (messageId : Uuid) (state : LocalCliMessageState)
    (record : NativeBridgeInputRecord) : Bool :=
  record.message.version ≠ 1 || !isInputSubject record.message.subject ||
    record.message.messageId ≠ messageId.toText || record.delivery.messageId ≠ messageId ||
    record.delivery.messageId = 0 || record.delivery.inputRevision = 0 ||
    record.delivery.taskId ≠ taskId crates record.delivery.binding record.delivery.sessionId ||
    record.message.senderTaskId ≠ record.delivery.taskId || record.message.recipientTaskId ≠ record.delivery.taskId ||
    record.message.senderGeneration ≠ 1 || record.message.recipientGeneration ≠ 1 || state ≠ record.message.state

def readRecord (crates : Crates) (db : Tables) (messageId : Uuid) :
    Except String (Option (MessageData × NativeBridgeInputRecord)) :=
  match db.messageRow messageId.toText with
  | none => return none
  | some row => do
    let record ← row.data.bridgeRecord
    record.delivery.binding.validate crates
    validateInput record.delivery.sessionId record.message.subject record.message.body
    validateStoredPayload crates record
    if identityInvalid crates messageId row.state record then throw "普通 Grok 原生桥输入账本身份或正文不一致"
    if (record.message.state, record.message.receiptKind) ≠ settledAs record.delivery.state then
      throw "普通 Grok 原生桥输入状态与回执不一致"
    match db.readTask record.delivery.taskId with
    | none => throw "普通 Grok 原生桥绑定任务不存在"
    | some task => do
      let expected ← bindingTask crates record.delivery.binding record.delivery.sessionId task.workingDirectory
      if task ≠ expected then throw "普通 Grok 原生桥绑定任务已被替换"
      return some (row.data, record)

def asciiLower (byte : UInt8) : UInt8 := if 65 ≤ byte ∧ byte ≤ 90 then byte + 32 else byte

/-- `LIKE 'grok-native-terminal:%'`, which does not tell the cases of ASCII letters apart. -/
def likeTaskId (text : String) : Bool :=
  ((bytes text).take (bytes taskIdStart).length).map asciiLower = bytes taskIdStart

def nativeRecord (crates : Crates) (db : Tables) (messageId : String) : Except String NativeBridgeInputRecord := do
  let id ← crates.parseUuid messageId
  match ← readRecord crates db id with
  | some (_, record) => return record
  | none => throw "普通 Grok 原生桥输入记录丢失"

def nativeRecords (crates : Crates) (db : Tables) : Except String (List NativeBridgeInputRecord) :=
  ((db.messages.filter fun row => likeTaskId row.recipientTaskId).map (·.messageId)).mapM (nativeRecord crates db)

def replacedIds (records : BTreeMap Uuid NativeBridgeInputRecord) :
    List Uuid → List NativeBridgeInputRecord → Except String (List Uuid)
  | replaced, [] => .ok replaced
  | replaced, record :: rest =>
    match record.delivery.replaces with
    | none => replacedIds records replaced rest
    | some previousId =>
      match records.get previousId with
      | none => .error "普通 Grok 输入尝试链缺少前序记录"
      | some previous =>
        if previous.delivery.state = .unknown || previousId ∈ replaced then
          .error "普通 Grok 输入尝试链重复领取或前序交付仍未知"
        else replacedIds records (previousId :: replaced) rest

/-- The attempts on the way back from `cursor`; each step visits a new one. -/
def walkBack (records : BTreeMap Uuid NativeBridgeInputRecord) :
    Nat → List Uuid → Option Uuid → Except String (List Uuid)
  | _, visited, none => .ok visited
  | 0, _, some _ => .error "普通 Grok 输入尝试链包含循环"
  | fuel + 1, visited, some messageId =>
    if messageId ∈ visited then .error "普通 Grok 输入尝试链包含循环"
    else match records.get messageId with
      | none => .error "普通 Grok 输入尝试链不完整"
      | some record => walkBack records fuel (messageId :: visited) record.delivery.replaces

def byId (records : List NativeBridgeInputRecord) : BTreeMap Uuid NativeBridgeInputRecord :=
  BTreeMap.ofList (records.map fun record => (record.delivery.messageId, record))

def headOf (records : BTreeMap Uuid NativeBridgeInputRecord) : Except String NativeBridgeInputRecord := do
  let replaced ← replacedIds records [] records.values
  match records.values.filter fun record => record.delivery.messageId ∉ replaced with
  | [] => throw "普通 Grok 输入尝试链不存在最新记录"
  | _ :: _ :: _ => throw "普通 Grok 输入尝试链存在多个最新记录"
  | [head] => do
    let visited ← walkBack records (records.entries.length + 1) [] (some head.delivery.messageId)
    if visited.length ≠ records.entries.length then throw "普通 Grok 输入尝试链存在孤立记录"
    return head

def chainHead (records : List NativeBridgeInputRecord) : Except String NativeBridgeInputRecord := headOf (byId records)

def groupBySession (sessionId : Option Uuid) (subject body digest : String) :
    BTreeMap Uuid (List NativeBridgeInputRecord) → List NativeBridgeInputRecord →
      Except String (BTreeMap Uuid (List NativeBridgeInputRecord))
  | sessions, [] => .ok sessions
  | sessions, record :: rest =>
    if sessionId.any (· ≠ record.delivery.sessionId) || record.message.subject ≠ subject ||
        record.delivery.payloadDigest ≠ digest then
      groupBySession sessionId subject body digest sessions rest
    else if record.message.body ≠ body then .error "普通 Grok 原生桥输入摘要冲突"
    else groupBySession sessionId subject body digest
      (sessions.insert record.delivery.sessionId ((sessions.get record.delivery.sessionId).getD [] ++ [record])) rest

def latestInputs (crates : Crates) (attachments : Attachments) (db : Tables) (sessionId : Option Uuid)
    (subject body : String) : Except String (List NativeBridgeInputRecord) := do
  let records ← nativeRecords crates db
  let stored := records.find? fun record => subject = richInputSubject && record.message.subject = subject &&
    record.message.body = body && sessionId.all (· = record.delivery.sessionId)
  let digest ← match stored with
    | some record => pure record.delivery.payloadDigest
    | none => payloadDigest crates attachments subject body
  let sessions ← groupBySession sessionId subject body digest .empty records
  sessions.values.mapM chainHead

/-- The one attempt among `records` that is in scope. -/
def onlyMatch (inScope : NativeBridgeInputRecord → Bool) :
    Option NativeBridgeInputRecord → List NativeBridgeInputRecord → Except String (Option NativeBridgeInputRecord)
  | matched, [] => .ok matched
  | matched, record :: rest =>
    if inScope record then
      if matched.isSome then .error "普通 Grok 原生桥正文在多个会话中存在，不能猜测目标会话"
      else onlyMatch inScope (some record) rest
    else onlyMatch inScope matched rest

def lookupExact (crates : Crates) (attachments : Attachments) (bindingValue : Json) (sessionId : Option Uuid)
    (subject body : String) : Transact (Option NativeBridgeInputRecord) := do
  let binding ← ofResult (bindingSnapshot crates bindingValue)
  ofResult (validateBody subject body)
  ensure (sessionId ≠ some 0) "普通 Grok 原生桥查询会话或正文无效"
  let db ← read id
  let latest ← ofResult (latestInputs crates attachments db sessionId subject body)
  ofResult (onlyMatch (fun record => match sessionId with
    | some sessionId => record.delivery.sessionId = sessionId
    | none => record.delivery.binding = binding) none latest)

/-- Whether the attempt that a claim would follow answers it instead. -/
def followedBy (replaces : Option Uuid) (previous : Option NativeBridgeInputRecord) :
    Except String (Option NativeBridgeInputRecord) :=
  match previous, replaces with
  | some record, some replaced =>
    if record.delivery.messageId = replaced then
      if record.delivery.state = .unknown then .error "交付状态未知的普通 Grok 输入不能再次投递" else .ok none
    else .ok (some record)
  | some record, none => .ok (some record)
  | none, some _ => .error "普通 Grok 新输入引用的前次尝试不存在"
  | none, none => .ok none

def claimRecord (crates : Crates) (task : LocalCliTask) (binding : NativeBridgeBindingSnapshot) (digest : String)
    (input : NativeBridgeInput) : NativeBridgeInputRecord where
  message :=
    { version := 1
      messageId := input.messageId.toText
      senderTaskId := task.taskId
      recipientTaskId := task.taskId
      senderGeneration := 1
      recipientGeneration := 1
      subject := input.subject
      body := input.body
      state := .unknown
      receiptKind := none }
  delivery :=
    { version := if input.subject = richInputSubject then 2 else 1
      taskId := task.taskId
      binding := binding
      sessionId := input.sessionId
      inputRevision := input.inputRevision
      messageId := input.messageId
      replaces := input.replaces
      payloadDigest := digest
      bodySha256 := if input.subject = richInputSubject then some (hex (crates.sha256 input.body)) else none
      state := .unknown }

def bindTask (task : LocalCliTask) : Transact Unit := do
  let db ← read id
  match db.readTask task.taskId with
  | some previous => ensure (previous = task) "普通 Grok 原生桥绑定或工作目录已经改变"
  | none => writeTask task

def claimOnce (crates : Crates) (outside inside : Attachments) (input : NativeBridgeInput) :
    Transact NativeBridgeClaimOutcome := do
  let binding ← ofResult (bindingSnapshot crates input.binding)
  ofResult (validateInput input.sessionId input.subject input.body)
  let digest ← ofResult (payloadDigest crates outside input.subject input.body)
  ensure (input.messageId ≠ 0 ∧ input.inputRevision ≠ 0 ∧ input.replaces.all fun replaced =>
    replaced ≠ 0 && replaced ≠ input.messageId) "普通 Grok 原生桥输入或草稿修订标识无效"
  let task ← ofResult (bindingTask crates binding input.sessionId input.workingDirectory)
  transaction do
    let db ← read id
    match ← ofResult (readRecord crates db input.messageId) with
    | some (_, record) => do
      ensure (record.delivery.binding = binding ∧ record.delivery.sessionId = input.sessionId ∧
        record.message.subject = input.subject ∧ record.message.body = input.body ∧
        record.delivery.payloadDigest = digest) "同一普通 Grok 消息 ID 不能用于另一绑定、会话或正文"
      return .existing record
    | none => do
      let latest ← ofResult (latestInputs crates inside db (some input.sessionId) input.subject input.body)
      ensure (latest.getLast?.all (·.delivery.payloadDigest = digest)) "普通 Grok 图片引用与原领取摘要不一致"
      match ← ofResult (followedBy input.replaces latest.getLast?) with
      | some record => return .existing record
      | none => do
        let records ← ofResult (nativeRecords crates db)
        ensure (∀ record ∈ records, record.delivery.sessionId = input.sessionId →
          record.delivery.inputRevision = input.inputRevision →
          record.message.subject = input.subject ∧ record.message.body = input.body)
          "同一普通 Grok 草稿修订不能提交不同正文"
        bindTask task
        insertRow (claimRecord crates task binding digest input).toData
        return .claimed (claimRecord crates task binding digest input)

def receiptState (stored : NativeBridgeDelivery) : BridgeResponse → Except String (Option NativeBridgeDeliveryState)
  | .unknown messageId =>
    if messageId ≠ stored.messageId then .error "普通 Grok 未知回执属于另一条输入" else .ok none
  | .rejected reason =>
    if reason = "" || reason.utf8ByteSize > 1024 then .error "普通 Grok 原生桥拒绝响应无效" else .ok none
  | .receipt receipt =>
    if receipt.messageId ≠ stored.messageId || receipt.promptId ≠ stored.messageId ||
        receipt.sessionId ≠ stored.sessionId || receipt.payloadDigest ≠ stored.payloadDigest then
      .error "普通 Grok 原生桥精确回执身份或正文摘要不符"
    else match receipt.state with
      | .claimed | .dispatched | .unknown => .ok none
      | .nativeAcknowledged => .ok (some .nativeAcknowledged)
      | .nativeRejected => .ok (some .nativeRejected)

def settle (record : NativeBridgeInputRecord) (next : NativeBridgeDeliveryState) : NativeBridgeInputRecord where
  message := { record.message with state := (settledAs next).1, receiptKind := (settledAs next).2 }
  delivery := { record.delivery with state := next }

def acknowledgeExact (crates : Crates) (expected : NativeBridgeDelivery) (currentBinding response : Json) :
    Transact (Option NativeBridgeInputRecord) := do
  let binding ← ofResult (bindingSnapshot crates currentBinding)
  let response ← ofResult (crates.bridgeResponse response)
  transaction do
    let db ← read id
    match ← ofResult (readRecord crates db expected.messageId) with
    | none => throw "普通 Grok 原生桥输入尚未领取"
    | some (raw, record) => do
      let stored := { record.delivery with state := .unknown }
      ensure ({ expected with state := .unknown } = stored ∧ binding = stored.binding)
        "普通 Grok 原生桥回执属于旧绑定或不同输入快照"
      match ← ofResult (receiptState stored response) with
      | none => return none
      | some next => do
        ensure (record.delivery.state = .unknown ∨ record.delivery.state = next)
          "普通 Grok 原生桥同一输入收到冲突的原生回执"
        let settled := if record.delivery.state = .unknown then settle record next else record
        if record.delivery.state = .unknown then
          updateRow .unknown raw settled.toData "普通 Grok 原生桥领取记录已由其他事务取代"
        return if next = .nativeAcknowledged then some settled else none

def markNotSentExact (crates : Crates) (expected : NativeBridgeDelivery) :
    Transact (Option NativeBridgeInputRecord) := do
  ensure (expected.state = .unknown) "只能将尚未确认的普通 Grok 输入记为未发送"
  transaction do
    let db ← read id
    match ← ofResult (readRecord crates db expected.messageId) with
    | none => throw "普通 Grok 原生桥输入尚未领取"
    | some (raw, record) => do
      ensure (record.delivery = expected) "普通 Grok 未发送证明不属于当前领取记录"
      let settled : NativeBridgeInputRecord :=
        ⟨{ record.message with state := .failed }, { record.delivery with state := .notSent }⟩
      updateRow .unknown raw settled.toData "普通 Grok 未发送记录已由其他事务取代"
      return some settled

/-- The requests to the ledger, with what the attachment store answers while they are served. -/
inductive Request where
  | claim (input : NativeBridgeInput) (outside inside : Attachments)
  | lookup (binding : Json) (sessionId : Option Uuid) (subject body : String) (attachments : Attachments)
  | acknowledge (expected : NativeBridgeDelivery) (currentBinding response : Json)
  | markNotSent (expected : NativeBridgeDelivery)

inductive Answer where
  | claim (outcome : NativeBridgeClaimOutcome)
  | record (record : Option NativeBridgeInputRecord)

def handleRequest (crates : Crates) : Request → Transact Answer
  | .claim input outside inside => do return .claim (← claimOnce crates outside inside input)
  | .lookup binding sessionId subject body attachments => do
    return .record (← lookupExact crates attachments binding sessionId subject body)
  | .acknowledge expected currentBinding response => do
    return .record (← acknowledgeExact crates expected currentBinding response)
  | .markNotSent expected => do return .record (← markNotSentExact crates expected)

end NativeBridge

end InfiniShell.LocalCli
