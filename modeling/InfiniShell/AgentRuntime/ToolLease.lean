import InfiniShell.LocalCli.ResultHistory
import Mathlib.Algebra.Group.Int.Defs

namespace InfiniShell.AgentRuntime

open Collections Effects Effects.Program
open LocalCli (Json JsonObject bytes)
open RuntimeHost (Uuid)

def maxRecords : Nat := 256

def maxBytes : Nat := 1024 * 1024

def leaseDuration : Nat := 30 * 1000000000

abbrev Fingerprint := BitVec 256

inductive GrokToolLeaseState where
  | streaming
  | ready
  | bound
  | replyWritten
  | closed
deriving DecidableEq

structure ToolLease where
  runtimeGeneration : Uuid
  turnId : String
  qualifiedName : String
  finalFingerprint : Option Fingerprint
  approved : Bool
  nativeCompleted : Bool
  replySuccess : Option Bool
  expires : Option Nat
  state : GrokToolLeaseState
deriving DecidableEq

structure VerifiedGrokToolLease where
  processEpoch : Uuid
  runtimeGeneration : Uuid
  serverId : String
  nativeCallId : String
  turnId : String
  innerKey : String
deriving DecidableEq

structure InnerBinding where
  fingerprint : Fingerprint
  lease : VerifiedGrokToolLease

structure GrokToolLeaseLedger where
  processEpoch : Uuid
  runtimeGeneration : Uuid
  serverId : String
  serverName : String
  nativeSessionId : String
  confirmedTurnId : Option String
  retired : Bool
  leases : AssocMap String ToolLease
  events : AssocMap String Fingerprint
  approvals : AssocMap String (Fingerprint × Bool)
  inner : AssocMap String InnerBinding
  outer : AssocMap String (Fingerprint × String)

/-- The digest and the reader of JSON that come from elsewhere. -/
structure Codec where
  sha256 : String → Fingerprint
  parse : String → Except String Json

def orError {A : Type} (value : Option A) (missing : String) : Except String A :=
  match value with
  | some a => .ok a
  | none => .error missing

def validId (id : String) : Except String Unit :=
  if id = "" ∨ id.utf8ByteSize > 256 then .error "原生身份字段无效" else .ok ()

def isU64 : Json → Bool
  | .integer value => 0 ≤ value && value < 2 ^ 64
  | _ => false

def isRpcId (id : Json) : Bool := isU64 id || id.asStr?.any fun text => text ≠ "" && text.utf8ByteSize ≤ 256

def rpcKey (id : Json) : Except String String :=
  if isRpcId id then .ok id.render else .error "SDK 事务 ID 无效"

def fieldNames : JsonObject → List String
  | .nil => []
  | .cons key _ rest => key :: fieldNames rest

def keys? : Json → Option (List String)
  | .object fields => some (fieldNames fields)
  | _ => none

def isClosed (value : Json) (expected : List String) : Bool :=
  (keys? value).any fun names => names.length = expected.length && names.all fun name => name ∈ expected

def fingerprint (codec : Codec) (value : Json) : Except String Fingerprint :=
  if value.render.utf8ByteSize > maxBytes then .error "工具输入超过预算" else .ok (codec.sha256 value.render)

def inputFingerprint (codec : Codec) (name : String) (arguments : Json) : Except String Fingerprint :=
  if !arguments.isObject then .error "工具参数必须是对象"
  else fingerprint codec (.object (.cons "arguments" arguments (.cons "qualified_name" (.string name) .nil)))

def isRegistered (serverName name : String) : Bool := (bytes serverName ++ bytes "__").isPrefixOf (bytes name)

def inputInvalid (input : Json) (finalInput : Bool) : Bool :=
  match keys? input with
  | none => true
  | some names => names.length ≠ (if finalInput then 3 else 2) || "tool_name" ∉ names || "tool_input" ∉ names ||
    (finalInput && input.index "variant" ≠ .string "UseTool")

def nativeInput (codec : Codec) (serverName : String) (input : Json) (finalInput : Bool) :
    Except String (String × Fingerprint) := do
  let _ ← orError (keys? input) "原生工具输入不是对象"
  if inputInvalid input finalInput then throw "原生工具输入不是完整 UseTool 契约"
  let name ← orError (input.index "tool_name").asStr? "原生工具缺少名称"
  validId name
  if !isRegistered serverName name then throw "原生工具不是已注册服务"
  return (name, ← inputFingerprint codec name (input.index "tool_input"))

namespace GrokToolLeaseLedger

def fresh (processEpoch runtimeGeneration : Uuid) (serverId serverName nativeSessionId : String) :
    GrokToolLeaseLedger :=
  ⟨processEpoch, runtimeGeneration, serverId, serverName, nativeSessionId, none, false, .empty, .empty, .empty, .empty,
    .empty⟩

def new (processEpoch runtimeGeneration : Uuid) (serverId serverName nativeSessionId : String) :
    Except String GrokToolLeaseLedger := do
  validId serverId
  validId serverName
  validId nativeSessionId
  return fresh processEpoch runtimeGeneration serverId serverName nativeSessionId

def putLease (ledger : GrokToolLeaseLedger) (call : String) (lease : ToolLease) : GrokToolLeaseLedger :=
  { ledger with leases := ledger.leases.insert call lease }

def hasExpired (ledger : GrokToolLeaseLedger) (now : Nat) : Bool :=
  ledger.leases.entries.any fun entry =>
    (entry.2.state = .streaming || entry.2.state = .ready) && entry.2.expires.any fun expires => expires ≤ now

def foreignFrame (ledger : GrokToolLeaseLedger) (message : Json) (turn : String) : Bool :=
  let params := message.index "params"
  message.index "jsonrpc" ≠ .string "2.0" || message.index "method" ≠ .string "session/update" ||
    (message.get? "id").isSome || (message.get? "result").isSome || (message.get? "error").isSome ||
    params.index "sessionId" ≠ .string ledger.nativeSessionId || ledger.confirmedTurnId ≠ some turn ||
    (params.index "_meta").index "isReplay" = .bool true ||
    ((params.index "update").index "_meta").index "isReplay" = .bool true

def absentOr (value : Json) (key text : String) : Bool := (value.get? key).all fun found => found = .string text

def foreignPermission (ledger : GrokToolLeaseLedger) (message : Json) (lease : ToolLease) (name : String)
    (inputHash : Fingerprint) : Bool :=
  let params := message.index "params"
  let tool := params.index "toolCall"
  message.index "jsonrpc" ≠ .string "2.0" || message.index "method" ≠ .string "session/request_permission" ||
    (message.get? "result").isSome || (message.get? "error").isSome ||
    params.index "sessionId" ≠ .string ledger.nativeSessionId || (params.index "_meta").index "isReplay" = .bool true ||
    (tool.index "_meta").index "isReplay" = .bool true || tool.index "kind" ≠ .string "other" ||
    !absentOr (params.index "_meta") "promptId" lease.turnId ||
    !absentOr ((tool.index "_meta").index "x.ai/tool") "name" "use_tool" ||
    lease.runtimeGeneration ≠ ledger.runtimeGeneration || lease.qualifiedName ≠ name ||
    lease.finalFingerprint ≠ some inputHash || lease.state ≠ .ready || lease.nativeCompleted

/-- The call is not a closed transaction with this server. -/
def foreignCall (ledger : GrokToolLeaseLedger) (message : Json) : Bool :=
  let params := message.index "params"
  let inner := params.index "message"
  !isClosed message ["jsonrpc", "id", "method", "params"] || message.index "jsonrpc" ≠ .string "2.0" ||
    !(message.index "method" = .string "x.ai/mcp/sdk_call" || message.index "method" = .string "_x.ai/mcp/sdk_call") ||
    !isClosed params ["serverId", "message"] || params.index "serverId" ≠ .string ledger.serverId ||
    !isClosed inner ["jsonrpc", "id", "method", "params"] || inner.index "jsonrpc" ≠ .string "2.0" ||
    inner.index "method" ≠ .string "tools/call" ||
    !(keys? (inner.index "params")).any fun names => (names.length = 2 || names.length = 3) && "name" ∈ names &&
      "arguments" ∈ names && names.all fun name => name = "name" || name = "arguments" || name = "_meta"

def awaits (ledger : GrokToolLeaseLedger) (qualifiedName : String) (inputHash : Fingerprint) (lease : ToolLease) :
    Bool :=
  lease.runtimeGeneration = ledger.runtimeGeneration && lease.state = .ready && lease.approved &&
    !lease.nativeCompleted && lease.qualifiedName = qualifiedName && lease.finalFingerprint = some inputHash

def candidates (ledger : GrokToolLeaseLedger) (qualifiedName : String) (inputHash : Fingerprint) :
    List (String × ToolLease) :=
  ledger.leases.entries.filter fun entry => ledger.awaits qualifiedName inputHash entry.2

def proofFor (ledger : GrokToolLeaseLedger) (call : String) (lease : ToolLease) (innerKey : String) :
    VerifiedGrokToolLease :=
  ⟨ledger.processEpoch, ledger.runtimeGeneration, ledger.serverId, call, lease.turnId, innerKey⟩

end GrokToolLeaseLedger

abbrev Ledgered (A : Type) := Program GrokToolLeaseLedger String A

namespace ToolLedger

def active : Ledgered Unit := do
  let ledger ← read id
  ensure (ledger.retired = false) "旧 SDK 进程能力已退休"

def retire : Ledgered Unit := modify fun ledger => { ledger with retired := true }

def expireUnbound (now : Nat) : Ledgered Unit := do
  let ledger ← read id
  if ledger.hasExpired now then
    retire
    throw "未绑定原生工具租约过期，旧进程能力已退休"

def beginTurn (runtimeGeneration : Uuid) (turnId : String) : Ledgered Unit := do
  active
  ofResult (validId turnId)
  let ledger ← read id
  if ledger.confirmedTurnId = some turnId then
    ensure (runtimeGeneration = ledger.runtimeGeneration) "同一原生回合改变了执行代次"
  else do
    ensure (ledger.confirmedTurnId = none ∨ ledger.leases.entries.all fun entry => entry.2.state = .closed)
      "上一原生回合仍有未闭合工具租约"
    modify fun ledger => { ledger with runtimeGeneration := runtimeGeneration, confirmedTurnId := some turnId }

def registerCall (codec : Codec) (update : Json) (call turn : String) : Ledgered Unit := do
  let ledger ← read id
  ensure (((update.index "_meta").index "x.ai/tool").index "name" = .string "use_tool") "原生工具不是 UseTool"
  let (name, _) ← ofResult (nativeInput codec ledger.serverName (update.index "rawInput") false)
  match ledger.leases.get call with
  | some previous =>
    ensure (previous.runtimeGeneration = ledger.runtimeGeneration ∧ previous.turnId = turn ∧
      previous.qualifiedName = name) "原生工具调用 ID 改变了身份"
  | none => do
    ensure (ledger.leases.size < maxRecords) "原生工具租约预算已耗尽"
    modify (·.putLease call ⟨ledger.runtimeGeneration, turn, name, none, false, false, none, none, .streaming⟩)

def inputChanged (ledger : GrokToolLeaseLedger) (update : Json) (lease : ToolLease) (turn name : String)
    (inputHash : Fingerprint) : Bool :=
  lease.runtimeGeneration ≠ ledger.runtimeGeneration || lease.qualifiedName ≠ name || lease.turnId ≠ turn ||
    lease.nativeCompleted || lease.finalFingerprint.any (· ≠ inputHash) ||
    !GrokToolLeaseLedger.absentOr update "kind" "other" ||
    !GrokToolLeaseLedger.absentOr ((update.index "_meta").index "x.ai/tool") "name" "use_tool"

def completeInput (codec : Codec) (update : Json) (call turn : String) : Ledgered Unit := do
  let ledger ← read id
  let (name, inputHash) ← ofResult (nativeInput codec ledger.serverName (update.index "rawInput") true)
  let lease ← ofResult (orError (ledger.leases.get call) "完整工具输入没有初始账本")
  ensure (inputChanged ledger update lease turn name inputHash = false) "完整工具输入改变了原生租约"
  modify (·.putLease call { lease with
    finalFingerprint := some inputHash, state := if lease.state = .streaming then .ready else lease.state })

def completeCall (call : String) : Ledgered Unit := do
  let ledger ← read id
  let lease ← ofResult (orError (ledger.leases.get call) "工具完成没有初始账本")
  modify (·.putLease call { lease with
    nativeCompleted := true, state := if lease.state = .bound then .bound else .closed })

def failCall (call : String) : Ledgered Unit := do
  let ledger ← read id
  let lease ← ofResult (orError (ledger.leases.get call) "工具失败没有初始账本")
  -- a failure that was reported in the reply only ends its own call
  if lease.state = .replyWritten ∧ lease.replySuccess = some false then
    modify (·.putLease call { lease with nativeCompleted := true, state := .closed })
  else do
    retire
    throw "原生工具失败，旧 SDK 进程能力已退休"

def updateCall (codec : Codec) (update : Json) (call turn : String) : Ledgered Unit := do
  let ledger ← read id
  let previous ← ofResult (orError (ledger.leases.get call) "工具更新没有初始账本")
  ensure (previous.runtimeGeneration = ledger.runtimeGeneration ∧ previous.turnId = turn) "工具更新跨越了原生回合身份"
  if (update.get? "rawInput").isSome then completeInput codec update call turn
  if update.index "status" = .string "completed" then completeCall call
  else if update.index "status" = .string "failed" then failCall call

/-- What a frame does, once it is known to be new. -/
def observeUpdate (codec : Codec) (update : Json) (call turn : String) : Ledgered Unit :=
  if update.index "sessionUpdate" = .string "tool_call" then registerCall codec update call turn
  else if update.index "sessionUpdate" = .string "tool_call_update" then updateCall codec update call turn
  else throw "不是原生工具生命周期帧"

/-- The turn, the event and the call that a frame names. -/
def frameIds (message : Json) : Except String (String × String × String) := do
  let params := message.index "params"
  let turn ← orError ((params.index "_meta").index "promptId").asStr? "工具帧缺少原生回合"
  let event ← orError ((params.index "_meta").index "eventId").asStr? "工具帧缺少原生事件 ID"
  let call ← orError ((params.index "update").index "toolCallId").asStr? "工具帧缺少原生调用 ID"
  validId event
  validId call
  return (turn, event, call)

def observeNativeTool (codec : Codec) (message : Json) (now : Nat) : Ledgered Unit := do
  active
  expireUnbound now
  let (turn, event, call) ← ofResult (frameIds message)
  let ledger ← read id
  ensure (ledger.foreignFrame message turn = false) "工具帧不是当前进程的已确认原生回合"
  let frameHash ← ofResult (fingerprint codec message)
  match ledger.events.get event with
  | some previous => ensure (previous = frameHash) "原生事件 ID 被不同内容复用"
  | none => do
    ensure (ledger.events.size < maxRecords) "原生工具事件预算已耗尽"
    observeUpdate codec ((message.index "params").index "update") call turn
    modify fun ledger => { ledger with events := ledger.events.insert event frameHash }

def recordPermission (codec : Codec) (message : Json) (allowed : Bool) (now : Nat) : Ledgered Unit := do
  active
  expireUnbound now
  let tool := (message.index "params").index "toolCall"
  let call ← ofResult (orError (tool.index "toolCallId").asStr? "审批缺少原生调用 ID")
  let approvalKey ← ofResult (rpcKey (message.index "id"))
  let frameHash ← ofResult (fingerprint codec message)
  let ledger ← read id
  match ledger.approvals.get approvalKey with
  | some previous => ensure (previous.1 = frameHash ∧ previous.2 = allowed) "审批请求身份或决定发生冲突"
  | none => do
    let (name, inputHash) ← ofResult (nativeInput codec ledger.serverName (tool.index "rawInput") true)
    let lease ← ofResult (orError (ledger.leases.get call) "审批没有完整原生工具租约")
    ensure (ledger.foreignPermission message lease name inputHash = false) "审批未匹配完整原生工具输入与身份"
    ensure (ledger.approvals.size < maxRecords) "审批身份预算已耗尽"
    modify (·.putLease call { lease with
      approved := allowed, expires := if allowed then some (now + leaseDuration) else none })
    modify fun ledger => { ledger with approvals := ledger.approvals.insert approvalKey (frameHash, allowed) }
    if allowed = false then retire

/-- The keys and the digests of a call, and of the transaction that it carries. -/
def callIds (codec : Codec) (message : Json) : Except String ((String × Fingerprint) × (String × Fingerprint)) := do
  let inner := (message.index "params").index "message"
  let outerKey ← rpcKey (message.index "id")
  let innerKey ← rpcKey (inner.index "id")
  let outerHash ← fingerprint codec message
  let innerHash ← fingerprint codec inner
  return ((outerKey, outerHash), (innerKey, innerHash))

def registerOuter (outer : String × Fingerprint) (innerKey : String) : Ledgered Unit := do
  let ledger ← read id
  if !ledger.outer.contains outer.1 then
    ensure (ledger.outer.size < maxRecords) "SDK 外层事务预算已耗尽"
    modify fun ledger => { ledger with outer := ledger.outer.insert outer.1 (outer.2, innerKey) }

def bindNew (codec : Codec) (params : Json) (outer inner : String × Fingerprint) : Ledgered VerifiedGrokToolLease := do
  let ledger ← read id
  ensure (ledger.inner.size < maxRecords ∧ ledger.outer.size < maxRecords) "SDK 事务预算已耗尽"
  let tool ← ofResult (orError (params.index "name").asStr? "SDK 缺少工具名称")
  ofResult (validId tool)
  let qualifiedName := ledger.serverName ++ "__" ++ tool
  let inputHash ← ofResult (inputFingerprint codec qualifiedName (params.index "arguments"))
  match ledger.candidates qualifiedName inputHash with
  | [(call, lease)] => do
    let proof := ledger.proofFor call lease inner.1
    modify (·.putLease call { lease with state := .bound })
    modify fun ledger => { ledger with
      inner := ledger.inner.insert inner.1 ⟨inner.2, proof⟩, outer := ledger.outer.insert outer.1 (outer.2, inner.1) }
    return proof
  | [] => throw "SDK 调用没有唯一完整原生工具租约"
  | _ => do
    retire
    throw "SDK 调用没有唯一完整原生工具租约"

def bindSdk (codec : Codec) (message : Json) (now : Nat) : Ledgered VerifiedGrokToolLease := do
  active
  expireUnbound now
  let ledger ← read id
  ensure (ledger.foreignCall message = false) "SDK 调用不是当前进程的封闭业务事务"
  let (outer, inner) ← ofResult (callIds codec message)
  ensure ((ledger.outer.get outer.1).all fun previous => previous.1 = outer.2 && previous.2 = inner.1)
    "SDK 外层事务 ID 内容冲突"
  match ledger.inner.get inner.1 with
  | some previous => do
    ensure (previous.fingerprint = inner.2) "SDK 内层事务 ID 内容冲突"
    registerOuter outer inner.1
    return previous.lease
  | none => bindNew codec (((message.index "params").index "message").index "params") outer inner

def verifyBound (proof : VerifiedGrokToolLease) (serverId : String) (mcpId : Json) : Ledgered Unit := do
  active
  let ledger ← read id
  ensure (proof.processEpoch = ledger.processEpoch ∧ proof.serverId = ledger.serverId ∧ serverId = ledger.serverId)
    "工具回复不属于当前进程的已绑定租约"
  let key ← ofResult (rpcKey mcpId)
  ensure (key = proof.innerKey ∧ (ledger.inner.get proof.innerKey).any fun binding => binding.lease = proof)
    "工具回复不属于当前进程的已绑定租约"

def recordReplyWritten (codec : Codec) (proof : VerifiedGrokToolLease) (success : Bool) : Ledgered Unit := do
  active
  let mcpId ← ofResult (orError (codec.parse proof.innerKey).toOption "租约事务 ID 无效")
  let ledger ← read id
  verifyBound proof ledger.serverId mcpId
  let lease ← ofResult (orError (ledger.leases.get proof.nativeCallId) "回复缺少原生租约")
  ensure (lease.replySuccess.all fun previous => previous = success) "重复回写改变了工具业务结果"
  ensure (lease.state ≠ .streaming ∧ lease.state ≠ .ready) "工具回复尚未绑定业务事务"
  modify (·.putLease proof.nativeCallId { lease with
    replySuccess := some success
    state := if lease.state = .bound then (if lease.nativeCompleted then .closed else .replyWritten) else lease.state })

end ToolLedger

inductive LedgerCall where
  | beginTurn (runtimeGeneration : Uuid) (turnId : String)
  | observeNativeTool (message : Json) (now : Nat)
  | recordPermission (message : Json) (allowed : Bool) (now : Nat)
  | bindSdk (message : Json) (now : Nat)
  | verifyBound (proof : VerifiedGrokToolLease) (serverId : String) (mcpId : Json)
  | recordReplyWritten (proof : VerifiedGrokToolLease) (success : Bool)
  | retire

/-- A call answers with a proof if it binds. -/
def LedgerCall.run (codec : Codec) : LedgerCall → Ledgered (Option VerifiedGrokToolLease)
  | beginTurn runtimeGeneration turnId => do
    ToolLedger.beginTurn runtimeGeneration turnId
    return none
  | observeNativeTool message now => do
    ToolLedger.observeNativeTool codec message now
    return none
  | recordPermission message allowed now => do
    ToolLedger.recordPermission codec message allowed now
    return none
  | bindSdk message now => do return some (← ToolLedger.bindSdk codec message now)
  | verifyBound proof serverId mcpId => do
    ToolLedger.verifyBound proof serverId mcpId
    return none
  | recordReplyWritten proof success => do
    ToolLedger.recordReplyWritten codec proof success
    return none
  | retire => do
    ToolLedger.retire
    return none

def runCalls (codec : Codec) : List LedgerCall → GrokToolLeaseLedger → GrokToolLeaseLedger
  | [], ledger => ledger
  | call :: calls, ledger => runCalls codec calls (call.run codec ledger).2

end InfiniShell.AgentRuntime
