import InfiniShell.RuntimeHost.Journal

namespace InfiniShell.LocalCli

open RuntimeHost (Uuid)

mutual

/-- A JSON value. The fields of an object stand in the order of its map. -/
inductive Json where
  | null
  | bool (value : Bool)
  | integer (value : Int)
  | float (text : String)
  | string (text : String)
  | array (items : JsonArray)
  | object (fields : JsonObject)

inductive JsonArray where
  | nil
  | cons (head : Json) (tail : JsonArray)

inductive JsonObject where
  | nil
  | cons (key : String) (value : Json) (rest : JsonObject)

end

deriving instance DecidableEq for Json, JsonArray, JsonObject

def maxI64 : Int := 9223372036854775807

def minI64 : Int := -9223372036854775808

def checkedAdd (a b : Int) : Option Int := if minI64 ≤ a + b ∧ a + b ≤ maxI64 then some (a + b) else none

theorem eq_add_of_checkedAdd {a b c : Int} (h : checkedAdd a b = some c) : c = a + b := by
  rw [checkedAdd] at h
  split at h
  · exact (Option.some.inj h).symm
  · exact absurd h nofun

namespace JsonObject

def find? (key : String) : JsonObject → Option Json
  | nil => none
  | cons k value rest => if k = key then some value else find? key rest

end JsonObject

namespace Json

def get? (key : String) : Json → Option Json
  | object fields => fields.find? key
  | _ => none

def index (value : Json) (key : String) : Json := (value.get? key).getD null

def asStr? : Json → Option String
  | string text => some text
  | _ => none

def asI64? : Json → Option Int
  | integer value => if minI64 ≤ value ∧ value ≤ maxI64 then some value else none
  | _ => none

def isObject : Json → Bool
  | object _ => true
  | _ => false

def isEmptyArray : Json → Bool
  | array .nil => true
  | _ => false

end Json

/-- The characters that `str::trim` drops. -/
def isWhitespace (c : Char) : Bool :=
  let n := c.toNat
  (9 ≤ n && n ≤ 13) || n = 32 || n = 0x85 || n = 0xA0 || n = 0x1680 || (0x2000 ≤ n && n ≤ 0x200A) ||
    n = 0x2028 || n = 0x2029 || n = 0x202F || n = 0x205F || n = 0x3000

def isControl (c : Char) : Bool := c.toNat < 0x20 || (0x7F ≤ c.toNat && c.toNat < 0xA0)

def blank (text : String) : Bool := text.toList.all isWhitespace

/-- The low `count` hexadecimal digits of a number, in lower case. -/
def hexDigits (count n : Nat) : String :=
  String.ofList ((List.range count).map fun i => Nat.digitChar (n / 16 ^ (count - 1 - i) % 16))

def hex (digest : BitVec 256) : String := hexDigits 64 digest.toNat

def bytes (text : String) : List UInt8 := text.toByteArray.data.toList

def isHexDigest (text : String) : Bool :=
  text.utf8ByteSize = 64 && (bytes text).all fun byte => (48 ≤ byte && byte ≤ 57) || (97 ≤ byte && byte ≤ 102)

inductive LocalCliTaskState where
  | queued
  | running
  | waitingForUser
  | unconfirmed
  | completed
  | failed
  | cancelled
  | disconnected
  | unknown
deriving DecidableEq

namespace LocalCliTaskState

def isActive : LocalCliTaskState → Bool
  | queued | running | waitingForUser | unconfirmed => true
  | _ => false

def isTerminal : LocalCliTaskState → Bool
  | completed | failed | cancelled => true
  | _ => false

end LocalCliTaskState

/-- The mapping of an application task to a native session. -/
structure LocalCliTask where
  version : Nat
  taskId : String
  parentTaskId : Option String
  parentGeneration : Option Int
  harness : String
  workingDirectory : String
  configJson : String
  nativeSessionId : Option String
  generation : Int
  revision : Int
  state : LocalCliTaskState
  result : Option String
  terminalEvidence : Option String
deriving DecidableEq

inductive LocalCliMessageState where
  | queued
  | sent
  | acknowledged
  | failed
  | cancelled
  | unknown
deriving DecidableEq

inductive LocalCliReceiptKind where
  | nativeProtocol
  | applicationHistory
deriving DecidableEq

structure LocalCliMessage where
  version : Nat
  messageId : String
  senderTaskId : String
  recipientTaskId : String
  senderGeneration : Int
  recipientGeneration : Int
  subject : String
  body : String
  state : LocalCliMessageState
  receiptKind : Option LocalCliReceiptKind
deriving DecidableEq

def LocalCliMessage.original (message : LocalCliMessage) : LocalCliMessage :=
  { message with state := .queued, receiptKind := none }

structure ClaudeResultLink where
  messageId : Uuid
  recipientGeneration : Int
  mailboxSha256 : String
deriving DecidableEq

structure PersistedGrokInputLink where
  messageId : Uuid
  submissionGeneration : Int
  runtimeGeneration : Uuid
  nativeTurnId : Option String
  mailboxSha256 : Option String

structure GrokTerminalOwner where
  version : Nat
  launchId : Uuid
  bindingId : Uuid
  sessionId : Uuid
  inputRevision : Uuid
  permissionRevision : Uuid
  cliVersion : String
  modelId : String
  permissionMode : String

inductive GrokTerminalOutcome where
  | endTurn
  | cancelled
deriving DecidableEq

inductive GrokTerminalDeliveryStatus where
  | unknown
  | finished (nativePromptId : Uuid) (outcome : GrokTerminalOutcome)
deriving DecidableEq

structure GrokTerminalDelivery where
  version : Nat
  taskId : String
  taskGeneration : Int
  taskRevision : Int
  configSha256 : String
  launchId : Uuid
  bindingId : Uuid
  sessionId : Uuid
  inputRevision : Uuid
  permissionRevision : Uuid
  messageId : Uuid
  rpcId : Uuid
  bodySha256 : String
  status : GrokTerminalDeliveryStatus
deriving DecidableEq

structure GrokTerminalVerifiedResult where
  nativePromptId : Uuid
  completionWatermark : String
  output : String
deriving DecidableEq

inductive PlatformBridgeProcessSnapshot where
  | linux (pid : Int) (startTimeTicks procInode pidNamespaceDevice pidNamespaceInode uid executableDevice
      executableInode : Nat)
  | windows (pid createdAt logonLow : Nat) (logonHigh : Int) (sessionId : Nat)
deriving DecidableEq

inductive NativeBridgeProcessSnapshot where
  | macos (pid : Int) (pidVersion uniqueId resourceCid : Nat)
  | platform (process : PlatformBridgeProcessSnapshot)
deriving DecidableEq

structure NativeBridgeBindingSnapshot where
  instanceId : Uuid
  nativeProcess : NativeBridgeProcessSnapshot
  bootSession : Option String
  shell : NativeBridgeProcessSnapshot
  slaveDevice : Option Nat
  artifactSha256 : String
  terminalGeneration : Option Uuid
deriving DecidableEq

inductive NativeBridgeDeliveryState where
  | unknown
  | notSent
  | nativeAcknowledged
  | nativeRejected
deriving DecidableEq

structure NativeBridgeDelivery where
  version : Nat
  taskId : String
  binding : NativeBridgeBindingSnapshot
  sessionId : Uuid
  inputRevision : Uuid
  messageId : Uuid
  replaces : Option Uuid
  payloadDigest : String
  bodySha256 : Option String
  state : NativeBridgeDeliveryState
deriving DecidableEq

inductive ReceiptState where
  | claimed
  | dispatched
  | nativeAcknowledged
  | nativeRejected
  | unknown

structure Receipt where
  messageId : Uuid
  promptId : Uuid
  sessionId : Uuid
  payloadDigest : String
  state : ReceiptState

inductive BridgeResponse where
  | receipt (receipt : Receipt)
  | unknown (messageId : Uuid)
  | rejected (reason : String)

/-- The digests, the identifiers and the JSON forms that come from elsewhere. -/
structure Crates where
  parseJson : String → Except String Json
  parseUuid : String → Except String Uuid
  sha256 : String → BitVec 256
  blake3 : String → BitVec 256
  messageText : LocalCliMessage → String
  resultLink : Json → Except String ClaudeResultLink
  inputLinks : Json → Except String (List PersistedGrokInputLink)
  inputLink : Json → Except String PersistedGrokInputLink
  grokOwner : Json → Except String GrokTerminalOwner
  isSubmit : String → Bool
  bridgeBinding : Json → Except String NativeBridgeBindingSnapshot
  bridgeResponse : Json → Except String BridgeResponse
  bridgeIdentity : NativeBridgeBindingSnapshot → Uuid → String
  bridgeConfig : NativeBridgeBindingSnapshot → Uuid → String
  validatePersistedBody : String → Except String Unit

structure Crates.Lawful (crates : Crates) : Prop where
  parseUuid_toText : ∀ id : Uuid, crates.parseUuid id.toText = .ok id

end InfiniShell.LocalCli
