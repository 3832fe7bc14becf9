import InfiniShell.Collections.BTreeMap
import InfiniShell.Effects.Program
import Mathlib.Data.Finset.Sort
import Mathlib.Data.String.Basic

namespace InfiniShell.RuntimeHost

open Collections

abbrev Uuid := BitVec 128

instance Uuid.lawfulBEq : LawfulBEq Uuid := inferInstance

/-- The hyphenated lower-case form. -/
def Uuid.toText (id : Uuid) : String :=
  let digits := (List.range 32).map fun i => Nat.digitChar ((id.toNat / 16 ^ (31 - i)) % 16)
  String.intercalate "-" [String.ofList (digits.take 8), String.ofList ((digits.drop 8).take 4),
    String.ofList ((digits.drop 12).take 4), String.ofList ((digits.drop 16).take 4), String.ofList (digits.drop 20)]

abbrev Bytes := List UInt8

/-- A JSON value that the host only passes along, by its compact text. -/
structure Value where
  text : String
deriving DecidableEq

/-- A path need not be valid Unicode, and then it has no JSON form. -/
structure PathBuf where
  bytes : Bytes
deriving DecidableEq

inductive InputContent where
  | text (text : String)
  | localImage (path : PathBuf)
  | skill (name : String) (path : PathBuf)
deriving DecidableEq

inductive ApprovalDecision where
  | allowOnce
  | denyOnce
deriving DecidableEq

inductive RuntimeAction where
  | submit (input : List InputContent)
  | steer (expectedTurnId : String) (input : List InputContent)
  | interrupt (turnId : String)
  | respondApproval (approvalId : String) (decision : ApprovalDecision)
  | respondLocalTool (turnId callId : String) (result : Value ⊕ String)
  | shutdown
deriving DecidableEq

structure RuntimeCommand where
  generation : Uuid
  messageId : Uuid
  action : RuntimeAction
deriving DecidableEq

inductive TurnOutcome where
  | completed
  | cancelled
  | failed (message : String)
deriving DecidableEq

inductive LocalToolReplyTarget where
  | codex (requestId : Value)
  | claude (requestId : String) (mcpId : Value)
  | grok (requestId mcpId : Value)
deriving DecidableEq

structure NativeLocalToolRequest where
  replyTarget : LocalToolReplyTarget
  callId : String
  turnId : String
  tool : String
  arguments : Value
deriving DecidableEq

inductive RuntimeEventKind where
  | sessionReady (verifiedCliVersion : Option String) (effectivePermissions : Value)
  | messageAccepted (messageId : Uuid) (turnId : Option String)
  | commandDispatched (messageId : Uuid) (turnId : Option String)
  | turnStarted (turnId : String)
  | inputJoined (messageId : Uuid) (turnId : String)
  | textDelta (turnId itemId text : String)
  | progress (turnId message : String)
  | approvalRequested (approvalId turnId method : String) (details : Value)
  | approvalResolved (approvalId : String) (decision : ApprovalDecision)
  | approvalCancelled (approvalId : String)
  | localToolCancelled (turnId callId : String)
  | localToolRequested (request : NativeLocalToolRequest)
  | turnFinished (turnId : String) (outcome : TurnOutcome) (output : String)
  | requestFailed (messageId : Uuid) (message : String)
  | disconnected (reason : String)
deriving DecidableEq

structure RuntimeEvent where
  generation : Uuid
  nativeSessionId : Option String
  kind : RuntimeEventKind
deriving DecidableEq

structure HostedEvent where
  sequence : Nat
  digest : String
  event : RuntimeEvent
deriving DecidableEq

structure HostedApproval where
  turnId : String
  method : String
  details : Value

structure RuntimeHostSnapshot where
  ready : Bool
  connected : Bool
  nativeSessionId : Option String
  activeTurnId : Option String
  approvals : BTreeMap String HostedApproval
  localTools : BTreeMap String NativeLocalToolRequest
  acceptedTurnIds : Finset String
  finishedTurnIds : Finset String
  output : String
  lastError : Option String

namespace RuntimeHostSnapshot

def default : RuntimeHostSnapshot where
  ready := false
  connected := false
  nativeSessionId := none
  activeTurnId := none
  approvals := BTreeMap.empty
  localTools := BTreeMap.empty
  acceptedTurnIds := ∅
  finishedTurnIds := ∅
  output := ""
  lastError := none

def applyKind (s : RuntimeHostSnapshot) : RuntimeEventKind → RuntimeHostSnapshot
  | .sessionReady _ _ => { s with ready := true, connected := true }
  | .approvalRequested approvalId turnId method details =>
    { s with approvals := s.approvals.insert approvalId ⟨turnId, method, details⟩ }
  | .approvalResolved approvalId _ => { s with approvals := s.approvals.remove approvalId }
  | .approvalCancelled approvalId => { s with approvals := s.approvals.remove approvalId }
  | .localToolRequested request => { s with localTools := s.localTools.insert request.callId request }
  | .localToolCancelled _ callId => { s with localTools := s.localTools.remove callId }
  | .messageAccepted _ (some turnId) => { s with acceptedTurnIds := insert turnId s.acceptedTurnIds }
  | .turnStarted turnId =>
    { s with acceptedTurnIds := s.acceptedTurnIds.erase turnId, activeTurnId := some turnId }
  | .inputJoined messageId _ => { s with acceptedTurnIds := s.acceptedTurnIds.erase (Uuid.toText messageId) }
  | .textDelta _ _ text => { s with output := s.output ++ text }
  | .turnFinished turnId outcome output =>
    { s with
      activeTurnId := if s.activeTurnId = some turnId then none else s.activeTurnId
      output := output
      approvals := BTreeMap.empty
      localTools := BTreeMap.empty
      acceptedTurnIds := s.acceptedTurnIds.erase turnId
      finishedTurnIds := insert turnId s.finishedTurnIds
      lastError := match outcome with
        | .failed message => some message
        | .completed | .cancelled => none }
  | .requestFailed messageId message =>
    { s with
      acceptedTurnIds := s.acceptedTurnIds.erase (Uuid.toText messageId)
      lastError := some message }
  | .disconnected reason =>
    { s with
      connected := false
      ready := false
      approvals := BTreeMap.empty
      localTools := BTreeMap.empty
      lastError := some reason }
  | .messageAccepted _ none | .commandDispatched _ _ | .progress _ _ => s

def apply (s : RuntimeHostSnapshot) (event : RuntimeEvent) : RuntimeHostSnapshot :=
  (if event.nativeSessionId.isSome then { s with nativeSessionId := event.nativeSessionId } else s).applyKind event.kind

/-- What the events up to `acknowledged` add up to. -/
def through (acknowledged : Nat) (events : List HostedEvent) : RuntimeHostSnapshot :=
  (events.takeWhile fun event => event.sequence ≤ acknowledged).foldl (fun s event => s.apply event.event) default

end RuntimeHostSnapshot

open Effects Effects.Program

def maxJournalBytes : Nat := 64 * 1024 * 1024
def maxJournalRecordBytes : Nat := maxJournalBytes
def maxJournalEvents : Nat := 16384
def maxPullEvents : Nat := 256
def maxIpcJsonBytes : Nat := maxJournalBytes
def hostManifestVersion : Nat := 2
def commandNotDeliveredCode : String := "runtime_host.command_not_delivered"

def maxU64 : Nat := 2 ^ 64 - 1

def checkedAdd (a b : Nat) : Option Nat := if a + b ≤ maxU64 then some (a + b) else none

variable {a b c : Nat}

theorem checkedAdd_eq_some : checkedAdd a b = some c ↔ a + b ≤ maxU64 ∧ c = a + b := by
  by_cases h : a + b ≤ maxU64
  · simp [checkedAdd, h, eq_comm]
  · simp [checkedAdd, h]

theorem checkedAdd_eq_none : checkedAdd a b = none ↔ maxU64 < a + b := by
  by_cases h : a + b ≤ maxU64
  · simp [checkedAdd, h]
  · simpa [checkedAdd, h] using Nat.lt_of_not_le h

/-- `checked_add` with the error that stands for an overflow. -/
def addOr {E : Type} (a b : Nat) (e : E) : Except E Nat := (checkedAdd a b).elim (.error e) .ok

variable {E : Type}

theorem addOr_eq_ok {e : E} : addOr a b e = .ok c ↔ a + b ≤ maxU64 ∧ c = a + b := by
  rw [← checkedAdd_eq_some, addOr]
  cases checkedAdd a b with
  | none => simp
  | some d => simp

theorem addOr_eq_error {e e' : E} : addOr a b e = .error e' ↔ maxU64 < a + b ∧ e = e' := by
  rw [← checkedAdd_eq_none, addOr]
  cases checkedAdd a b with
  | none => simp
  | some d => simp

def saturatingAdd (a b : Nat) : Nat := min (a + b) maxU64

def newline : UInt8 := 10

inductive HostCommandDisposition where
  | recorded
  | deliveredToAdapter
  | nativeAccepted
  | failed
deriving DecidableEq

structure HostCommandStatus where
  messageId : Uuid
  digest : String
  disposition : HostCommandDisposition
  turnId : Option String
deriving DecidableEq

inductive JournalPayload where
  | ownerClaimed (ownerEpoch : Nat) (clientId : Uuid)
  | commandRecorded (status : HostCommandStatus)
  | commandUpdated (status : HostCommandStatus)
  | event (event : HostedEvent)
  | eventsAcknowledged (ownerEpoch throughSequence : Nat)
deriving DecidableEq

structure JournalRecord where
  sequence : Nat
  previousSha256 : String
  payload : JournalPayload
deriving DecidableEq

/-- The JSON texts of what the host writes and digests, and the digest. A command that
names a path outside Unicode has no text. -/
structure Codec where
  encodeRecord : JournalRecord → Bytes
  decodeRecord : Bytes → Option JournalRecord
  encodeEvent : RuntimeEvent → Bytes
  encodeCommand : RuntimeCommand → Option Bytes
  sha256 : Bytes → String

/-- A record reads back as it was written, its text is one line and is never empty, and no
two texts have one digest. -/
structure Codec.Lawful (codec : Codec) : Prop where
  decode_encode : ∀ record, codec.decodeRecord (codec.encodeRecord record) = some record
  noNewline : ∀ record, newline ∉ codec.encodeRecord record
  nonempty : ∀ record, codec.encodeRecord record ≠ []
  sha256_injective : Function.Injective codec.sha256

structure RuntimeHostManifest where
  taskId : String
  runtimeGeneration : Uuid
  hostInstanceId : Uuid
  token : Uuid
deriving DecidableEq

structure RuntimeHostState where
  manifest : RuntimeHostManifest
  ownerEpoch : Nat
  owner : Option Uuid
  acknowledgedSequence : Nat
  nextJournalSequence : Nat
  journalBytes : Nat
  journalSha256 : String
  journal : Bytes
  journalSealed : Bool
  events : List HostedEvent
  commands : Uuid → Option HostCommandStatus
  snapshot : RuntimeHostSnapshot

/-- What a claim, a record and a hand-over to the adapter did, with the epoch and the
client of the request that did it. -/
inductive Effect where
  | ownerClaimed (observedEpoch ownerEpoch : Nat) (clientId : Uuid)
  | commandRecorded (ownerEpoch : Nat) (clientId : Uuid) (command : RuntimeCommand) (digest : String)
  | delivered (ownerEpoch : Nat) (clientId : Uuid) (command : RuntimeCommand)
deriving DecidableEq

/-- The bytes of record and newline that were written; it may be the sync that failed. -/
abbrev WriteFault := Option Nat

/-- The host, the faults of its coming writes, and the history of what it did. Writes beyond
the list succeed. -/
structure Host where
  state : RuntimeHostState
  faults : List WriteFault
  trace : List Effect

namespace RuntimeHostState

def new (manifest : RuntimeHostManifest) (manifestSha256 : String) : RuntimeHostState where
  manifest := manifest
  ownerEpoch := 0
  owner := none
  acknowledgedSequence := 0
  nextJournalSequence := 1
  journalBytes := 0
  journalSha256 := manifestSha256
  journal := []
  journalSealed := false
  events := []
  commands := fun _ => none
  snapshot := .default

def authenticate (s : RuntimeHostState) (token : Uuid) (taskId : String) (generation : Uuid) : Bool :=
  token = s.manifest.token && taskId = s.manifest.taskId && generation = s.manifest.runtimeGeneration

def owns (s : RuntimeHostState) (ownerEpoch : Nat) (clientId : Uuid) : Bool :=
  s.ownerEpoch = ownerEpoch && s.owner = some clientId

def lastEventSequence (s : RuntimeHostState) : Nat := (s.events.getLast?.map HostedEvent.sequence).getD 0

def acknowledgedSnapshot (s : RuntimeHostState) : RuntimeHostSnapshot :=
  .through s.acknowledgedSequence s.events

end RuntimeHostState

namespace Host

def update (f : RuntimeHostState → RuntimeHostState) (host : Host) : Host := { host with state := f host.state }

def note (effect : Effect) (host : Host) : Host := { host with trace := host.trace ++ [effect] }

end Host

/-- `json_wire::to_vec`. -/
def toVec (bytes : Bytes) : Except String Bytes :=
  if bytes.length ≤ maxIpcJsonBytes then .ok bytes else .error "runtime_host.ipc_json_payload_too_large"

/-- The record, its newline and the sync. -/
def writeLine (bytes : Bytes) : Program Host String Unit := fun host =>
  let write (written : Bytes) (faults : List WriteFault) : Host :=
    { host with state := { host.state with journal := host.state.journal ++ written }, faults := faults }
  match host.faults with
  | [] => (.ok (), write (bytes ++ [newline]) [])
  | none :: faults => (.ok (), write (bytes ++ [newline]) faults)
  | some written :: faults => (.error "I/O error", write ((bytes ++ [newline]).take written) faults)

section Codec

variable (codec : Codec)

def append (payload : JournalPayload) : Program Host String Unit := do
  let state ← Program.read Host.state
  ensure (state.journalSealed = false) "运行时宿主账本已封存"
  let bytes ← ofResult (toVec (codec.encodeRecord ⟨state.nextJournalSequence, state.journalSha256, payload⟩))
  ensure (bytes.length ≤ maxJournalRecordBytes ∧ saturatingAdd state.journalBytes (bytes.length + 1) ≤ maxJournalBytes)
    "运行时宿主账本超过安全上限"
  writeLine bytes
  let next ← ofResult (addOr state.nextJournalSequence 1 "运行时宿主账本序号耗尽")
  modify (Host.update fun s => { s with
    nextJournalSequence := next
    journalBytes := s.journalBytes + (bytes.length + 1)
    journalSha256 := codec.sha256 bytes })

def updateCommand (messageId : Uuid) (disposition : HostCommandDisposition) (turnId : Option String) :
    Program Host String Unit := do
  let state ← Program.read Host.state
  match state.commands messageId with
  | none => pure ()
  | some status =>
    let status := { status with disposition := disposition, turnId := turnId }
    append codec (.commandUpdated status)
    modify (Host.update fun s => { s with commands := Function.update s.commands messageId (some status) })

/-- The event is pulled from now on, whatever becomes of the command that it is about. -/
def pushEvent (hosted : HostedEvent) (s : RuntimeHostState) : RuntimeHostState :=
  { s with snapshot := s.snapshot.apply hosted.event, events := s.events ++ [hosted] }

def recordEvent (event : RuntimeEvent) : Program Host String Unit := do
  let state ← Program.read Host.state
  let sequence := (state.events.getLast?.map fun event => saturatingAdd event.sequence 1).getD 1
  ensure (sequence ≤ maxJournalEvents) "运行时宿主事件数量超过安全上限"
  let encoded ← ofResult (toVec (codec.encodeEvent event))
  let hosted : HostedEvent := ⟨sequence, codec.sha256 encoded, event⟩
  append codec (.event hosted)
  modify (Host.update (pushEvent hosted))
  match event.kind with
  | .messageAccepted messageId turnId => updateCommand codec messageId .nativeAccepted turnId
  | .requestFailed messageId _ => updateCommand codec messageId .failed none
  | _ => pure ()

end Codec

end InfiniShell.RuntimeHost
