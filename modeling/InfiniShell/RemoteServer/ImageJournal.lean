import InfiniShell.RuntimeHost.Journal

namespace InfiniShell.RemoteServer.ImageJournal

open Collections Effects Effects.Program
open RuntimeHost (Uuid Bytes)

def recordLimit : Nat := 16 * 1024

abbrev Subject := Vector UInt8 32

structure StagingScope where
  hostId : String
  cliSessionId : String
  submissionId : String

structure StagingSpec where
  byteLen : Nat
  sha256 : Bytes
deriving DecidableEq

structure Intent where
  version : Nat
  host : String
  nativeSession : String
  submissionId : Uuid
  transferId : Uuid
  recoveryKey : Uuid
  byteLen : Nat
  sha256 : Bytes
deriving DecidableEq

structure Claim where
  version : Nat
  subject : Subject
  processInstance : String
deriving DecidableEq

structure QueueIntent where
  version : Nat
  submission : Uuid
  recoveryKey : Uuid
  subject : Subject
  claude : Bool
deriving DecidableEq

structure CodexQueueResult where
  submissionId : String
  status : String
  subjectSha256 : Bytes
  nativeQueueId : String

structure Disk where
  intents : AssocMap Uuid Intent
  claims : AssocMap Uuid Claim
  queues : AssocMap Uuid QueueIntent
  queueResults : AssocMap Uuid (String × String)
  releases : AssocMap Uuid Bool
  dones : AssocMap Uuid Bool

def Disk.empty : Disk := ⟨.empty, .empty, .empty, .empty, .empty, .empty⟩

/-- What the journal takes from other crates: the text of an identifier, and the size
of the JSON text of a record. -/
structure JournalCrates where
  parseUuid : String → Option Uuid
  uuidText : Uuid → String
  intentSize : Intent → Nat
  claimSize : Claim → Nat
  queueSize : QueueIntent → Nat
  resultSize : String × String → Nat
  markSize : Bool → Nat

namespace JournalCrates

variable (crates : JournalCrates)

def intentKind : RecordKind Disk Uuid Intent where
  records := Disk.intents
  put id record d := { d with intents := d.intents.insert id record }
  size := crates.intentSize
  limit := recordLimit
  reread := id

def claimKind : RecordKind Disk Uuid Claim where
  records := Disk.claims
  put id record d := { d with claims := d.claims.insert id record }
  size := crates.claimSize
  limit := recordLimit
  reread := id

def queueKind : RecordKind Disk Uuid QueueIntent where
  records := Disk.queues
  put id record d := { d with queues := d.queues.insert id record }
  size := crates.queueSize
  limit := recordLimit
  reread := id

def queueResultKind : RecordKind Disk Uuid (String × String) where
  records := Disk.queueResults
  put id record d := { d with queueResults := d.queueResults.insert id record }
  size := crates.resultSize
  limit := recordLimit
  reread := id

def releaseKind : RecordKind Disk Uuid Bool where
  records := Disk.releases
  put id record d := { d with releases := d.releases.insert id record }
  size := crates.markSize
  limit := recordLimit
  reread := id

def doneKind : RecordKind Disk Uuid Bool where
  records := Disk.dones
  put id record d := { d with dones := d.dones.insert id record }
  size := crates.markSize
  limit := recordLimit
  reread := id

end JournalCrates

abbrev Stored (A : Type) := Effects.Stored Disk A

/-- The lock is taken; the directory and the lock file are still private. -/
def acquire : Stored Unit := do
  fileCall
  fileCall
  fileCall

def write {T : Type} [DecidableEq T] (kind : RecordKind Disk Uuid T) (id : Uuid) (value : T) : Stored Unit := do
  match ← readRecord kind id with
  | some previous => require (previous = value)
  | none => writeRecord kind id value

def Intent.isValid (intent : Intent) (id : Uuid) : Bool :=
  intent.version = 1 ∧ intent.transferId = id ∧ intent.recoveryKey ≠ 0 ∧ intent.submissionId ≠ 0 ∧
    intent.byteLen ≠ 0 ∧ intent.sha256.length = 32

/-- An image to ask the server about: whether it is to be released, and whether the
recovery holds the lease of its submission. -/
structure RecoveryWork where
  intent : Intent
  release : Bool
  leased : Bool

namespace Journal

variable (crates : JournalCrates)

def intentsFrom : List Uuid → Stored (List Intent)
  | [] => do
    fileCall
    return []
  | id :: rest => do
    fileCall
    let intent ← orInvalid (← readRecord crates.intentKind id)
    require (intent.isValid id = true)
    return intent :: (← intentsFrom rest)

def intents : Stored (List Intent) := do
  fileCall
  intentsFrom crates (← onDisk fun d => d.intents.entries.map Prod.fst)

def persistIntent (intent : Intent) : Stored Unit := do
  acquire
  write crates.intentKind intent.transferId intent

def knownTerminal (result : Option (String × String)) : Bool :=
  result.any fun terminal => terminal.1 = "confirmed" ∨ terminal.1 = "rejected"

def checkIntent (scope : StagingScope) (subject : Subject) (submission : Uuid) (intent : Intent) : Stored Unit := do
  if intent.host ≠ scope.hostId ∨ intent.nativeSession ≠ scope.cliSessionId ∨ intent.submissionId = submission then
    return ()
  else
    let claim ← readRecord crates.claimKind intent.submissionId
    if claim.any (·.subject = subject) then
      let terminal ← readRecord crates.queueResultKind intent.submissionId
      let done ← readRecord crates.doneKind intent.transferId
      require (done = some true ∧ knownTerminal terminal = true)
    else
      return ()

/-- To be written before the first native write; a process that crashes after that
leaves the submission unknown. -/
def claim (scope : StagingScope) (subject : Subject) (processInstance : String) : Stored Unit := do
  acquire
  let submission ← orInvalid (crates.parseUuid scope.submissionId)
  forEach (← intents crates) (checkIntent crates scope subject submission)
  write crates.claimKind submission ⟨1, subject, processInstance⟩

def consumer (claude : Bool) : String := if claude then "claude-read" else "codex-queue"

/-- The first half of `prepare_queue`, under a lock of its own. -/
def claimForQueue (scope : StagingScope) (subject : Subject) (claude : Bool) : Stored Uuid := do
  let submission ← orInvalid (crates.parseUuid scope.submissionId)
  claim crates scope subject (consumer claude ++ ":" ++ crates.uuidText submission)
  return submission

/-- The second half of `prepare_queue`; `key` is a new random identifier. -/
def writeQueue (submission : Uuid) (subject : Subject) (claude : Bool) (key : Uuid) : Stored QueueIntent := do
  acquire
  let intent : QueueIntent := ⟨1, submission, key, subject, claude⟩
  write crates.queueKind submission intent
  return intent

def acceptableResult (intent : QueueIntent) (result : CodexQueueResult) : Bool :=
  result.submissionId = crates.uuidText intent.submission ∧ result.subjectSha256 = intent.subject.toList ∧
    result.status ∈ ["confirmed", "rejected", "unknown", "retired"] ∧
    (result.status = "retired" → intent.claude = true ∧ result.nativeQueueId = "") ∧
    (result.status = "confirmed" → result.nativeQueueId ≠ "")

/-- Retirement lets the images go, but proves neither delivery nor its absence. -/
def recordQueueResult (intent : QueueIntent) (result : CodexQueueResult) : Stored Bool := do
  require (acceptableResult crates intent result = true)
  if result.status = "unknown" then
    return false
  else
    acquire
    write crates.queueResultKind intent.submission (result.status, result.nativeQueueId)
    write crates.releaseKind intent.submission true
    return decide (result.status = "confirmed")

def releaseIntent (host nativeSession processInstance : String) (intent : Intent) : Stored Unit := do
  if intent.host ≠ host ∨ intent.nativeSession ≠ nativeSession then
    return ()
  else
    let claim ← readRecord crates.claimKind intent.submissionId
    if claim.any (fun claim => claim.version = 1 ∧ claim.processInstance = processInstance) then
      write crates.releaseKind intent.submissionId true
    else
      return ()

def requestRelease (host nativeSession processInstance : String) : Stored Unit := do
  acquire
  forEach (← intents crates) (releaseIntent crates host nativeSession processInstance)

/-- The lease file is opened; `busy` says whether another holds its lock. -/
def tryLease (busy : Bool) : Stored Bool := do
  fileCall
  fileCall
  return !busy

/-- A recovery for Claude looks only at the Claude submissions of its own session. -/
def isSelected (scope : StagingScope) (claudeOnly : Bool) (intent : Intent) : Stored Bool := do
  if !claudeOnly then
    return true
  else if intent.nativeSession ≠ scope.cliSessionId then
    return false
  else
    let queue ← readRecord crates.queueKind intent.submissionId
    return queue.any (·.claude)

/-- One image in the directory. `leases` are the submissions leased so far, and
`busy` those that others have leased. -/
def workOf (scope : StagingScope) (claudeOnly : Bool) (busy : Uuid → Bool) (leases : List Uuid) (intent : Intent) :
    Stored (Option RecoveryWork) := do
  if intent.host ≠ scope.hostId then
    return none
  else
    let done ← readRecord crates.doneKind intent.transferId
    if done.isSome then
      return none
    else
      let selected ← isSelected crates scope claudeOnly intent
      if !selected then
        return none
      else
        let claim ← readRecord crates.claimKind intent.submissionId
        let release ← readRecord crates.releaseKind intent.submissionId
        let explicitRelease := decide (release = some true)
        if claim.isNone && !explicitRelease then
          if intent.submissionId ∈ leases then
            return some ⟨intent, true, true⟩
          else
            let acquired ← tryLease (busy intent.submissionId)
            return if acquired then some ⟨intent, true, true⟩ else none
        else
          return some ⟨intent, claim.isNone || explicitRelease, false⟩

def workFrom (scope : StagingScope) (claudeOnly : Bool) (busy : Uuid → Bool) :
    List Uuid → List Intent → Stored (List RecoveryWork)
  | _, [] => return []
  | leases, intent :: rest => do
    match ← workOf crates scope claudeOnly busy leases intent with
    | none => workFrom scope claudeOnly busy leases rest
    | some work =>
      let leases := if work.leased then intent.submissionId :: leases else leases
      return work :: (← workFrom scope claudeOnly busy leases rest)

def recoveryWork (scope : StagingScope) (claudeOnly : Bool) (busy : Uuid → Bool) : Stored (List RecoveryWork) := do
  acquire
  workFrom crates scope claudeOnly busy [] (← intents crates)

def markDone (transfer : Uuid) : Stored Unit := do
  acquire
  write crates.doneKind transfer true

end Journal

end InfiniShell.RemoteServer.ImageJournal
