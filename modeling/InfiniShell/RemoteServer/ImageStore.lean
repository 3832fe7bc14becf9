import InfiniShell.RuntimeHost.Journal

namespace InfiniShell.RemoteServer

open Collections Effects Effects.Program
open RuntimeHost (Uuid Bytes)

abbrev Digest := BitVec 256

abbrev Identity := Nat × Nat

def recordLimit : Nat := 256 * 1024

structure Reference where
  version : Nat
  host : String
  nativeSession : String
  transferId : Uuid
  keyHash : Digest
  directory : String
  directoryIdentity : Identity
  filename : String
  fileIdentity : Identity
  byteLen : Nat
  sha256 : Digest
deriving DecidableEq

structure Release where
  version : Nat
  keyHash : Digest
deriving DecidableEq

structure TmuxImageRecovery where
  version : Nat
  launchId : Uuid
  launchKeySha256 : String
  agent : Int
  originalHost : String
  originalTerminalSession : Nat
deriving DecidableEq

/-- `V` stands for the JSON values of the native history. -/
structure QueueClaim (V : Type) where
  version : Nat
  host : String
  nativeSession : String
  submission : Uuid
  keyHash : Digest
  subject : Digest
  nativeRequestSha256 : Digest
  references : List (Uuid × Uuid)
  claudeRecovery : Option V
  tmuxRecovery : Option TmuxImageRecovery
deriving DecidableEq

structure PreflightRejection where
  version : Nat
  host : String
  nativeSession : String
  submission : Uuid
  keyHash : Digest
  subject : Digest
  references : List (Uuid × Uuid)
deriving DecidableEq

structure QueueResult (V : Type) where
  claim : QueueClaim V
  status : String
  nativeQueueId : String
  nativeAckSha256 : Option Digest
deriving DecidableEq

/-- An image file or a directory of images. -/
structure Entry where
  identity : Identity
  isPrivate : Bool

structure ImageFile extends Entry where
  bytes : Bytes

abbrev FilePath := String × String

structure Disk (V : Type) where
  references : AssocMap Uuid Reference
  releases : AssocMap Uuid Release
  claims : AssocMap Uuid (QueueClaim V)
  rejections : AssocMap Uuid PreflightRejection
  results : AssocMap Uuid (QueueResult V)
  directories : AssocMap String Entry
  files : AssocMap FilePath ImageFile

abbrev Stored (V A : Type) := Effects.Stored (Disk V) A

/-- What the store takes from other crates: the digest, the size of the JSON text
of a record, and the JSON values that are `null`. -/
structure ImageCrates (V : Type) where
  sha256 : Bytes → Digest
  isNull : V → Bool
  referenceSize : Reference → Nat
  releaseSize : Release → Nat
  claimSize : QueueClaim V → Nat
  rejectionSize : PreflightRejection → Nat
  resultSize : QueueResult V → Nat

variable {V : Type}

/-- An optional value that is `null` is read back as no value. -/
def QueueClaim.reread (crates : ImageCrates V) (claim : QueueClaim V) : QueueClaim V :=
  { claim with claudeRecovery := claim.claudeRecovery.filter (!crates.isNull ·) }

def QueueResult.reread (crates : ImageCrates V) (result : QueueResult V) : QueueResult V :=
  { result with claim := result.claim.reread crates }

/-- The records of one kind: `reference-*.json` and so on. -/
abbrev RecordKind (V T : Type) := Effects.RecordKind (Disk V) Uuid T

namespace ImageCrates

variable (crates : ImageCrates V)

def referenceKind : RecordKind V Reference where
  records := Disk.references
  put id record d := { d with references := d.references.insert id record }
  size := crates.referenceSize
  limit := recordLimit
  reread := id

def releaseKind : RecordKind V Release where
  records := Disk.releases
  put id record d := { d with releases := d.releases.insert id record }
  size := crates.releaseSize
  limit := recordLimit
  reread := id

def claimKind : RecordKind V (QueueClaim V) where
  records := Disk.claims
  put id record d := { d with claims := d.claims.insert id record }
  size := crates.claimSize
  limit := recordLimit
  reread := QueueClaim.reread crates

def rejectionKind : RecordKind V PreflightRejection where
  records := Disk.rejections
  put id record d := { d with rejections := d.rejections.insert id record }
  size := crates.rejectionSize
  limit := recordLimit
  reread := id

def resultKind : RecordKind V (QueueResult V) where
  records := Disk.results
  put id record d := { d with results := d.results.insert id record }
  size := crates.resultSize
  limit := recordLimit
  reread := QueueResult.reread crates

end ImageCrates

def privateEntry (entry : Option Entry) : Stored V Entry :=
  match entry with
  | none => throw .notFound
  | some entry => do
    require (entry.isPrivate = true)
    return entry

def directoryMetadata (directory : String) : Stored V Entry := do
  fileCall
  privateEntry (← onDisk fun d => d.directories.get directory)

def fileMetadata (path : FilePath) : Stored V Entry := do
  fileCall
  privateEntry (← onDisk fun d => (d.files.get path).map ImageFile.toEntry)

def acquire : Stored V Unit := do
  fileCall
  fileCall
  fileCall
  fileCall
  fileCall

def uuidBytes (id : Uuid) : Bytes := (List.range 16).map fun i => UInt8.ofNat (id.toNat / 256 ^ (15 - i))

def keyHash (crates : ImageCrates V) (key : Uuid) : Except IoError Digest :=
  if key = 0 then .error .other else .ok (crates.sha256 (uuidBytes key))

def hasDoubleDot : List Char → Bool
  | '.' :: '.' :: _ => true
  | _ :: rest => hasDoubleDot rest
  | [] => false

def safeComponent (value start ending : String) : Bool :=
  start.toList.isPrefixOf value.toList && ending.toList.isSuffixOf value.toList && value.utf8ByteSize ≤ 160 &&
    value.toList.all (fun c => c.isAlphanum || c == '-' || c == '_' || c == '.') && !hasDoubleDot value.toList

def Reference.path (reference : Reference) : FilePath := (reference.directory, reference.filename)

def Reference.isValid (reference : Reference) : Bool :=
  reference.version = 1 ∧ reference.transferId ≠ 0 ∧ reference.host ≠ "" ∧ reference.nativeSession ≠ "" ∧
    reference.byteLen ≠ 0 ∧ safeComponent reference.directory "cli-image-unpublished-" "" = true ∧
    safeComponent reference.filename "attachment-" ".png" = true

def validateReference (reference : Reference) : Stored V Unit := require (reference.isValid = true)

def requireOwner (reference : Reference) (host nativeSession : String) (key : Digest) : Stored V Unit := do
  validateReference reference
  require (reference.host = host ∧ reference.nativeSession = nativeSession ∧ reference.keyHash = key)

def openReferenceFile (crates : ImageCrates V) (reference : Reference) : Stored V ImageFile := do
  let directory ← directoryMetadata reference.directory
  require (directory.identity = reference.directoryIdentity)
  let entry ← fileMetadata reference.path
  require (entry.identity = reference.fileIdentity)
  fileCall
  match ← onDisk fun d => d.files.get reference.path with
  | none => throw .notFound
  | some file => do
    fileCall
    require (file.identity = reference.fileIdentity ∧ file.bytes.length = reference.byteLen)
    fileCall
    let bounded := file.bytes.take (reference.byteLen + 1)
    require (bounded.length = reference.byteLen ∧ crates.sha256 bounded = reference.sha256)
    return file

def removeReferenceFile (crates : ImageCrates V) (reference : Reference) : Stored V Nat := do
  match ← attempt (openReferenceFile crates reference) with
  | .ok file => do
    let directory ← directoryMetadata reference.directory
    require (directory.identity = reference.directoryIdentity)
    let entry ← fileMetadata reference.path
    fileCall
    require (entry.identity = file.identity)
    fileCall
    changeDisk fun d => { d with files := d.files.erase reference.path }
    fileCall
    fileCall
    return reference.byteLen
  | .error .notFound => return 0
  | .error error => throw error

namespace ReferenceStore

variable (crates : ImageCrates V)

def releaseRecord (id : Uuid) : Stored V (Option Release) := do
  let release ← readRecord crates.releaseKind id
  require (release.all (·.version = 1) = true)
  return release

def persist (reference : Reference) : Stored V Unit := do
  acquire
  validateReference reference
  require ((← releaseRecord crates reference.transferId).isNone = true)
  match ← readRecord crates.referenceKind reference.transferId with
  | some previous => require (previous = reference)
  | none => writeRecord crates.referenceKind reference.transferId reference

def identifierAvailable (id : Uuid) : Stored V Bool := do
  acquire
  let reference ← readRecord crates.referenceKind id
  if reference.isNone then
    let release ← releaseRecord crates id
    return release.isNone
  else
    return false

def retainedFrom (bytes : Nat) : List Uuid → Stored V Nat
  | [] => return bytes
  | id :: rest => do
    fileCall
    let reference ← orInvalid (← readRecord crates.referenceKind id)
    validateReference reference
    require (reference.transferId = id)
    match ← releaseRecord crates id with
    | some release => do
      require (release.keyHash = reference.keyHash)
      let _ ← removeReferenceFile crates reference
      retainedFrom bytes rest
    | none => do
      require (bytes + reference.byteLen < 2 ^ 64)
      retainedFrom (bytes + reference.byteLen) rest

def retainedBytes : Stored V Nat := do
  acquire
  fileCall
  let names ← onDisk fun d => d.references.entries.map Prod.fst
  retainedFrom crates 0 names

def recover (host nativeSession : String) (id key : Uuid) : Stored V (Option Reference × Bool) := do
  acquire
  let hash ← ofResult (keyHash crates key)
  match ← releaseRecord crates id with
  | some release => do
    require (release.keyHash = hash)
    match ← readRecord crates.referenceKind id with
    | some reference => do
      requireOwner reference host nativeSession hash
      let _ ← removeReferenceFile crates reference
      return (none, true)
    | none => return (none, true)
  | none => do
    match ← readRecord crates.referenceKind id with
    | none => return (none, false)
    | some reference => do
      requireOwner reference host nativeSession hash
      let _ ← openReferenceFile crates reference
      return (some reference, false)

def requireOwnerIfPublished (reference : Option Reference) (host nativeSession : String) (key : Digest) :
    Stored V Unit :=
  match reference with
  | some reference => requireOwner reference host nativeSession key
  | none => return ()

def putRelease (id : Uuid) (release : Release) : Stored V Unit := do
  match ← releaseRecord crates id with
  | some previous => require (previous = release)
  | none => writeRecord crates.releaseKind id release

def release (host nativeSession : String) (id key : Uuid) : Stored V Nat := do
  acquire
  let hash ← ofResult (keyHash crates key)
  let reference ← readRecord crates.referenceKind id
  requireOwnerIfPublished reference host nativeSession hash
  putRelease crates id ⟨1, hash⟩
  match reference with
  | some reference => removeReferenceFile crates reference
  | none => return 0

def checkReference (host nativeSession : String) (reference : Uuid × Uuid) : Stored V Unit := do
  let stored ← orInvalid (← readRecord crates.referenceKind reference.1)
  requireOwner stored host nativeSession (← ofResult (keyHash crates reference.2))
  require ((← releaseRecord crates reference.1).isNone = true)
  let _ ← openReferenceFile crates stored
  return ()

def rejectPreflight (rejection : PreflightRejection) : Stored V Unit := do
  acquire
  require (rejection.version = 1 ∧ rejection.host ≠ "" ∧ rejection.nativeSession ≠ "" ∧ rejection.submission ≠ 0 ∧
    rejection.references ≠ [] ∧ rejection.references.length ≤ 20)
  require ((← readRecord crates.claimKind rejection.submission).isNone = true)
  match ← readRecord crates.rejectionKind rejection.submission with
  | some previous => require (previous = rejection)
  | none => do
    forEach rejection.references (checkReference crates rejection.host rejection.nativeSession)
    writeRecord crates.rejectionKind rejection.submission rejection

def claimQueue (claim : QueueClaim V) : Stored V Unit := do
  acquire
  require (claim.version = 1 ∧ claim.references ≠ [] ∧ claim.references.length ≤ 20 ∧ claim.submission ≠ 0)
  require ((← readRecord crates.claimKind claim.submission).isNone = true)
  require ((← readRecord crates.rejectionKind claim.submission).isNone = true)
  forEach claim.references (checkReference crates claim.host claim.nativeSession)
  writeRecord crates.claimKind claim.submission claim

def finalStatuses : List String := ["confirmed", "rejected", "retired"]

variable [DecidableEq V]

def finishQueue (result : QueueResult V) : Stored V Unit := do
  acquire
  let claim ← orInvalid (← readRecord crates.claimKind result.claim.submission)
  require (claim = result.claim)
  require (result.status ∈ finalStatuses)
  require (result.status = "confirmed" → result.nativeQueueId ≠ "")
  require (result.status = "retired" →
    claim.claudeRecovery.isSome = true ∧ result.nativeQueueId = "" ∧ result.nativeAckSha256 = none)
  match ← readRecord crates.resultKind claim.submission with
  | some previous => require (previous = result)
  | none => writeRecord crates.resultKind claim.submission result

def queueStatus (host nativeSession : String) (submission key : Uuid) : Stored V (Option (QueueResult V)) := do
  acquire
  match ← readRecord crates.claimKind submission with
  | none => return none
  | some claim => do
    require (claim.version = 1 ∧ claim.host = host ∧ claim.nativeSession = nativeSession ∧
      claim.submission = submission)
    require (claim.keyHash = (← ofResult (keyHash crates key)))
    match ← readRecord crates.resultKind submission with
    | some result => do
      require (result.claim = claim ∧ result.status ∈ finalStatuses)
      return some result
    | none => return some ⟨claim, "unknown", "", none⟩

def repeatsTransfer : List (Uuid × Uuid) → Bool
  | [] => false
  | reference :: rest => rest.any (·.1 = reference.1) || repeatsTransfer rest

def readRecoveryClaim (nativeSession : String) (submission : Uuid) : Stored V (Option (QueueClaim V)) := do
  let claim ← readRecord crates.claimKind submission
  match claim with
  | none => return none
  | some claim => do
    require (claim.version = 1 ∧ submission ≠ 0 ∧ claim.submission = submission ∧ claim.host ≠ "" ∧
      nativeSession ≠ "" ∧ claim.nativeSession = nativeSession ∧ claim.references ≠ [] ∧
      claim.references.length ≤ 20 ∧ claim.references.all (fun reference => reference.1 ≠ 0 ∧ reference.2 ≠ 0) = true)
    require (repeatsTransfer claim.references = false)
    return some claim

def queueRecoveryClaim (nativeSession : String) (submission key : Uuid) : Stored V (Option (QueueClaim V)) := do
  acquire
  match ← readRecoveryClaim crates nativeSession submission with
  | none => return none
  | some claim => do
    require (claim.keyHash = (← ofResult (keyHash crates key)))
    return some claim

def referenceRecoveryClaim (nativeSession : String) (submission transfer key : Uuid) :
    Stored V (Option (QueueClaim V)) := do
  acquire
  match ← readRecoveryClaim crates nativeSession submission with
  | none => return none
  | some claim => do
    require ((transfer, key) ∈ claim.references)
    let reference ← orInvalid (← readRecord crates.referenceKind transfer)
    requireOwner reference claim.host nativeSession (← ofResult (keyHash crates key))
    return some claim

end ReferenceStore

end InfiniShell.RemoteServer
