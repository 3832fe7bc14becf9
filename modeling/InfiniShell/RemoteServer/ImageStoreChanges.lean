import Mathlib.Logic.Relation
import InfiniShell.RemoteServer.ImageStore

namespace InfiniShell.RemoteServer

open Collections Effects Effects.Program
open RuntimeHost (Uuid Bytes)

variable {V A B : Type}

section Calls

variable {d : Disk V}

theorem reads_privateEntry {entry : Option Entry} : Reads d (privateEntry entry) fun _ => True := by
  cases entry with
  | none => exact Reads.fail
  | some entry => exact reads_require.bind fun _ _ => Reads.ret trivial

theorem reads_directoryMetadata {directory : String} : Reads d (directoryMetadata directory) fun _ => True :=
  reads_fileCall.bind fun _ _ => reads_onDisk.bind fun _ _ => reads_privateEntry

theorem reads_fileMetadata {path : FilePath} : Reads d (fileMetadata path) fun _ => True :=
  reads_fileCall.bind fun _ _ => reads_onDisk.bind fun _ _ => reads_privateEntry

theorem reads_acquire : Reads d acquire fun _ => True :=
  reads_fileCall.bind fun _ _ => reads_fileCall.bind fun _ _ => reads_fileCall.bind fun _ _ =>
    reads_fileCall.bind fun _ _ => reads_fileCall

end Calls

section References

variable {crates : ImageCrates V} {d : Disk V} {reference : Reference} {host nativeSession : String} {key : Digest}

structure Owned (reference : Reference) (host nativeSession : String) (key : Digest) : Prop where
  isValid : reference.isValid = true
  host : reference.host = host
  nativeSession : reference.nativeSession = nativeSession
  keyHash : reference.keyHash = key

theorem reads_validateReference : Reads d (validateReference reference) fun _ => reference.isValid = true :=
  reads_require

theorem reads_requireOwner :
    Reads d (requireOwner reference host nativeSession key) fun _ => Owned reference host nativeSession key :=
  reads_validateReference.bind fun _ hvalid => reads_require.of_imp fun _ howned =>
    ⟨hvalid, howned.1, howned.2.1, howned.2.2⟩

theorem reads_openReferenceFile : Reads d (openReferenceFile crates reference) fun _ => True := by
  refine reads_directoryMetadata.bind fun _ _ => reads_require.bind fun _ _ => reads_fileMetadata.bind fun _ _ => ?_
  refine reads_require.bind fun _ _ => reads_fileCall.bind fun _ _ => reads_onDisk.bind fun file _ => ?_
  cases file with
  | none => exact Reads.fail
  | some file =>
    exact reads_fileCall.bind fun _ _ => reads_require.bind fun _ _ => reads_fileCall.bind fun _ _ =>
      reads_require.bind fun _ _ => Reads.ret trivial

def MayRemove (d : Disk V) (reference : Reference) (w : Disk V) : Prop :=
  w = d ∨ w = { d with files := d.files.erase reference.path }

theorem leaves_removeReferenceFile :
    Leaves d (removeReferenceFile crates reference) (fun _ => MayRemove d reference) (MayRemove d reference) := by
  have hopen : Reads d (attempt (openReferenceFile crates reference) : Stored V _) fun _ => True := by
    refine Triple.of_imp (fun _ hs => hs) (Triple.attempt (S := fun _ s => s.disk = d) reads_openReferenceFile) ?_
      fun _ _ => id
    intro r s hs
    cases r with
    | ok file => exact hs
    | error e => exact ⟨hs, trivial⟩
  refine hopen.then (.inl rfl) fun r _ => ?_
  cases r with
  | ok file =>
    refine reads_directoryMetadata.then (.inl rfl) fun _ _ => reads_require.then (.inl rfl) fun _ _ => ?_
    refine reads_fileMetadata.then (.inl rfl) fun _ _ => reads_fileCall.then (.inl rfl) fun _ _ => ?_
    refine reads_require.then (.inl rfl) fun _ _ => reads_fileCall.then (.inl rfl) fun _ _ => ?_
    refine (leaves_changeDisk (Q := fun _ w => w = { d with files := d.files.erase reference.path }) rfl).bind ?_
    rintro _ w rfl
    refine reads_fileCall.then (.inr rfl) fun _ _ => reads_fileCall.then (.inr rfl) fun _ _ => ?_
    exact Leaves.ret (.inr rfl)
  | error e =>
    cases e with
    | notFound => exact Leaves.ret (.inl rfl)
    | alreadyExists => exact Leaves.fail (.inl rfl)
    | other => exact Leaves.fail (.inl rfl)

theorem reads_releaseRecord {id : Uuid} : Reads d (ReferenceStore.releaseRecord crates id)
    fun release => release = d.releases.get id ∧ release.all (·.version = 1) = true :=
  reads_readRecord.bind fun _ hstored => reads_require.bind fun _ hversion => Reads.ret ⟨hstored, hversion⟩

def Claimable (crates : ImageCrates V) (d : Disk V) (host nativeSession : String) (reference : Uuid × Uuid) : Prop :=
  ∃ stored key, d.references.get reference.1 = some stored ∧ keyHash crates reference.2 = .ok key ∧
    Owned stored host nativeSession key ∧ d.releases.get reference.1 = none

theorem reads_checkReference {reference : Uuid × Uuid} :
    Reads d (ReferenceStore.checkReference crates host nativeSession reference)
      fun _ => Claimable crates d host nativeSession reference := by
  refine reads_readRecord.bind fun record hrecord => reads_orInvalid.bind fun stored hstored => ?_
  refine reads_ofResult.bind fun key hkey => reads_requireOwner.bind fun _ howned => ?_
  refine reads_releaseRecord.bind fun release hrelease => reads_require.bind fun _ hnone => ?_
  refine reads_openReferenceFile.bind fun _ _ => Reads.ret ?_
  have hnew := hrelease.1.symm.trans (Option.isNone_iff_eq_none.mp hnone)
  exact ⟨stored, key, hrecord.symm.trans hstored, hkey, howned, hnew⟩

end References

inductive SubmissionStatus (V : Type) where
  | absent
  | unknown (claim : QueueClaim V)
  | final (result : QueueResult V)

def SubmissionStatus.answer : SubmissionStatus V → Option (QueueResult V)
  | absent => none
  | unknown claim => some ⟨claim, "unknown", "", none⟩
  | final result => some result

def Disk.status (d : Disk V) (submission : Uuid) : SubmissionStatus V :=
  match d.claims.get submission, d.results.get submission with
  | none, _ => .absent
  | some claim, none => .unknown claim
  | some _, some result => .final result

def OwnFile (d : Disk V) (reference : Reference) : Prop :=
  ∀ id stored, d.references.get id = some stored → stored.path = reference.path → id = reference.transferId

def Distinct (references : List (Uuid × Uuid)) : Prop := (references.map Prod.fst).Nodup

inductive DiskChange (crates : ImageCrates V) (d : Disk V) : Disk V → Prop
  | directory (name entry) (hnew : d.directories.get name = none) :
      DiskChange crates d { d with directories := d.directories.insert name entry }
  | uploaded (path file) (hnew : d.files.get path = none) :
      DiskChange crates d { d with files := d.files.insert path file }
  | published (reference : Reference) (hvalid : reference.isValid = true) (hfile : OwnFile d reference)
      (hunreleased : d.releases.get reference.transferId = none)
      (hnew : d.references.get reference.transferId = none) :
      DiskChange crates d { d with references := d.references.insert reference.transferId reference }
  | released (id key) (hnew : d.releases.get id = none) :
      DiskChange crates d { d with releases := d.releases.insert id ⟨1, key⟩ }
  | rejected (rejection : PreflightRejection) (hclaim : d.claims.get rejection.submission = none)
      (hnew : d.rejections.get rejection.submission = none) :
      DiskChange crates d { d with rejections := d.rejections.insert rejection.submission rejection }
  | claimed (claim : QueueClaim V) (hversion : claim.version = 1) (hreferences : claim.references ≠ [])
      (hlength : claim.references.length ≤ 20) (hsubmission : claim.submission ≠ 0)
      (hrejection : d.rejections.get claim.submission = none) (hdistinct : Distinct claim.references)
      (hclaimable : ∀ reference ∈ claim.references, Claimable crates d claim.host claim.nativeSession reference)
      (hnew : d.claims.get claim.submission = none) :
      DiskChange crates d { d with claims := d.claims.insert claim.submission (claim.reread crates) }
  | finished (result : QueueResult V) (hclaim : d.claims.get result.claim.submission = some result.claim)
      (hstatus : result.status ∈ ReferenceStore.finalStatuses)
      (hnew : d.results.get result.claim.submission = none) :
      DiskChange crates d { d with results := d.results.insert result.claim.submission (result.reread crates) }

/-- The file of a released reference is removed. -/
def Removal (d w : Disk V) : Prop :=
  ∃ id reference, d.references.get id = some reference ∧ (d.releases.get id).isSome = true ∧
    w = { d with files := d.files.erase reference.path }

abbrev Removals : Disk V → Disk V → Prop := Relation.ReflTransGen Removal

/-- A call adds at most one record, and what it removes it removes after that. -/
def CallChanges (crates : ImageCrates V) (d w : Disk V) : Prop :=
  ∃ v, (v = d ∨ DiskChange crates d v) ∧ Removals v w

section CallChanges

variable {crates : ImageCrates V} {d w v : Disk V}

theorem Removals.changes (h : Removals d w) : CallChanges crates d w := ⟨d, .inl rfl, h⟩

theorem CallChanges.refl : CallChanges crates d d := ⟨d, .inl rfl, .refl⟩

theorem CallChanges.single (h : DiskChange crates d w) : CallChanges crates d w := ⟨w, .inr h, .refl⟩

theorem CallChanges.andRemovals (h : CallChanges crates d w) (hv : Removals w v) : CallChanges crates d v := by
  obtain ⟨u, hu, hw⟩ := h
  exact ⟨u, hu, hw.trans hv⟩

theorem MayRemove.removals {id : Uuid} {reference : Reference} (hpublished : d.references.get id = some reference)
    (hreleased : (d.releases.get id).isSome = true) (h : MayRemove d reference w) : Removals d w := by
  cases h with
  | inl hsame => exact hsame ▸ .refl
  | inr hremoved => exact .single ⟨id, reference, hpublished, hreleased, hremoved⟩

end CallChanges

end InfiniShell.RemoteServer
