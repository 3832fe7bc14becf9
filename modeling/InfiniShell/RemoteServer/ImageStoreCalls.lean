import InfiniShell.RemoteServer.ImageStoreChanges
import Mathlib.Algebra.GroupWithZero.Nat

namespace InfiniShell.RemoteServer

open Collections Effects Effects.Program
open RuntimeHost (Uuid Bytes)

section Writers

variable {V : Type} {crates : ImageCrates V} {d : Disk V}

theorem leaves_persist {reference : Reference} (hfile : OwnFile d reference) :
    Leaves d (ReferenceStore.persist crates reference)
      (fun _ w => CallChanges crates d w ∧ d.releases.get reference.transferId = none ∧
        w.references.get reference.transferId = some reference) (CallChanges crates d) := by
  refine reads_acquire.then .refl fun _ _ => reads_validateReference.then .refl fun _ hvalid => ?_
  refine reads_releaseRecord.then .refl fun release hrelease => reads_require.then .refl fun _ hnone => ?_
  have hunreleased := hrelease.1.symm.trans (Option.isNone_iff_eq_none.mp hnone)
  refine reads_readRecord.then .refl fun stored hstored => ?_
  cases stored with
  | some previous =>
    refine reads_require.leaves (fun _ hsame => ⟨.refl, hunreleased, ?_⟩) .refl
    exact hsame ▸ hstored.symm
  | none =>
    refine leaves_writeRecord.of_imp ?_ ?_
    · rintro _ w ⟨hnew, rfl⟩
      refine ⟨.single (.published reference hvalid hfile hunreleased hnew), hunreleased, ?_⟩
      exact (AssocMap.get_insert d.references reference.transferId _ _).trans (if_pos rfl)
    · rintro w (rfl | ⟨hnew, rfl⟩)
      · exact .refl
      · exact .single (.published reference hvalid hfile hunreleased hnew)

variable {host nativeSession : String} {key : Digest}

theorem reads_requireOwnerIfPublished {reference : Option Reference} :
    Reads d (ReferenceStore.requireOwnerIfPublished reference host nativeSession key) fun _ => True := by
  cases reference with
  | some reference => exact reads_requireOwner.of_imp fun _ _ => trivial
  | none => exact Reads.ret trivial

theorem leaves_putRelease {id : Uuid} : Leaves d (ReferenceStore.putRelease crates id ⟨1, key⟩)
      (fun _ w => CallChanges crates d w ∧ w.references = d.references ∧ (w.releases.get id).isSome = true)
      (CallChanges crates d) := by
  refine reads_releaseRecord.then .refl fun release hrelease => ?_
  cases release with
  | some previous => exact reads_require.leaves (fun _ _ => ⟨.refl, rfl, hrelease.1 ▸ rfl⟩) .refl
  | none =>
    refine leaves_writeRecord.of_imp ?_ ?_
    · rintro _ w ⟨hnew, rfl⟩
      refine ⟨.single (.released id key hnew), rfl, ?_⟩
      exact Option.isSome_iff_exists.mpr ⟨_, (AssocMap.get_insert d.releases id _ _).trans (if_pos rfl)⟩
    · rintro w (rfl | ⟨hnew, rfl⟩)
      · exact .refl
      · exact .single (.released id key hnew)

variable {id key : Uuid}

theorem leaves_release : Leaves d (ReferenceStore.release crates host nativeSession id key)
      (fun _ w => CallChanges crates d w ∧ (w.releases.get id).isSome = true) (CallChanges crates d) := by
  refine reads_acquire.then .refl fun _ _ => reads_ofResult.then .refl fun hash _ => ?_
  refine reads_readRecord.then .refl fun reference hreference => ?_
  refine reads_requireOwnerIfPublished.then .refl fun _ _ => leaves_putRelease.bind ?_
  rintro _ w ⟨hchanges, hsame, hreleased⟩
  cases reference with
  | some reference =>
    have hpublished : w.references.get id = some reference := hsame ▸ hreference.symm
    refine leaves_removeReferenceFile.of_imp (fun _ v hv => ⟨?_, ?_⟩) fun v hv => ?_
    · exact hchanges.andRemovals (hv.removals hpublished hreleased)
    · cases hv with
      | inl hv => exact hv ▸ hreleased
      | inr hv => exact hv ▸ hreleased
    · exact hchanges.andRemovals (hv.removals hpublished hreleased)
  | none => exact Leaves.ret ⟨hchanges, hreleased⟩

theorem leaves_recover : Leaves d (ReferenceStore.recover crates host nativeSession id key)
      (fun answer w => CallChanges crates d w ∧ answer.2 = (d.releases.get id).isSome ∧
        (answer.1.isSome = true → answer.2 = false)) (CallChanges crates d) := by
  refine reads_acquire.then .refl fun _ _ => reads_ofResult.then .refl fun hash _ => ?_
  refine reads_releaseRecord.then .refl fun release hrelease => ?_
  rw [← hrelease.1]
  cases release with
  | some release =>
    refine reads_require.then .refl fun _ _ => reads_readRecord.then .refl fun reference hreference => ?_
    cases reference with
    | some reference =>
      have hreleased : (d.releases.get id).isSome = true := hrelease.1 ▸ rfl
      refine reads_requireOwner.then .refl fun _ _ => ?_
      refine (leaves_removeReferenceFile.of_imp ?_ ?_).bind ?_ (Q := fun _ => CallChanges crates d)
      · exact fun _ _ hw => (hw.removals hreference.symm hreleased).changes
      · exact fun _ hw => (hw.removals hreference.symm hreleased).changes
      · exact fun _ _ hw => Leaves.ret ⟨hw, rfl, nofun⟩
    | none => exact Leaves.ret ⟨.refl, rfl, nofun⟩
  | none =>
    refine reads_readRecord.then .refl fun reference _ => ?_
    cases reference with
    | none => exact Leaves.ret ⟨.refl, rfl, fun _ => rfl⟩
    | some reference =>
      refine reads_requireOwner.then .refl fun _ _ => reads_openReferenceFile.then .refl fun _ _ => ?_
      exact Leaves.ret ⟨.refl, rfl, fun _ => rfl⟩

theorem leaves_rejectPreflight {rejection : PreflightRejection} :
    Leaves d (ReferenceStore.rejectPreflight crates rejection)
      (fun _ w => CallChanges crates d w ∧ w.rejections.get rejection.submission = some rejection)
      (CallChanges crates d) := by
  refine reads_acquire.then .refl fun _ _ => reads_require.then .refl fun _ _ => ?_
  refine reads_readRecord.then .refl fun claim hclaim => reads_require.then .refl fun _ hnone => ?_
  have hunclaimed := hclaim.symm.trans (Option.isNone_iff_eq_none.mp hnone)
  refine reads_readRecord.then .refl fun stored hstored => ?_
  cases stored with
  | some previous =>
    refine reads_require.leaves (fun _ hsame => ⟨.refl, ?_⟩) .refl
    exact hsame ▸ hstored.symm
  | none =>
    refine (Reads.forEach fun _ => reads_checkReference).then .refl fun _ _ => ?_
    refine leaves_writeRecord.of_imp ?_ ?_
    · rintro _ w ⟨hnew, rfl⟩
      refine ⟨.single (.rejected rejection hunclaimed hnew), ?_⟩
      exact (AssocMap.get_insert d.rejections rejection.submission _ _).trans (if_pos rfl)
    · rintro w (rfl | ⟨hnew, rfl⟩)
      · exact .refl
      · exact .single (.rejected rejection hunclaimed hnew)

theorem leaves_claimQueue {claim : QueueClaim V} (hdistinct : Distinct claim.references) :
    Leaves d (ReferenceStore.claimQueue crates claim)
      (fun _ w => CallChanges crates d w ∧ d.claims.get claim.submission = none ∧
        (∀ reference ∈ claim.references, d.releases.get reference.1 = none) ∧
        w.claims.get claim.submission = some (claim.reread crates)) (CallChanges crates d) := by
  refine reads_acquire.then .refl fun _ _ => reads_require.then .refl ?_
  rintro _ ⟨hversion, hreferences, hlength, hsubmission⟩
  refine reads_readRecord.then .refl fun stored _ => reads_require.then .refl fun _ _ => ?_
  refine reads_readRecord.then .refl fun rejection hrejection => reads_require.then .refl fun _ hnone => ?_
  have hunrejected := hrejection.symm.trans (Option.isNone_iff_eq_none.mp hnone)
  refine (Reads.forEach fun _ => reads_checkReference).then .refl fun _ hclaimable => ?_
  refine leaves_writeRecord.of_imp ?_ ?_
  · rintro _ w ⟨hnew, rfl⟩
    refine ⟨.single (.claimed claim hversion hreferences hlength hsubmission hunrejected hdistinct hclaimable hnew),
      hnew, fun reference hmem => ?_, ?_⟩
    · obtain ⟨_, _, -, -, -, hunreleased⟩ := hclaimable reference hmem
      exact hunreleased
    · exact (AssocMap.get_insert d.claims claim.submission _ _).trans (if_pos rfl)
  · rintro w (rfl | ⟨hnew, rfl⟩)
    · exact .refl
    · exact .single (.claimed claim hversion hreferences hlength hsubmission hunrejected hdistinct hclaimable hnew)

variable [DecidableEq V]

theorem leaves_finishQueue {result : QueueResult V}
    (hreread : ∀ submission claim, d.claims.get submission = some claim → claim.reread crates = claim) :
    Leaves d (ReferenceStore.finishQueue crates result)
      (fun _ w => CallChanges crates d w ∧ w.results.get result.claim.submission = some result)
      (CallChanges crates d) := by
  refine reads_acquire.then .refl fun _ _ => reads_readRecord.then .refl fun stored hstored => ?_
  refine reads_orInvalid.then .refl fun claim hclaim => reads_require.then .refl ?_
  rintro _ rfl
  have hclaimed : d.claims.get result.claim.submission = some result.claim := hstored.symm.trans hclaim
  refine reads_require.then .refl fun _ hstatus => reads_require.then .refl fun _ _ => ?_
  refine reads_require.then .refl fun _ _ => reads_readRecord.then .refl fun previous hprevious => ?_
  cases previous with
  | some previous =>
    refine reads_require.leaves (fun _ hsame => ⟨.refl, ?_⟩) .refl
    exact hsame ▸ hprevious.symm
  | none =>
    refine leaves_writeRecord.of_imp ?_ ?_
    · rintro _ w ⟨hnew, rfl⟩
      refine ⟨.single (.finished result hclaimed hstatus hnew), ?_⟩
      have hsame : result.reread crates = result := by
        rw [QueueResult.reread, hreread _ _ hclaimed]
      refine (AssocMap.get_insert d.results result.claim.submission _ _).trans ?_
      rw [if_pos rfl]
      exact congrArg some hsame
    · rintro w (rfl | ⟨hnew, rfl⟩)
      · exact .refl
      · exact .single (.finished result hclaimed hstatus hnew)

end Writers

section Readers

variable {V : Type} {crates : ImageCrates V} {d : Disk V}

theorem reads_identifierAvailable {id : Uuid} :
    Reads d (ReferenceStore.identifierAvailable crates id)
      fun available => available = ((d.references.get id).isNone && (d.releases.get id).isNone) := by
  refine reads_acquire.bind fun _ _ => reads_readRecord.bind fun reference hreference => ?_
  rw [show d.references.get id = reference from hreference.symm]
  cases reference with
  | none => exact reads_releaseRecord.bind fun release hrelease => Reads.ret (hrelease.1 ▸ rfl)
  | some reference => exact Reads.ret rfl

/-- The bytes of a reference count as long as it is not released. -/
def Disk.reserved (d : Disk V) (id : Uuid) : Nat :=
  match d.references.get id, d.releases.get id with
  | some reference, none => reference.byteLen
  | _, _ => 0

def Disk.reservedBytes (d : Disk V) : Nat := ((d.references.entries.map Prod.fst).map d.reserved).sum

theorem leaves_retainedFrom {bytes : Nat} {ids : List Uuid} :
    Leaves d (ReferenceStore.retainedFrom crates bytes ids)
      (fun total w => Removals d w ∧ total = bytes + (ids.map d.reserved).sum) (Removals d) := by
  induction ids generalizing d bytes with
  | nil => exact Leaves.ret ⟨.refl, rfl⟩
  | cons id ids ih =>
    refine reads_fileCall.then .refl fun _ _ => reads_readRecord.then .refl fun stored hstored => ?_
    refine reads_orInvalid.then .refl fun reference hreference => reads_validateReference.then .refl fun _ _ => ?_
    have hpublished : d.references.get id = some reference := hstored.symm.trans hreference
    refine reads_require.then .refl fun _ _ => reads_releaseRecord.then .refl fun release hrelease => ?_
    rw [List.map_cons, List.sum_cons, Disk.reserved, hpublished, ← hrelease.1]
    cases release with
    | some release =>
      have hreleased : (d.releases.get id).isSome = true := hrelease.1 ▸ rfl
      refine reads_require.then .refl fun _ _ => ?_
      refine (leaves_removeReferenceFile.of_imp ?_ ?_).bind ?_
        (Q := fun _ w => Removals d w ∧ w.reserved = d.reserved)
      · rintro _ w hw
        refine ⟨hw.removals hpublished hreleased, ?_⟩
        cases hw with
        | inl hsame => rw [hsame]
        | inr hremoved =>
          rw [hremoved]
          rfl
      · exact fun _ hw => hw.removals hpublished hreleased
      · rintro _ w ⟨hchanges, hsame⟩
        refine ih.of_imp ?_ ?_
        · rintro total v ⟨hv, htotal⟩
          refine ⟨hchanges.trans hv, ?_⟩
          rw [htotal, hsame, Nat.zero_add]
        · exact fun v hv => hchanges.trans hv
    | none =>
      refine reads_require.then .refl fun _ _ => ih.of_imp ?_ fun _ hw => hw
      rintro total v ⟨hv, htotal⟩
      exact ⟨hv, htotal.trans (Nat.add_assoc _ _ _)⟩

theorem leaves_retainedBytes :
    Leaves d (ReferenceStore.retainedBytes crates)
      (fun total w => CallChanges crates d w ∧ total = d.reservedBytes) (CallChanges crates d) := by
  refine reads_acquire.then .refl fun _ _ => reads_fileCall.then .refl fun _ _ => reads_onDisk.then .refl ?_
  rintro names rfl
  refine leaves_retainedFrom.of_imp ?_ fun _ hw => hw.changes
  rintro total w ⟨hchanges, htotal⟩
  exact ⟨hchanges.changes, htotal.trans (Nat.zero_add _)⟩

variable {submission key : Uuid}

theorem reads_queueStatus [DecidableEq V] {host nativeSession : String} :
    Reads d (ReferenceStore.queueStatus crates host nativeSession submission key)
      fun answer => answer = (d.status submission).answer := by
  refine reads_acquire.bind fun _ _ => reads_readRecord.bind fun claim hclaim => ?_
  have hclaim' : d.claims.get submission = claim := hclaim.symm
  rw [Disk.status, hclaim']
  cases claim with
  | none => exact Reads.ret rfl
  | some claim =>
    refine reads_require.bind fun _ _ => reads_ofResult.bind fun _ _ => reads_require.bind fun _ _ => ?_
    refine reads_readRecord.bind fun result hresult => ?_
    have hresult' : d.results.get submission = result := hresult.symm
    rw [hresult']
    cases result with
    | none => exact Reads.ret rfl
    | some result => exact reads_require.bind fun _ _ => Reads.ret rfl

variable {nativeSession : String}

theorem reads_readRecoveryClaim : Reads d (ReferenceStore.readRecoveryClaim crates nativeSession submission)
      fun answer => answer = d.claims.get submission := by
  refine reads_readRecord.bind fun claim hclaim => ?_
  cases claim with
  | none => exact Reads.ret hclaim
  | some claim => exact reads_require.bind fun _ _ => reads_require.bind fun _ _ => Reads.ret hclaim

theorem reads_queueRecoveryClaim :
    Reads d (ReferenceStore.queueRecoveryClaim crates nativeSession submission key)
      fun answer => answer = d.claims.get submission := by
  refine reads_acquire.bind fun _ _ => reads_readRecoveryClaim.bind fun claim hclaim => ?_
  cases claim with
  | none => exact Reads.ret hclaim
  | some claim => exact reads_ofResult.bind fun _ _ => reads_require.bind fun _ _ => Reads.ret hclaim

theorem reads_referenceRecoveryClaim {submission transfer key : Uuid} :
    Reads d (ReferenceStore.referenceRecoveryClaim crates nativeSession submission transfer key)
      fun answer => answer = d.claims.get submission := by
  refine reads_acquire.bind fun _ _ => reads_readRecoveryClaim.bind fun claim hclaim => ?_
  cases claim with
  | none => exact Reads.ret hclaim
  | some claim =>
    refine reads_require.bind fun _ _ => reads_readRecord.bind fun _ _ => reads_orInvalid.bind fun _ _ => ?_
    exact reads_ofResult.bind fun _ _ => reads_requireOwner.bind fun _ _ => Reads.ret hclaim

end Readers

end InfiniShell.RemoteServer
