import InfiniShell.LocalCli.Records
import InfiniShell.RemoteServer.ImageStoreRuns

namespace InfiniShell.RemoteServer

open Collections Effects Effects.Program
open LocalCli (Json)
open RuntimeHost (Uuid Bytes)

variable {V : Type}

def Revives (transfer : Uuid) : StoreCall V → StoreAnswer V → Prop
  | .persist reference, _ => reference.transferId = transfer
  | .claimQueue claim, _ => transfer ∈ claim.references.map Prod.fst
  | .identifierAvailable id, .available available => id = transfer ∧ available = true
  | .recover _ _ id _, .recovered reference released => id = transfer ∧ (released = false ∨ reference.isSome = true)
  | _, _ => False

theorem told_not_revives {crates : ImageCrates V} {d w : Disk V} {call : StoreCall V} {result : StoreAnswer V}
    {transfer : Uuid}
    (hreleased : (d.releases.get transfer).isSome = true) (htold : Told crates d w call result) : ¬Revives transfer call result := by
  have hnone : d.releases.get transfer ≠ none := Option.isSome_iff_ne_none.mp hreleased
  unfold Told at htold
  split at htold
  · rintro rfl
    exact hnone htold.1
  · rintro ⟨rfl, rfl⟩
    rw [Bool.eq_false_of_not_eq_true (Option.isNone_iff_eq_none.not.mpr hnone), Bool.and_false] at htold
    exact absurd htold nofun
  · exact id
  · rintro ⟨rfl, hrevives⟩
    obtain ⟨rfl, hsome⟩ := htold
    refine hrevives.elim (fun hfalse => ?_) fun hreference => ?_
    · exact absurd (hreleased.symm.trans hfalse) nofun
    · exact absurd (hreleased.symm.trans (hsome hreference)) nofun
  · exact id
  · exact id
  · intro hmem
    obtain ⟨reference, hreference, rfl⟩ := List.mem_map.mp hmem
    exact hnone (htold.2.1 reference hreference)
  · exact id
  · exact id
  · exact id
  · exact id
  · exact htold.elim

variable [DecidableEq V]

/-- The keys of a claim and of its images read its status and the claim itself. -/
structure ReadableBy (crates : ImageCrates V) (d : Disk V) (claim : QueueClaim V) : Prop where
  status : ∀ key, keyHash crates key = .ok claim.keyHash → ∃ result,
    answer crates d (.queueStatus claim.host claim.nativeSession claim.submission key) [] = .ok (.status (some result))
  recovery : ∀ key, keyHash crates key = .ok claim.keyHash →
    answer crates d (.queueRecoveryClaim claim.nativeSession claim.submission key) [] =
      .ok (.claim (some (claim.reread crates)))
  references : ∀ reference ∈ claim.references,
    answer crates d (.referenceRecoveryClaim claim.nativeSession claim.submission reference.1 reference.2) [] =
      .ok (.claim (some (claim.reread crates)))

/-- What the store promises of a whole run. -/
structure RecordsKept (crates : ImageCrates V) (steps : List (StoreStep V)) : Prop where
  exclusive : ∀ submission, (diskAfter crates steps).claims.get submission = none ∨
    (diskAfter crates steps).rejections.get submission = none
  acceptedOnce : ∀ earlier middle later first second faults faults',
    steps = earlier ++ .called (.claimQueue first) faults :: (middle ++ .called (.claimQueue second) faults' :: later) →
    answer crates (diskAfter crates earlier) (.claimQueue first) faults = .ok .done →
    answer crates (diskAfter crates (earlier ++ .called (.claimQueue first) faults :: middle)) (.claimQueue second) faults' =
      .ok .done →
    first.submission ≠ second.submission
  statusMoves : ∀ earlier step later, steps = earlier ++ step :: later → ∀ submission,
    StatusMoves ((diskAfter crates earlier).status submission) ((diskAfter crates (earlier ++ [step])).status submission)
  statusTold : ∀ earlier host nativeSession submission key faults later result,
    steps = earlier ++ .called (.queueStatus host nativeSession submission key) faults :: later →
    answer crates (diskAfter crates earlier) (.queueStatus host nativeSession submission key) faults = .ok (.status result) →
    result = ((diskAfter crates earlier).status submission).answer
  resultOfClaim : ∀ submission result, (diskAfter crates steps).status submission = .final result →
    (diskAfter crates steps).claims.get submission = some result.claim ∧ result.claim.submission = submission
  notRevived : ∀ earlier middle call faults later result id, steps = earlier ++ (middle ++ .called call faults :: later) →
    ((diskAfter crates earlier).releases.get id).isSome = true →
    answer crates (diskAfter crates (earlier ++ middle)) call faults = .ok result → ¬Revives id call result
  retained : ∀ earlier faults later bytes, steps = earlier ++ .called .retainedBytes faults :: later →
    answer crates (diskAfter crates earlier) .retainedBytes faults = .ok (.bytes bytes) →
    bytes = (diskAfter crates earlier).reservedBytes
  releasedFirst : ∀ earlier step later id reference file, steps = earlier ++ step :: later →
    (diskAfter crates earlier).references.get id = some reference →
    (diskAfter crates earlier).files.get reference.path = some file →
    (diskAfter crates (earlier ++ [step])).files.get reference.path = some file ∨
      ((diskAfter crates (earlier ++ [step])).releases.get id).isSome = true
  readable : ∀ earlier claim faults later, steps = earlier ++ .called (.claimQueue claim) faults :: later →
    answer crates (diskAfter crates earlier) (.claimQueue claim) faults = .ok .done →
    ReadableBy crates (diskAfter crates steps) claim

section Kept

variable {crates : ImageCrates V} {d w : Disk V} {steps earlier later : List (StoreStep V)}

variable {claim : QueueClaim V}

theorem readableBy_of_stored {submission : Uuid} (hsound : DiskSound crates d)
    (hclaim : d.claims.get submission = some (claim.reread crates)) (hsubmission : claim.submission = submission) :
    ReadableBy crates d claim := by
  subst hsubmission
  refine ⟨fun key hkey => ?_, fun key hkey => ?_, fun reference hmem => ?_⟩
  · obtain ⟨result, hresult⟩ : ∃ result, (d.status claim.submission).answer = some result := by
      rw [Disk.status, hclaim]
      cases d.results.get claim.submission with
      | none => exact ⟨_, rfl⟩
      | some result => exact ⟨result, rfl⟩
    have hkey' : keyHash crates key = .ok (claim.reread crates).keyHash := hkey
    have hstatus := steady_queueStatus hsound hclaim hkey'
    rw [hresult] at hstatus
    exact ⟨result, congrArg Prod.fst (hstatus.bind (steady_pure (StoreAnswer.status (some result))))⟩
  · exact congrArg Prod.fst ((steady_queueRecoveryClaim hsound hclaim hkey).bind (steady_pure (StoreAnswer.claim _)))
  · have hmem' : reference ∈ (claim.reread crates).references := hmem
    have hread := steady_referenceRecoveryClaim hsound hclaim hmem'
    exact congrArg Prod.fst (hread.bind (steady_pure (StoreAnswer.claim _)))

theorem OrderlyRun.changes {step : StoreStep V} (h : OrderlyRun crates (earlier ++ step :: later)) :
    CallChanges crates (diskAfter crates earlier) (diskAfter crates (earlier ++ [step])) := by
  rw [diskAfter_concat]
  exact after_changes h.left.sound h.orderly

variable {faults : List Bool}

theorem OrderlyRun.told {call : StoreCall V} {result : StoreAnswer V}
    (h : OrderlyRun crates (earlier ++ .called call faults :: later))
    (hanswer : answer crates (diskAfter crates earlier) call faults = .ok result) :
    Told crates (diskAfter crates earlier) (diskAfter crates (earlier ++ [.called call faults])) call result := by
  rw [diskAfter_concat]
  exact answer_told h.left.sound h.orderly hanswer

theorem OrderlyRun.stored (h : OrderlyRun crates (earlier ++ .called (.claimQueue claim) faults :: later))
    (hanswer : answer crates (diskAfter crates earlier) (.claimQueue claim) faults = .ok .done) :
    (diskAfter crates (earlier ++ .called (.claimQueue claim) faults :: later)).claims.get claim.submission =
      some (claim.reread crates) := by
  obtain ⟨-, -, hstored⟩ := h.told hanswer
  rw [← List.singleton_append, ← List.append_assoc] at h ⊢
  exact h.keeps.claims _ _ hstored

end Kept

/-- In a run of orderly calls, some of which may fail or crash anywhere, the store
keeps all that it promises. -/
theorem records_kept (crates : ImageCrates V) (steps : List (StoreStep V)) (horderly : OrderlyRun crates steps) :
    RecordsKept crates steps where
  exclusive := horderly.sound.exclusive
  acceptedOnce := by
    rintro earlier middle later first second faults faults' rfl hfirst hsecond hsame
    rw [← List.cons_append, ← List.append_assoc] at horderly
    have hstored := horderly.left.stored hfirst
    obtain ⟨hnone, -, -⟩ := horderly.told hsecond
    rw [hsame] at hstored
    exact absurd (hstored.symm.trans hnone) (Option.some_ne_none _)
  statusMoves := by
    rintro earlier step later rfl submission
    exact horderly.changes.statusMoves horderly.left.sound submission
  statusTold := by
    rintro earlier host nativeSession submission key faults later result rfl hanswer
    exact horderly.told hanswer
  resultOfClaim := by
    intro submission result hfinal
    have hsound := horderly.sound
    rw [Disk.status] at hfinal
    split at hfinal
    · cases hfinal
    · cases hfinal
    · rename_i claim stored hclaim hresult
      obtain rfl := SubmissionStatus.final.inj hfinal
      have hstored := (hsound.results _ _ hresult).1
      exact ⟨hstored, (hsound.claims _ _ hstored).submission⟩
  notRevived := by
    rintro earlier middle call faults later result id rfl hreleased hanswer
    rw [← List.append_assoc] at horderly
    exact told_not_revives (horderly.left.keeps.released hreleased) (horderly.told hanswer)
  retained := by
    rintro earlier faults later bytes rfl hanswer
    exact horderly.told hanswer
  releasedFirst := by
    rintro earlier step later id reference file rfl hpublished hfile
    exact horderly.changes.file horderly.left.sound hpublished hfile
  readable := by
    rintro earlier claim faults later rfl hanswer
    exact readableBy_of_stored horderly.sound (horderly.stored hanswer) rfl

def sampleKey : Uuid := 0x6f1c2d3e4f5061728394a5b6c7d8e9f0

def sampleTransfer : Uuid := 0x0a1b2c3d4e5f60718293a4b5c6d7e8f9

def sampleImage : Bytes := [137, 80, 78, 71, 13, 10, 26, 10]

def sampleImageCrates : ImageCrates Json where
  sha256 := fun bytes =>
    if bytes = uuidBytes sampleKey then 0x6975447e3a09934a41ff213de4c17441a65db0b736b52700b2fd6d7e78d9e64d
    else if bytes = sampleImage then 0x4c4b6a3be1314ab86138bef4314dde022e600960d8689a2c8f8631802d20dab6
    else 0
  isNull := fun value => value = .null
  referenceSize := fun _ => 486
  releaseSize := fun _ => 139
  claimSize := fun claim => 417 + 80 * claim.references.length
  rejectionSize := fun rejection => 327 + 80 * rejection.references.length
  resultSize := fun result => 485 + 80 * result.claim.references.length + result.status.length + result.nativeQueueId.length

def sampleReference : Reference where
  version := 1
  host := "host-1"
  nativeSession := "session-1"
  transferId := sampleTransfer
  keyHash := 0x6975447e3a09934a41ff213de4c17441a65db0b736b52700b2fd6d7e78d9e64d
  directory := "cli-image-unpublished-1"
  directoryIdentity := (1, 2)
  filename := "attachment-1.png"
  fileIdentity := (1, 3)
  byteLen := 8
  sha256 := 0x4c4b6a3be1314ab86138bef4314dde022e600960d8689a2c8f8631802d20dab6

def sampleClaim (references : List (Uuid × Uuid)) : QueueClaim Json where
  version := 1
  host := "host-1"
  nativeSession := "session-1"
  submission := 0x1234567890abcdef1234567890abcdef
  keyHash := 0x6975447e3a09934a41ff213de4c17441a65db0b736b52700b2fd6d7e78d9e64d
  subject := 0
  nativeRequestSha256 := 0
  references := references
  claudeRecovery := none
  tmuxRecovery := none

def publishedRun : List (StoreStep Json) :=
  [.directory "cli-image-unpublished-1" ⟨(1, 2), true⟩,
    .uploaded ("cli-image-unpublished-1", "attachment-1.png") ⟨⟨(1, 3), true⟩, sampleImage⟩,
    .called (.persist sampleReference) []]

def repeatedClaim : QueueClaim Json := sampleClaim [(sampleTransfer, sampleKey), (sampleTransfer, sampleKey)]

theorem orderly_publishedRun {claim : QueueClaim Json} (hdistinct : Distinct claim.references) :
    OrderlyRun sampleImageCrates (publishedRun ++ [.called (.claimQueue claim) []]) := by
  have hnil : OrderlyRun sampleImageCrates [] := by
    intro earlier step later heq
    exact absurd heq.symm (List.append_ne_nil_of_right_ne_nil earlier (List.cons_ne_nil step later))
  have hdirectory := hnil.concat (.directory "cli-image-unpublished-1" ⟨(1, 2), true⟩) trivial
  have huploaded := hdirectory.concat
    (.uploaded ("cli-image-unpublished-1", "attachment-1.png") ⟨⟨(1, 3), true⟩, sampleImage⟩) trivial
  have hpersisted := huploaded.concat (.called (.persist sampleReference) []) fun _ _ h => nomatch h
  exact hpersisted.concat (.called (.claimQueue claim) []) hdistinct

theorem records_kept_sample :
    RecordsKept sampleImageCrates (publishedRun ++ [.called (.claimQueue (sampleClaim [(sampleTransfer, sampleKey)])) []]) :=
  records_kept sampleImageCrates _ (orderly_publishedRun (List.nodup_singleton _))

theorem repeated_transfer_unreadable :
    ¬∀ (crates : ImageCrates Json) (steps : List (StoreStep Json)), RecordsKept crates steps := by
  intro h
  have hkept := h sampleImageCrates (publishedRun ++ [.called (.claimQueue repeatedClaim) []])
  have hrun : answer sampleImageCrates (diskAfter sampleImageCrates publishedRun) (.claimQueue repeatedClaim) [] = .ok .done ∧
      keyHash sampleImageCrates sampleKey = .ok repeatedClaim.keyHash ∧
      answer sampleImageCrates (diskAfter sampleImageCrates (publishedRun ++ [.called (.claimQueue repeatedClaim) []]))
        (.queueRecoveryClaim "session-1" repeatedClaim.submission sampleKey) [] = .error .other := by
    decide +kernel
  obtain ⟨haccepted, hkey, hread⟩ := hrun
  have hrecovered := (hkept.readable publishedRun repeatedClaim [] [] rfl haccepted).recovery sampleKey hkey
  exact absurd (hread.symm.trans hrecovered) nofun

end InfiniShell.RemoteServer
