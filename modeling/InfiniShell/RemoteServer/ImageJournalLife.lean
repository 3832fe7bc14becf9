import InfiniShell.RemoteServer.ImageJournalChanges

namespace InfiniShell.RemoteServer.ImageJournal

open Collections Effects Effects.Program
open RuntimeHost (Uuid Bytes)
open Journal

variable {crates : JournalCrates} {owner : Uuid → String × String} {d w : Disk}

/-- What any interleaving of the calls, with crashes anywhere, leaves in the directory. -/
structure DiskSound (owner : Uuid → String × String) (d : Disk) : Prop where
  owned : ∀ transfer image, d.intents.get transfer = some image →
    owner image.submissionId = (image.host, image.nativeSession)
  hasIntent : ∀ submission, (d.claims.get submission).isSome = true → d.HasIntent submission
  queueKeys : ∀ submission queue, d.queues.get submission = some queue → queue.submission = submission
  queued : ∀ submission, (d.queueResults.get submission).isSome = true → (d.queues.get submission).isSome = true
  exclusive : ∀ submission other subject, submission ≠ other → owner submission = owner other →
    d.Claimed submission subject → d.Claimed other subject → d.Settled submission ∨ d.Settled other

section Changes

variable {submission : Uuid} {subject : Subject}

theorem isSome_of_keeps {K T : Type} [DecidableEq K] {m : AssocMap K T} {k j : K} {v : T} (hnew : m.get k = none)
    (h : (m.get j).isSome = true) : ((m.insert k v).get j).isSome = true := by
  obtain ⟨a, ha⟩ := Option.isSome_iff_exists.mp h
  exact Option.isSome_iff_exists.mpr ⟨a, AssocMap.get_insert_of_new hnew ha⟩

theorem Change.keepsIntent (h : Change owner d w) (hintent : d.HasIntent submission) : w.HasIntent submission := by
  obtain ⟨transfer, image, himage, hsubmission⟩ := hintent
  cases h with
  | intent other _ _ hnew => exact ⟨transfer, image, AssocMap.get_insert_of_new hnew himage, hsubmission⟩
  | _ => exact ⟨transfer, image, himage, hsubmission⟩

theorem Change.keepsClaim (h : Change owner d w) (hclaimed : d.Claimed submission subject) :
    w.Claimed submission subject := by
  obtain ⟨record, hrecord, hsubject⟩ := hclaimed
  cases h with
  | claim other _ _ _ hnew => exact ⟨record, AssocMap.get_insert_of_new hnew hrecord, hsubject⟩
  | _ => exact ⟨record, hrecord, hsubject⟩

theorem Change.keepsSettled (h : Change owner d w) (hclaimed : (d.claims.get submission).isSome = true)
    (hsettled : d.Settled submission) : w.Settled submission := by
  obtain ⟨hterminal, hdone⟩ := hsettled
  cases h with
  | intent image howner hunclaimed hnew =>
    refine ⟨hterminal, fun transfer other hother hsubmission => ?_⟩
    obtain ⟨-, rfl⟩ | hold := AssocMap.get_insert_cases hother
    · rw [hsubmission] at hunclaimed
      rw [hunclaimed] at hclaimed
      exact absurd hclaimed nofun
    · exact hdone transfer other hold hsubmission
  | result other record hqueue hnew =>
    refine ⟨?_, hdone⟩
    cases hresult : d.queueResults.get submission with
    | none =>
      rw [hresult] at hterminal
      exact absurd hterminal nofun
    | some result =>
      rw [hresult] at hterminal
      have hkept : (d.queueResults.insert other record).get submission = some result :=
        AssocMap.get_insert_of_new hnew hresult
      show knownTerminal ((d.queueResults.insert other record).get submission) = true
      rw [hkept]
      exact hterminal
  | done other mark hnew =>
    exact ⟨hterminal, fun transfer image himage hsubmission =>
      AssocMap.get_insert_of_new hnew (hdone transfer image himage hsubmission)⟩
  | _ => exact ⟨hterminal, hdone⟩

theorem claimed_isSome (h : d.Claimed submission subject) : (d.claims.get submission).isSome = true := by
  obtain ⟨record, hrecord, -⟩ := h
  exact Option.isSome_iff_exists.mpr ⟨record, hrecord⟩

theorem Change.claimed_cases (h : Change owner d w) (hclaimed : w.Claimed submission subject) :
    d.Claimed submission subject ∨ d.Cleared owner submission subject := by
  cases h with
  | claim other record _ hcleared _ =>
    obtain ⟨found, hfound, hsubject⟩ := hclaimed
    obtain ⟨rfl, rfl⟩ | hold := AssocMap.get_insert_cases hfound
    · exact .inr (hsubject ▸ hcleared)
    · exact .inl ⟨found, hold, hsubject⟩
  | _ => exact .inl hclaimed

variable {other : Uuid}

theorem DiskSound.settled_of_cleared (hsound : DiskSound owner d) (hne : submission ≠ other)
    (howner : owner submission = owner other) (hcleared : d.Cleared owner submission subject)
    (hclaimed : d.Claimed other subject) : d.Settled other := by
  obtain ⟨transfer, image, himage, rfl⟩ := hsound.hasIntent other (claimed_isSome hclaimed)
  refine hcleared transfer image himage ?_ (Ne.symm hne) hclaimed
  rw [← hsound.owned transfer image himage, howner]

theorem Change.exclusive (h : Change owner d w) (hsound : DiskSound owner d) (hne : submission ≠ other)
    (howner : owner submission = owner other) (hclaimed : w.Claimed submission subject)
    (hother : w.Claimed other subject) : w.Settled submission ∨ w.Settled other := by
  have hkeeps : ∀ s, d.Claimed s subject → d.Settled s → w.Settled s := fun s hs => h.keepsSettled (claimed_isSome hs)
  have hcases := h.claimed_cases hclaimed
  have hcases' := h.claimed_cases hother
  cases h with
  | claim new record hintent hcleared hnew =>
    -- at most one of the two claims is the new one
    by_cases hold : d.Claimed submission subject
    · by_cases hold' : d.Claimed other subject
      · obtain hsettled | hsettled := hsound.exclusive submission other subject hne howner hold hold'
        · exact .inl (hkeeps submission hold hsettled)
        · exact .inr (hkeeps other hold' hsettled)
      · have hcleared' := hcases'.resolve_left hold'
        exact .inl (hkeeps submission hold (hsound.settled_of_cleared hne.symm howner.symm hcleared' hold))
    · by_cases hold' : d.Claimed other subject
      · have hcleared' := hcases.resolve_left hold
        exact .inr (hkeeps other hold' (hsound.settled_of_cleared hne howner hcleared' hold'))
      · obtain ⟨found, hfound, hsubject⟩ := hclaimed
        obtain ⟨found', hfound', hsubject'⟩ := hother
        obtain ⟨rfl, -⟩ | hfound := AssocMap.get_insert_cases hfound
        · obtain ⟨rfl, -⟩ | hfound' := AssocMap.get_insert_cases hfound'
          · exact absurd rfl hne
          · exact absurd ⟨found', hfound', hsubject'⟩ hold'
        · exact absurd ⟨found, hfound, hsubject⟩ hold
  | _ =>
    obtain hsettled | hsettled := hsound.exclusive submission other subject hne howner hclaimed hother
    · exact .inl (hkeeps submission hclaimed hsettled)
    · exact .inr (hkeeps other hother hsettled)

theorem Change.sound (h : Change owner d w) (hsound : DiskSound owner d) : DiskSound owner w := by
  refine ⟨?_, ?_, ?_, ?_, fun _ _ _ => h.exclusive hsound⟩
  · cases h with
    | intent image howner _ _ =>
      intro transfer other hother
      obtain ⟨-, rfl⟩ | hold := AssocMap.get_insert_cases hother
      · exact howner
      · exact hsound.owned transfer other hold
    | _ => exact hsound.owned
  · intro s hs
    have hkeeps : d.HasIntent s → w.HasIntent s := h.keepsIntent
    cases h with
    | claim other record hintent hcleared hnew =>
      obtain ⟨found, hfound⟩ := Option.isSome_iff_exists.mp hs
      obtain ⟨rfl, -⟩ | hold := AssocMap.get_insert_cases hfound
      · exact hkeeps hintent
      · exact hkeeps (hsound.hasIntent s (Option.isSome_iff_exists.mpr ⟨found, hold⟩))
    | _ => exact hkeeps (hsound.hasIntent s hs)
  · cases h with
    | queue record hnew =>
      intro s queue hqueue
      obtain ⟨rfl, rfl⟩ | hold := AssocMap.get_insert_cases hqueue
      · rfl
      · exact hsound.queueKeys s queue hold
    | _ => exact hsound.queueKeys
  · cases h with
    | queue record hnew => exact fun s hs => isSome_of_keeps hnew (hsound.queued s hs)
    | result other record hqueue hnew =>
      intro s hs
      obtain ⟨found, hfound⟩ := Option.isSome_iff_exists.mp hs
      obtain ⟨rfl, -⟩ | hold := AssocMap.get_insert_cases hfound
      · exact hqueue
      · exact hsound.queued s (Option.isSome_iff_exists.mpr ⟨found, hold⟩)
    | _ => exact hsound.queued

theorem Changes.sound (h : Changes owner d w) (hsound : DiskSound owner d) : DiskSound owner w := by
  induction h with
  | refl => exact hsound
  | tail _ hchange ih => exact hchange.sound ih

theorem Changes.keepsClaim (h : Changes owner d w) (hclaimed : d.Claimed submission subject) :
    w.Claimed submission subject := by
  induction h with
  | refl => exact hclaimed
  | tail _ hchange ih => exact hchange.keepsClaim ih

end Changes

end InfiniShell.RemoteServer.ImageJournal

namespace InfiniShell.RemoteServer.ImageJournal

open Collections Effects Effects.Program
open RuntimeHost (Uuid Bytes)
open Journal

variable {crates : JournalCrates} {owner : Uuid → String × String}

structure TaskSound (d : Disk) (task : Task) : Prop where
  preparing : ∀ call, task.preparing = some call → d.Claimed call.submission call.subject
  awaited : ∀ recovery queue, task.recovery = some recovery → recovery.awaited = .status queue →
    d.queues.get queue.submission = some queue

structure WorldSound (owner : Uuid → String × String) (w : World) : Prop where
  disk : DiskSound owner w.disk
  tasks : ∀ id task, w.tasks.get id = some task → TaskSound w.disk task

theorem diskSound_empty : DiskSound owner .empty where
  owned := nofun
  hasIntent := nofun
  queueKeys := nofun
  queued := nofun
  exclusive := by
    rintro submission other subject - - ⟨record, hrecord, -⟩
    exact absurd hrecord nofun

theorem worldSound_start : WorldSound owner .start := ⟨diskSound_empty, nofun⟩

theorem taskSound_idle {d : Disk} : TaskSound d .idle := ⟨nofun, nofun⟩

section Tasks

variable {d v : Disk} {task : Task} (h : TaskSound d task)
include h

theorem TaskSound.grows (hgrows : Changes owner d v) : TaskSound v task :=
  ⟨fun call hcall => hgrows.keepsClaim (h.preparing call hcall),
    fun recovery queue hrecovery hqueue => hgrows.keepsQueue (h.awaited recovery queue hrecovery hqueue)⟩

theorem TaskSound.withLeases (leases : List Uuid) :
    TaskSound d { task with leases := leases } := ⟨h.preparing, h.awaited⟩

theorem TaskSound.withPreparing {call : Preparing} (hcall : d.Claimed call.submission call.subject) :
    TaskSound d { task with preparing := some call } := by
  refine ⟨?_, h.awaited⟩
  rintro other ⟨⟩
  exact hcall

theorem TaskSound.prepared : TaskSound d { task with preparing := none } := ⟨nofun, h.awaited⟩

theorem TaskSound.withRecovery {recovery : Option Recovery}
    (hawaited : ∀ r queue, recovery = some r → r.awaited = .status queue → d.queues.get queue.submission = some queue) :
    TaskSound d { task with recovery := recovery } := ⟨h.preparing, hawaited⟩

end Tasks

section Steps

variable {w : World} {id : Nat} {faults : List Bool}

theorem WorldSound.task (h : WorldSound owner w) (id : Nat) : TaskSound w.disk (w.task id) := by
  unfold World.task
  cases htask : w.tasks.get id with
  | none => exact taskSound_idle
  | some task => exact h.tasks id task htask

structure Stepped (owner : Uuid → String × String) (w v : World) : Prop where
  changes : Changes owner w.disk v.disk
  tasks : ∀ id task, v.tasks.get id = some task → TaskSound v.disk task

theorem Stepped.sound (h : Stepped owner w v) (hsound : WorldSound owner w) : WorldSound owner v :=
  ⟨h.changes.sound hsound.disk, h.tasks⟩

theorem WorldSound.stepped (h : WorldSound owner w) : Stepped owner w w := ⟨.refl, h.tasks⟩

variable {A : Type} {p : Stored A} {Q : A → Disk → Prop}

theorem section_stepped {finish : Except IoError A → Outcome} (hsound : WorldSound owner w)
    (hp : Leaves w.disk p (fun a v => Changes owner w.disk v ∧ Q a v) (Changes owner w.disk))
    (hok : ∀ a v, Changes owner w.disk v → Q a v → TaskSound v (finish (.ok a)).2)
    (herror : ∀ e v, Changes owner w.disk v → TaskSound v (finish (.error e)).2) :
    Stepped owner w (w.section id faults p finish).2 := by
  have hboth : Changes owner w.disk (p ⟨w.disk, faults⟩).2.disk ∧
      TaskSound (p ⟨w.disk, faults⟩).2.disk (finish (p ⟨w.disk, faults⟩).1).2 := by
    cases hresult : (p ⟨w.disk, faults⟩).1 with
    | ok a =>
      obtain ⟨hchanges, hq⟩ := Triple.of_ok hp rfl hresult
      exact ⟨hchanges, hok a _ hchanges hq⟩
    | error e =>
      have hchanges := Triple.of_error hp rfl hresult
      exact ⟨hchanges, herror e _ hchanges⟩
  refine ⟨hboth.1, fun other task htask => ?_⟩
  obtain ⟨-, rfl⟩ | hold := AssocMap.get_insert_cases htask
  · exact hboth.2
  · exact (hsound.tasks other task hold).grows hboth.1

variable {answer : A → JournalAnswer}

theorem keeps_stepped (hsound : WorldSound owner w)
    (hp : Leaves w.disk p (fun _ v => Changes owner w.disk v) (Changes owner w.disk)) :
    Stepped owner w (w.section id faults p ((w.task id).keeps answer)).2 := by
  refine section_stepped (Q := fun _ _ => True) hsound ?_ ?_ ?_
  · exact hp.of_imp (fun _ _ hv => ⟨hv, trivial⟩) fun _ hv => hv
  · exact fun _ _ hchanges _ => (hsound.task id).grows hchanges
  · exact fun _ _ hchanges => (hsound.task id).grows hchanges

theorem recovers_stepped {next : A → Option Recovery} (hsound : WorldSound owner w)
    (hp : Leaves w.disk p (fun a v => Changes owner w.disk v ∧ Q a v) (Changes owner w.disk))
    (hnext : ∀ a v, Q a v → ∀ r queue, next a = some r → r.awaited = .status queue →
      v.queues.get queue.submission = some queue) :
    Stepped owner w (w.section id faults p ((w.task id).recovers next answer)).2 := by
  refine section_stepped hsound hp ?_ ?_
  · exact fun a v hchanges hq => ((hsound.task id).grows hchanges).withRecovery (hnext a v hq)
  · exact fun e v hchanges => ((hsound.task id).grows hchanges).withRecovery nofun

variable {d : Disk}

theorem reads_changes {φ : A → Prop} (h : Reads d p φ) :
    Leaves d p (fun a v => Changes owner d v ∧ v = d ∧ φ a) (Changes owner d) :=
  h.leaves (fun _ ha => ⟨.refl, rfl, ha⟩) .refl

theorem anyLeaves (h : Leaves d p (fun _ v => Changes owner d v) (Changes owner d)) :
    Leaves d p (fun _ v => Changes owner d v ∧ True) (Changes owner d) :=
  h.of_imp (fun _ _ hv => ⟨hv, trivial⟩) fun _ hv => hv

theorem MayClaim.scoped {scope : StagingScope} {submission : Uuid} (h : MayClaim crates owner w id scope submission) :
    owner submission = (scope.hostId, scope.cliSessionId) ∧ w.disk.HasIntent submission := ⟨h.scope, h.hasIntent⟩

theorem perform_stepped (hsound : WorldSound owner w) (call : JournalCall)
    (horderly : Orderly crates owner w (.called id call faults)) :
    Stepped owner w (w.perform crates id faults call).2 := by
  cases call with
  | lease submission =>
    refine section_stepped hsound (reads_changes reads_tryLease) ?_ ?_
    · intro acquired v hchanges _
      cases acquired with
      | true => exact ((hsound.task id).grows hchanges).withLeases _
      | false => exact (hsound.task id).grows hchanges
    · exact fun _ _ hchanges => (hsound.task id).grows hchanges
  | dropLease submission =>
    refine section_stepped hsound (reads_changes (Reads.ret (φ := fun _ => True) trivial)) ?_ ?_
    · exact fun _ _ hchanges _ => ((hsound.task id).grows hchanges).withLeases _
    · exact fun _ _ hchanges => ((hsound.task id).grows hchanges).withLeases _
  | persistIntent image => exact keeps_stepped hsound (leaves_persistIntent horderly.1 horderly.2.2)
  | claim scope subject processInstance =>
    have hclaim := leaves_claim subject processInstance hsound.disk.owned
      fun s hs => (horderly s hs).scoped
    exact keeps_stepped hsound (hclaim.of_imp (fun _ _ hv => hv.1) fun _ hv => hv)
  | prepareQueue scope subject claude =>
    have hclaim := leaves_claimForQueue subject claude hsound.disk.owned
      fun s hs => (horderly s hs).scoped
    refine section_stepped hsound hclaim ?_ ?_
    · exact fun s v hchanges hclaimed => ((hsound.task id).grows hchanges).withPreparing hclaimed
    · exact fun _ _ hchanges => (hsound.task id).grows hchanges
  | writeQueue key =>
    rw [World.perform]
    split
    · exact hsound.stepped
    · refine section_stepped hsound leaves_writeQueue ?_ ?_
      · exact fun _ _ hchanges _ => ((hsound.task id).grows hchanges).prepared
      · exact fun _ _ hchanges => ((hsound.task id).grows hchanges).prepared
  | recordQueueResult queue result => exact keeps_stepped hsound (leaves_recordQueueResult horderly)
  | requestRelease host nativeSession processInstance => exact keeps_stepped hsound leaves_requestRelease
  | recover scope claudeOnly =>
    refine recovers_stepped hsound (reads_changes reads_recoveryWork) ?_
    rintro work v - r queue ⟨⟩ hawaited
    exact absurd hawaited nofun
  | advance =>
    rw [World.perform]
    split
    · exact hsound.stepped
    · split
      · exact recovers_stepped hsound (reads_changes (Reads.ret (φ := fun _ => True) trivial)) fun _ _ _ _ _ => nofun
      · refine recovers_stepped hsound (reads_changes reads_nextRequest) ?_
        rintro awaited v ⟨rfl, hqueue⟩ r queue ⟨⟩ hawaited
        have hget := hqueue queue hawaited
        rw [hsound.disk.queueKeys _ _ hget]
        exact hget
      · exact hsound.stepped
  | statusAnswered answer =>
    rw [World.perform]
    split
    · exact hsound.stepped
    · rename_i recovery hrecovery
      split
      · rename_i work rest queue hwork hawaited
        have hqueue := (hsound.task id).awaited recovery queue hrecovery hawaited
        refine recovers_stepped hsound (anyLeaves (leaves_recordStatus hqueue)) ?_
        rintro release v - r queue ⟨⟩ hnext
        exact absurd hnext nofun
      · exact hsound.stepped
  | recoverAnswered answer =>
    rw [World.perform]
    split
    · exact hsound.stepped
    · split
      · refine recovers_stepped hsound (anyLeaves leaves_recordRecovered) ?_
        rintro released v - r queue ⟨⟩ hnext
        exact absurd hnext nofun
      · exact hsound.stepped

theorem after_stepped (hsound : WorldSound owner w) {step : JournalStep} (horderly : Orderly crates owner w step) :
    Stepped owner w (w.after crates step) := by
  cases step with
  | called id call faults => exact perform_stepped hsound call horderly
  | ended id =>
    refine ⟨.refl, fun other task htask => ?_⟩
    rw [World.after, AssocMap.get_erase] at htask
    split at htask
    · exact absurd htask.symm (Option.some_ne_none _)
    · exact hsound.tasks other task htask

end Steps

end InfiniShell.RemoteServer.ImageJournal
