import Mathlib.Logic.Relation
import InfiniShell.RemoteServer.ImageJournalRuns

namespace InfiniShell.RemoteServer.ImageJournal

open Collections Effects Effects.Program
open RuntimeHost (Uuid Bytes)
open Journal

/-- Every other claim of the session with these contents is settled. -/
def Disk.Cleared (owner : Uuid → String × String) (d : Disk) (submission : Uuid) (subject : Subject) : Prop :=
  ∀ transfer intent, d.intents.get transfer = some intent → (intent.host, intent.nativeSession) = owner submission →
    intent.submissionId ≠ submission → d.Claimed intent.submissionId subject → d.Settled intent.submissionId

inductive Change (owner : Uuid → String × String) (d : Disk) : Disk → Prop
  | intent (image : Intent) (howner : owner image.submissionId = (image.host, image.nativeSession))
      (hunclaimed : d.claims.get image.submissionId = none) (hnew : d.intents.get image.transferId = none) :
      Change owner d { d with intents := d.intents.insert image.transferId image }
  | claim (submission : Uuid) (record : Claim) (hintent : d.HasIntent submission)
      (hcleared : d.Cleared owner submission record.subject) (hnew : d.claims.get submission = none) :
      Change owner d { d with claims := d.claims.insert submission record }
  | queue (record : QueueIntent) (hnew : d.queues.get record.submission = none) :
      Change owner d { d with queues := d.queues.insert record.submission record }
  | result (submission : Uuid) (record : String × String) (hqueue : (d.queues.get submission).isSome = true)
      (hnew : d.queueResults.get submission = none) :
      Change owner d { d with queueResults := d.queueResults.insert submission record }
  | release (submission : Uuid) (mark : Bool) (hnew : d.releases.get submission = none) :
      Change owner d { d with releases := d.releases.insert submission mark }
  | done (transfer : Uuid) (mark : Bool) (hnew : d.dones.get transfer = none) :
      Change owner d { d with dones := d.dones.insert transfer mark }

abbrev Changes (owner : Uuid → String × String) : Disk → Disk → Prop := Relation.ReflTransGen (Change owner)

section Calls

variable {crates : JournalCrates} {owner : Uuid → String × String} {d : Disk} {scope : StagingScope}
  {subject : Subject} {submission : Uuid}

theorem reads_acquire : Reads d acquire fun _ => True :=
  reads_fileCall.bind fun _ _ => reads_fileCall.bind fun _ _ => reads_fileCall

variable {T : Type} {kind : RecordKind Disk Uuid T} {id : Uuid} {value : T}

theorem leaves_write [DecidableEq T] : Leaves d (write kind id value)
      (fun _ w => w = d ∧ (kind.records d).get id = some value ∨
        (kind.records d).get id = none ∧ w = kind.put id (kind.reread value) d)
      (fun w => w = d ∨ (kind.records d).get id = none ∧ w = kind.put id (kind.reread value) d) := by
  refine reads_readRecord.then (.inl rfl) fun stored hstored => ?_
  cases stored with
  | none => exact leaves_writeRecord.of_imp (fun _ _ hw => .inr hw) fun _ hw => hw
  | some previous =>
    refine reads_require.leaves (fun _ heq => .inl ⟨rfl, ?_⟩) (.inl rfl)
    exact heq ▸ hstored.symm

theorem leaves_write_changes [DecidableEq T]
    (hchange : (kind.records d).get id = none → Change owner d (kind.put id (kind.reread value) d)) :
    Leaves d (write kind id value) (fun _ w => Changes owner d w) (Changes owner d) := by
  refine leaves_write.of_imp (fun _ w hw => ?_) fun w hw => ?_
  · obtain ⟨rfl, -⟩ | ⟨hnew, rfl⟩ := hw
    · exact .refl
    · exact .single (hchange hnew)
  · obtain rfl | ⟨hnew, rfl⟩ := hw
    · exact .refl
    · exact .single (hchange hnew)

theorem leaves_forEach {A : Type} {f : A → Stored Unit} {inv : Disk → Prop}
    (hstep : ∀ a w, inv w → Leaves w (f a) (fun _ => inv) inv) (l : List A) (hd : inv d) :
    Leaves d (forEach l f) (fun _ => inv) inv := by
  induction l generalizing d with
  | nil => exact Leaves.ret hd
  | cons a l ih => exact (hstep a d hd).bind fun _ w hw => ih hw

theorem reads_intentsFrom (ids : List Uuid) : Reads d (intentsFrom crates ids) fun images =>
    ∀ id ∈ ids, ∃ image ∈ images, d.intents.get id = some image ∧ image.transferId = id := by
  induction ids with
  | nil => exact reads_fileCall.bind fun _ _ => Reads.ret fun id hid => absurd hid List.not_mem_nil
  | cons id ids ih =>
    refine reads_fileCall.bind fun _ _ => reads_readRecord.bind fun stored hstored => ?_
    refine reads_orInvalid.bind fun image himage => reads_require.bind fun _ hvalid => ih.bind fun images hrest => ?_
    refine Reads.ret (List.forall_mem_cons.mpr ⟨⟨image, List.mem_cons_self, ?_, ?_⟩, fun other hother => ?_⟩)
    · exact hstored.symm.trans himage
    · exact (of_decide_eq_true hvalid).2.1
    · obtain ⟨found, hfound, hget⟩ := hrest other hother
      exact ⟨found, List.mem_cons_of_mem _ hfound, hget⟩

theorem reads_intents : Reads d (intents crates) fun images =>
    ∀ id image, d.intents.get id = some image → image ∈ images ∧ image.transferId = id := by
  refine reads_fileCall.bind fun _ _ => reads_onDisk.bind ?_
  rintro ids rfl
  refine (reads_intentsFrom _).of_imp fun images hall id image himage => ?_
  have hid : id ∈ d.intents.entries.map Prod.fst := AssocMap.mem_keys (AssocMap.get_eq_some_iff.mp himage)
  obtain ⟨found, hfound, hget, htransfer⟩ := hall id hid
  obtain rfl := Option.some.inj (hget.symm.trans himage)
  exact ⟨hfound, htransfer⟩

variable {image : Intent}

theorem reads_checkIntent : Reads d (checkIntent crates scope subject submission image) fun _ =>
    image.host = scope.hostId → image.nativeSession = scope.cliSessionId → image.submissionId ≠ submission →
      d.Claimed image.submissionId subject →
        knownTerminal (d.queueResults.get image.submissionId) = true ∧ d.dones.get image.transferId = some true := by
  unfold checkIntent
  split
  · rename_i hother
    apply Reads.ret
    intro hhost hsession hne
    obtain h | h | h := hother
    · exact absurd hhost h
    · exact absurd hsession h
    · exact absurd h hne
  · refine reads_readRecord.bind ?_
    rintro stored rfl
    split
    · refine reads_readRecord.bind ?_
      rintro terminal rfl
      refine reads_readRecord.bind ?_
      rintro done rfl
      refine reads_require.of_imp fun _ hsettled _ _ _ _ => ?_
      exact ⟨hsettled.2, hsettled.1⟩
    · rename_i hother
      apply Reads.ret
      rintro - - - ⟨record, hrecord, hsubject⟩
      refine absurd ?_ hother
      show ((d.claims.get image.submissionId).any fun claim => decide (claim.subject = subject)) = true
      rw [hrecord]
      exact decide_eq_true hsubject

variable {images : List Intent}

theorem reads_checkIntents
    (himages : ∀ id image, d.intents.get id = some image → image ∈ images ∧ image.transferId = id)
    (howned : ∀ transfer image, d.intents.get transfer = some image →
      owner image.submissionId = (image.host, image.nativeSession))
    (hscope : owner submission = (scope.hostId, scope.cliSessionId)) :
    Reads d (forEach images (checkIntent crates scope subject submission))
      fun _ => d.Cleared owner submission subject := by
  refine (Reads.forEach fun image => reads_checkIntent).of_imp fun _ hall transfer image himage hsession hne hclaimed => ?_
  have hchecked : ∀ other otherImage, d.intents.get other = some otherImage →
      otherImage.submissionId = image.submissionId →
      knownTerminal (d.queueResults.get image.submissionId) = true ∧ d.dones.get other = some true := by
    intro other otherImage hother hsame
    obtain ⟨hmem, rfl⟩ := himages other otherImage hother
    have hboth : (otherImage.host, otherImage.nativeSession) = (scope.hostId, scope.cliSessionId) := by
      rw [← howned _ _ hother, hsame, howned _ _ himage, hsession, hscope]
    obtain ⟨hhost, hnative⟩ := Prod.mk.inj hboth
    have hall' := hall otherImage hmem hhost hnative
    rw [hsame] at hall'
    exact hall' hne hclaimed
  exact ⟨(hchecked transfer image himage rfl).1, fun other otherImage hother hsame =>
    (hchecked other otherImage hother hsame).2⟩

theorem leaves_persistIntent (howner : owner image.submissionId = (image.host, image.nativeSession))
    (hunclaimed : d.claims.get image.submissionId = none) :
    Leaves d (persistIntent crates image) (fun _ w => Changes owner d w) (Changes owner d) :=
  reads_acquire.then .refl fun _ _ => leaves_write_changes fun hnew => .intent image howner hunclaimed hnew

/-- What a `claim` that answers has checked and written. -/
structure ClaimMade (crates : JournalCrates) (owner : Uuid → String × String) (d : Disk) (scope : StagingScope)
    (subject : Subject) (w : Disk) (submission : Uuid) : Prop where
  parsed : crates.parseUuid scope.submissionId = some submission
  claimed : w.Claimed submission subject
  cleared : w.Cleared owner submission subject

theorem cleared_insert {record : Claim} (hcleared : d.Cleared owner submission subject) :
    Disk.Cleared owner { d with claims := d.claims.insert submission record } submission subject := by
  intro transfer image himage hsession hne hclaimed
  have hold : d.Claimed image.submissionId subject := by
    obtain ⟨other, hother, hsubject⟩ := hclaimed
    refine ⟨other, ?_, hsubject⟩
    have hother' : (d.claims.insert submission record).get image.submissionId = some other := hother
    rw [AssocMap.get_insert, if_neg hne] at hother'
    exact hother'
  obtain ⟨hterminal, hdone⟩ := hcleared transfer image himage hsession hne hold
  exact ⟨hterminal, hdone⟩

theorem leaves_claim (subject : Subject) (processInstance : String)
    (howned : ∀ transfer image, d.intents.get transfer = some image →
      owner image.submissionId = (image.host, image.nativeSession))
    (hscope : ∀ s, crates.parseUuid scope.submissionId = some s →
      owner s = (scope.hostId, scope.cliSessionId) ∧ d.HasIntent s) :
    Leaves d (claim crates scope subject processInstance)
      (fun _ w => Changes owner d w ∧ ∃ s, ClaimMade crates owner d scope subject w s) (Changes owner d) := by
  refine reads_acquire.then .refl fun _ _ => reads_orInvalid.then .refl fun s hs => ?_
  obtain ⟨howner, hintent⟩ := hscope s hs
  refine reads_intents.then .refl fun images himages => ?_
  refine (reads_checkIntents himages howned howner).then .refl fun _ hcleared => ?_
  let record : Claim := ⟨1, subject, processInstance⟩
  have hwrite : Leaves d (write crates.claimKind s record)
      (fun _ w => w = d ∧ d.claims.get s = some record ∨
        d.claims.get s = none ∧ w = { d with claims := d.claims.insert s record })
      (fun w => w = d ∨ d.claims.get s = none ∧ w = { d with claims := d.claims.insert s record }) := leaves_write
  refine hwrite.of_imp (fun _ w hw => ?_) fun w hw => ?_
  · obtain ⟨rfl, hsame⟩ | ⟨hnew, rfl⟩ := hw
    · exact ⟨.refl, s, hs, ⟨record, hsame, rfl⟩, hcleared⟩
    · refine ⟨.single (.claim s record hintent hcleared hnew), s, hs, ⟨record, ?_, rfl⟩, cleared_insert hcleared⟩
      exact (AssocMap.get_insert d.claims s s _).trans (if_pos rfl)
  · obtain rfl | ⟨hnew, rfl⟩ := hw
    · exact .refl
    · exact .single (.claim s record hintent hcleared hnew)

theorem leaves_claimForQueue (subject : Subject) (claude : Bool)
    (howned : ∀ transfer image, d.intents.get transfer = some image →
      owner image.submissionId = (image.host, image.nativeSession))
    (hscope : ∀ s, crates.parseUuid scope.submissionId = some s →
      owner s = (scope.hostId, scope.cliSessionId) ∧ d.HasIntent s) :
    Leaves d (claimForQueue crates scope subject claude)
      (fun s w => Changes owner d w ∧ w.Claimed s subject) (Changes owner d) := by
  refine reads_orInvalid.then .refl fun s hs => (leaves_claim subject _ howned hscope).bind ?_
  rintro _ w ⟨hchanges, s', hmade⟩
  obtain rfl := Option.some.inj (hmade.parsed.symm.trans hs)
  exact Leaves.ret ⟨hchanges, hmade.claimed⟩

/-- The queue record that the second half of `prepare_queue` answers with. -/
structure QueueMade (d : Disk) (submission : Uuid) (subject : Subject) (key : Uuid) (queue : QueueIntent) (w : Disk) :
    Prop where
  submission : queue.submission = submission
  subject : queue.subject = subject
  key : queue.recoveryKey = key
  written : w = d ∧ d.queues.get queue.submission = some queue ∨
    d.queues.get queue.submission = none ∧ w = { d with queues := d.queues.insert queue.submission queue }

theorem leaves_writeQueue {claude : Bool} {key : Uuid} :
    Leaves d (writeQueue crates submission subject claude key)
      (fun queue w => Changes owner d w ∧ QueueMade d submission subject key queue w) (Changes owner d) := by
  refine reads_acquire.then .refl fun _ _ => ?_
  let queue : QueueIntent := ⟨1, submission, key, subject, claude⟩
  have hwrite : Leaves d (write crates.queueKind submission queue)
      (fun _ w => Changes owner d w ∧ QueueMade d submission subject key queue w) (Changes owner d) := by
    refine leaves_write.of_imp (fun _ w hw => ?_) fun w hw => ?_
    · obtain ⟨rfl, hsame⟩ | ⟨hnew, rfl⟩ := hw
      · exact ⟨.refl, rfl, rfl, rfl, .inl ⟨rfl, hsame⟩⟩
      · exact ⟨.single (.queue queue hnew), rfl, rfl, rfl, .inr ⟨hnew, rfl⟩⟩
    · obtain rfl | ⟨hnew, rfl⟩ := hw
      · exact .refl
      · exact .single (.queue queue hnew)
  exact hwrite.bind fun _ w hw => Leaves.ret hw

variable {w : Disk} {s : Uuid} {queue : QueueIntent}

theorem Change.keepsQueue (h : Change owner d w)
    (hqueue : d.queues.get s = some queue) : w.queues.get s = some queue := by
  cases h with
  | queue record hnew => exact AssocMap.get_insert_of_new hnew hqueue
  | _ => exact hqueue

theorem Changes.keepsQueue (h : Changes owner d w)
    (hqueue : d.queues.get s = some queue) : w.queues.get s = some queue := by
  induction h with
  | refl => exact hqueue
  | tail _ hchange ih => exact hchange.keepsQueue ih

theorem leaves_recordQueueResult {result : CodexQueueResult}
    (hqueue : d.queues.get queue.submission = some queue) :
    Leaves d (recordQueueResult crates queue result) (fun _ w => Changes owner d w) (Changes owner d) := by
  refine reads_require.then .refl fun _ _ => ?_
  split
  · exact Leaves.ret .refl
  · refine reads_acquire.then .refl fun _ _ => ?_
    have hqueued : (d.queues.get queue.submission).isSome = true := Option.isSome_iff_exists.mpr ⟨_, hqueue⟩
    refine (leaves_write_changes fun hnew => .result _ _ hqueued hnew).bind fun _ w hw => ?_
    refine Leaves.bind (Q := fun _ => Changes owner d) ?_ fun _ v hv => Leaves.ret hv
    exact (leaves_write_changes fun hnew => .release _ _ hnew).of_imp (fun _ _ => hw.trans) fun _ => hw.trans

variable {host nativeSession processInstance : String}

theorem leaves_releaseIntent :
    Leaves d (releaseIntent crates host nativeSession processInstance image) (fun _ w => Changes owner d w)
      (Changes owner d) := by
  unfold releaseIntent
  split
  · exact Leaves.ret .refl
  · refine reads_readRecord.then .refl fun stored _ => ?_
    split
    · exact leaves_write_changes fun hnew => .release _ _ hnew
    · exact Leaves.ret .refl

theorem leaves_requestRelease :
    Leaves d (requestRelease crates host nativeSession processInstance) (fun _ w => Changes owner d w)
      (Changes owner d) := by
  refine reads_acquire.then .refl fun _ _ => reads_intents.then .refl fun images _ => ?_
  refine leaves_forEach (fun image w hw => ?_) images .refl
  exact leaves_releaseIntent.of_imp (fun _ _ => hw.trans) fun _ => hw.trans

theorem reads_tryLease {busy : Bool} : Reads d (tryLease busy) fun _ => True :=
  reads_fileCall.bind fun _ _ => reads_fileCall.bind fun _ _ => Reads.ret trivial

variable {claudeOnly : Bool}

theorem reads_isSelected : Reads d (isSelected crates scope claudeOnly image) fun _ => True := by
  unfold isSelected
  split
  · exact Reads.ret trivial
  · split
    · exact Reads.ret trivial
    · exact reads_readRecord.bind fun _ _ => Reads.ret trivial

variable {busy : Uuid → Bool} {leases : List Uuid}

theorem reads_workOf : Reads d (workOf crates scope claudeOnly busy leases image) fun _ => True := by
  unfold workOf
  split
  · exact Reads.ret trivial
  · refine reads_readRecord.bind fun done _ => ?_
    split
    · exact Reads.ret trivial
    · refine reads_isSelected.bind fun selected _ => ?_
      split
      · exact Reads.ret trivial
      · refine reads_readRecord.bind fun claim _ => reads_readRecord.bind fun release _ => ?_
        dsimp only
        split
        · split
          · exact Reads.ret trivial
          · exact reads_tryLease.bind fun acquired _ => Reads.ret trivial
        · exact Reads.ret trivial

theorem reads_workFrom : Reads d (workFrom crates scope claudeOnly busy leases images) fun _ => True := by
  induction images generalizing leases with
  | nil => exact Reads.ret trivial
  | cons image images ih =>
    refine reads_workOf.bind fun work _ => ?_
    cases work with
    | none => exact ih
    | some work => exact ih.bind fun rest _ => Reads.ret trivial

theorem reads_recoveryWork : Reads d (recoveryWork crates scope claudeOnly busy) fun _ => True :=
  reads_acquire.bind fun _ _ => reads_intents.bind fun _ _ => reads_workFrom

theorem reads_nextRequest {recovery : Recovery} {work : RecoveryWork} :
    Reads d (nextRequest crates recovery work) fun awaited => ∀ queue, awaited = .status queue →
      d.queues.get work.intent.submissionId = some queue := by
  unfold nextRequest
  split
  · exact Reads.ret fun _ h => by cases h
  · split
    · exact Reads.ret fun _ h => by cases h
    · refine reads_readRecord.bind ?_
      rintro stored hstored
      cases stored with
      | none => exact Reads.ret fun _ h => by cases h
      | some queue =>
        apply Reads.ret
        rintro queue' ⟨⟩
        exact hstored.symm

theorem leaves_recordStatus {answer : Option (Bool × CodexQueueResult)}
    (hqueue : d.queues.get queue.submission = some queue) :
    Leaves d (recordStatus crates queue answer) (fun _ w => Changes owner d w) (Changes owner d) := by
  refine reads_orInvalid.then .refl fun answer _ => reads_require.then .refl fun _ _ => ?_
  split
  · exact Leaves.ret .refl
  · exact (leaves_recordQueueResult hqueue).bind fun _ w hw => Leaves.ret hw

theorem leaves_recordRecovered {answer : Option Recovered} :
    Leaves d (recordRecovered crates image answer) (fun _ w => Changes owner d w) (Changes owner d) := by
  refine reads_orInvalid.then .refl fun answer _ => reads_require.then .refl fun _ _ => ?_
  refine reads_require.then .refl fun _ _ => ?_
  split
  · have hdone : Leaves d (markDone crates image.transferId) (fun _ w => Changes owner d w) (Changes owner d) :=
      reads_acquire.then .refl fun _ _ => leaves_write_changes fun hnew => .done _ _ hnew
    exact hdone.bind fun _ w hw => Leaves.ret hw
  · exact Leaves.ret .refl

end Calls

end InfiniShell.RemoteServer.ImageJournal
