import InfiniShell.RemoteServer.ImageJournalLife

namespace InfiniShell.RemoteServer.ImageJournal

open Collections Effects Effects.Program
open RuntimeHost (Uuid Bytes)
open Journal

/-- The call is a `claim`, or the end of a `prepare_queue`, that lets the submission go on. -/
def Accepts (crates : JournalCrates) : JournalCall → JournalAnswer → Uuid → Subject → Prop
  | .claim scope contents _, .done, submission, subject =>
    crates.parseUuid scope.submissionId = some submission ∧ contents = subject
  | .writeQueue _, .prepared queue, submission, subject => queue.submission = submission ∧ queue.subject = subject
  | _, _, _, _ => False

/-- What the journal promises of a whole run. -/
structure DispatchedOnce (crates : JournalCrates) (owner : Uuid → String × String) (steps : List JournalStep) :
    Prop where
  preparedOnce : ∀ earlier id key faults queue middle id' key' faults' queue' later,
    steps = earlier ++ .called id (.writeQueue key) faults :: (middle ++ .called id' (.writeQueue key') faults' :: later) →
    answer crates ((shared crates owner).run earlier) id (.writeQueue key) faults = .ok (.prepared queue) →
    answer crates ((shared crates owner).run (earlier ++ .called id (.writeQueue key) faults :: middle)) id'
      (.writeQueue key') faults' = .ok (.prepared queue') →
    queue.submission ≠ queue'.submission
  cleared : ∀ earlier id call faults later result submission subject, steps = earlier ++ .called id call faults :: later →
    answer crates ((shared crates owner).run earlier) id call faults = .ok result →
    Accepts crates call result submission subject →
    ((shared crates owner).run (earlier ++ [.called id call faults])).disk.Cleared owner submission subject
  exclusive : ∀ submission other subject, submission ≠ other → owner submission = owner other →
    ((shared crates owner).run steps).disk.Claimed submission subject →
    ((shared crates owner).run steps).disk.Claimed other subject →
    knownTerminal (((shared crates owner).run steps).disk.queueResults.get submission) = true ∨
      knownTerminal (((shared crates owner).run steps).disk.queueResults.get other) = true

section Answers

variable {crates : JournalCrates} {owner : Uuid → String × String} {w : World} {id : Nat} {faults : List Bool}

theorem section_told {A : Type} {p : Stored A} {finish : Except IoError A → Outcome} {Q : A → Disk → Prop}
    {R : Disk → Prop} {result : JournalAnswer} (hp : Leaves w.disk p Q R)
    (herror : ∀ e, (finish (.error e)).1 = .error e) (hresult : (w.section id faults p finish).1 = .ok result) :
    ∃ a, Q a (w.section id faults p finish).2.disk ∧ (finish (.ok a)).1 = .ok result := by
  have hfinish : (finish (p ⟨w.disk, faults⟩).1).1 = .ok result := hresult
  cases hrun : (p ⟨w.disk, faults⟩).1 with
  | ok a =>
    rw [hrun] at hfinish
    exact ⟨a, Triple.of_ok hp rfl hrun, hfinish⟩
  | error e =>
    rw [hrun, herror] at hfinish
    exact absurd hfinish nofun

theorem claim_cleared (hsound : WorldSound owner w) {scope : StagingScope} {subject : Subject}
    {processInstance : String} {submission : Uuid}
    (horderly : Orderly crates owner w (.called id (.claim scope subject processInstance) faults))
    (hanswer : answer crates w id (.claim scope subject processInstance) faults = .ok .done)
    (hparsed : crates.parseUuid scope.submissionId = some submission) :
    (w.after crates (.called id (.claim scope subject processInstance) faults)).disk.Cleared owner submission subject := by
  have hclaim := leaves_claim subject processInstance hsound.disk.owned
    fun s hs => (horderly s hs).scoped
  obtain ⟨-, ⟨-, s, hmade⟩, -⟩ := section_told hclaim (fun _ => rfl) hanswer
  obtain rfl := Option.some.inj (hmade.parsed.symm.trans hparsed)
  exact hmade.cleared

structure Queued (w : World) (id : Nat) (key : Uuid) (queue : QueueIntent) (v : World) : Prop where
  claimed : w.disk.Claimed queue.submission queue.subject
  unqueued : w.disk.queues.get queue.submission = none
  written : v.disk = { w.disk with queues := w.disk.queues.insert queue.submission queue }

variable {key : Uuid} {queue : QueueIntent}

theorem writeQueue_queued (hsound : WorldSound owner w)
    (horderly : Orderly crates owner w (.called id (.writeQueue key) faults))
    (hanswer : answer crates w id (.writeQueue key) faults = .ok (.prepared queue)) :
    Queued w id key queue (w.after crates (.called id (.writeQueue key) faults)) := by
  rw [answer, World.perform] at hanswer
  rw [World.after, World.perform]
  split at hanswer
  · cases hanswer
  · rename_i call hcall
    have hwrite : Leaves w.disk (writeQueue crates call.submission call.subject call.claude key)
        (fun queue v => Changes owner w.disk v ∧ QueueMade w.disk call.submission call.subject key queue v)
        (Changes owner w.disk) := leaves_writeQueue
    obtain ⟨made, ⟨-, hmade⟩, hsame⟩ := section_told hwrite (fun _ => rfl) hanswer
    obtain rfl : made = queue := JournalAnswer.prepared.inj (Except.ok.inj hsame)
    have hclaimed := (hsound.task id).preparing call hcall
    rw [← hmade.submission, ← hmade.subject] at hclaimed
    obtain ⟨-, hold⟩ | ⟨hnone, hnew⟩ := hmade.written
    · exact absurd hmade.key (horderly _ _ hold)
    · exact ⟨hclaimed, hnone, hnew⟩

theorem Queued.cleared {v : World} (h : Queued w id key queue v)
    (hsound : WorldSound owner w) (hsound' : WorldSound owner v) :
    v.disk.Cleared owner queue.submission queue.subject := by
  intro transfer image himage hsession hne hclaimed
  have hclaims : v.disk.claims = w.disk.claims := by rw [h.written]
  have hresults : v.disk.queueResults = w.disk.queueResults := by rw [h.written]
  have howner : owner queue.submission = owner image.submissionId := by
    rw [hsound'.disk.owned transfer image himage, hsession]
  have hclaimed' : v.disk.Claimed queue.submission queue.subject := by
    obtain ⟨record, hrecord, hsubject⟩ := h.claimed
    exact ⟨record, by rw [hclaims, hrecord], hsubject⟩
  have hunsettled : ¬v.disk.Settled queue.submission := by
    rintro ⟨hterminal, -⟩
    rw [hresults] at hterminal
    cases hresult : w.disk.queueResults.get queue.submission with
    | none =>
      rw [hresult] at hterminal
      exact absurd hterminal nofun
    | some result =>
      have hqueued := hsound.disk.queued queue.submission (Option.isSome_iff_exists.mpr ⟨result, hresult⟩)
      rw [h.unqueued] at hqueued
      exact absurd hqueued nofun
  exact (hsound'.disk.exclusive _ _ _ (Ne.symm hne) howner hclaimed' hclaimed).resolve_left hunsettled

end Answers

section Runs

variable {crates : JournalCrates} {owner : Uuid → String × String} {steps earlier later : List JournalStep}

theorem sound_of_guarded (h : (shared crates owner).Guarded steps) :
    WorldSound owner ((shared crates owner).run steps) :=
  h.invariant worldSound_start fun _ _ hsound hstep => (after_stepped hsound hstep).sound hsound

theorem queues_kept (h : (shared crates owner).Guarded (earlier ++ later)) {submission : Uuid} {queue : QueueIntent}
    (hqueue : ((shared crates owner).run earlier).disk.queues.get submission = some queue) :
    ((shared crates owner).run (earlier ++ later)).disk.queues.get submission = some queue := by
  have hstep : ∀ w step, WorldSound owner w → Orderly crates owner w step → Stepped owner w (w.after crates step) :=
    fun _ _ hsound horderly => after_stepped hsound horderly
  have hchanges : Changes owner ((shared crates owner).run earlier).disk
      ((shared crates owner).run (earlier ++ later)).disk := by
    refine h.between (WorldSound owner) (fun u v => Changes owner u.disk v.disk) worldSound_start ?_ ?_ ?_ ?_
    · exact fun w step hsound horderly => (hstep w step hsound horderly).sound hsound
    · exact fun _ => .refl
    · exact fun _ _ _ => Relation.ReflTransGen.trans
    · exact fun w step hsound horderly => (hstep w step hsound horderly).changes
  exact hchanges.keepsQueue hqueue

end Runs

/-- A text with images is not dispatched again before its first dispatch is decided. -/
theorem texts_dispatched_once (crates : JournalCrates) (owner : Uuid → String × String) (steps : List JournalStep)
    (hguarded : (shared crates owner).Guarded steps) : DispatchedOnce crates owner steps where
  preparedOnce := by
    rintro earlier id key faults queue middle id' key' faults' queue' later rfl hfirst hsecond hsame
    rw [← List.cons_append, ← List.append_assoc] at hguarded
    have hmiddle := hguarded.left
    have hqueued := writeQueue_queued (sound_of_guarded hmiddle.left) hmiddle.allowed hfirst
    have hstored : ((shared crates owner).run (earlier ++ [.called id (.writeQueue key) faults])).disk.queues.get
        queue.submission = some queue := by
      rw [GuardedSystem.run_concat]
      show ((shared crates owner).run earlier |>.after crates _).disk.queues.get _ = _
      rw [hqueued.written]
      exact (AssocMap.get_insert _ _ _ _).trans (if_pos rfl)
    have hlater := writeQueue_queued (sound_of_guarded hmiddle) hguarded.allowed hsecond
    rw [← List.singleton_append, ← List.append_assoc] at hmiddle
    have hkept := queues_kept hmiddle hstored
    rw [List.append_assoc, List.singleton_append, hsame] at hkept
    exact absurd (hlater.unqueued.symm.trans hkept) nofun
  cleared := by
    rintro earlier id call faults later result submission subject rfl hanswer haccepts
    have hsound := sound_of_guarded hguarded.left
    have horderly := hguarded.allowed
    have hsound' := (after_stepped hsound horderly).sound hsound
    rw [GuardedSystem.run_concat]
    unfold Accepts at haccepts
    split at haccepts
    · obtain ⟨hparsed, rfl⟩ := haccepts
      exact claim_cleared hsound horderly hanswer hparsed
    · obtain ⟨rfl, rfl⟩ := haccepts
      exact (writeQueue_queued hsound horderly hanswer).cleared hsound hsound'
    · exact haccepts.elim
  exclusive := by
    intro submission other subject hne howner hclaimed hother
    obtain hsettled | hsettled := (sound_of_guarded hguarded).disk.exclusive _ _ _ hne howner hclaimed hother
    · exact .inl hsettled.terminal
    · exact .inr hsettled.terminal

def sampleSubmission : Uuid := 0x1234567890abcdef1234567890abcdef

def sampleCrates : JournalCrates where
  parseUuid := fun text => if text = "12345678-90ab-cdef-1234-567890abcdef" then some sampleSubmission else none
  uuidText := fun id => if id = sampleSubmission then "12345678-90ab-cdef-1234-567890abcdef" else ""
  intentSize := fun _ => 401
  claimSize := fun _ => 190
  queueSize := fun _ => 240
  resultSize := fun result => 7 + result.1.length + result.2.length
  markSize := fun _ => 4

def sampleOwner (_ : Uuid) : String × String := ("host-1", "session-1")

def sampleScope : StagingScope := ⟨"host-1", "session-1", "12345678-90ab-cdef-1234-567890abcdef"⟩

def sampleIntent : Intent where
  version := 1
  host := "host-1"
  nativeSession := "session-1"
  submissionId := sampleSubmission
  transferId := 0x0a1b2c3d4e5f60718293a4b5c6d7e8f9
  recoveryKey := 0x6f1c2d3e4f5061728394a5b6c7d8e9f0
  byteLen := 8
  sha256 := List.replicate 32 0

def uploadedRun : List JournalStep :=
  [.called 0 (.lease sampleSubmission) [], .called 0 (.persistIntent sampleIntent) []]

theorem uploadedRun_guarded : (shared sampleCrates sampleOwner).Guarded uploadedRun := by
  have hnil := GuardedSystem.guarded_nil (shared sampleCrates sampleOwner)
  have hleased := hnil.concat (.called 0 (.lease sampleSubmission) []) trivial
  refine hleased.concat (.called 0 (.persistIntent sampleIntent) []) ?_
  refine ⟨rfl, ?_⟩
  decide +kernel

theorem texts_dispatched_once_sample : DispatchedOnce sampleCrates sampleOwner
    (uploadedRun ++ [.called 0 (.prepareQueue sampleScope (.replicate 32 7) true) []] ++
      [.called 0 (.writeQueue 0x77) []]) := by
  apply texts_dispatched_once
  refine (uploadedRun_guarded.concat _ ?_).concat _ ?_
  · intro submission hparsed
    obtain rfl : sampleSubmission = submission := Option.some.inj hparsed
    have hstored : ((shared sampleCrates sampleOwner).run uploadedRun).disk.intents.get sampleIntent.transferId =
          some sampleIntent ∧
        (((shared sampleCrates sampleOwner).run uploadedRun).task 0).holds sampleSubmission = true := by
      decide +kernel
    exact ⟨rfl, ⟨_, sampleIntent, hstored.1, rfl⟩, .inl hstored.2⟩
  · intro submission queue hqueue
    have hempty : ((shared sampleCrates sampleOwner).run
        (uploadedRun ++ [.called 0 (.prepareQueue sampleScope (.replicate 32 7) true) []])).disk.queues.entries = [] := by
      decide +kernel
    have hmem := AssocMap.get_eq_some_iff.mp hqueue
    rw [hempty] at hmem
    exact absurd hmem List.not_mem_nil

end InfiniShell.RemoteServer.ImageJournal
