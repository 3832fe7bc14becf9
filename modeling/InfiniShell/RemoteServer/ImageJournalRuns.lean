import InfiniShell.Effects.GuardedRuns
import InfiniShell.RemoteServer.ImageJournal

namespace InfiniShell.RemoteServer.ImageJournal

open Collections Effects Effects.Program
open RuntimeHost (Uuid Bytes)
open Journal

structure Preparing where
  submission : Uuid
  subject : Subject
  claude : Bool

inductive Awaited where
  | nothing
  | status (queue : QueueIntent)
  | image (release : Bool)

structure Recovery where
  work : List RecoveryWork
  recoveredQueues : AssocMap Uuid Bool
  unconfirmed : Bool
  awaited : Awaited

structure Task where
  leases : List Uuid
  preparing : Option Preparing
  recovery : Option Recovery

def Task.idle : Task := ⟨[], none, none⟩

def RecoveryWork.holds (work : RecoveryWork) (submission : Uuid) : Bool :=
  work.leased && decide (work.intent.submissionId = submission)

def Task.holds (task : Task) (submission : Uuid) : Bool :=
  decide (submission ∈ task.leases) || task.recovery.any fun recovery => recovery.work.any (·.holds submission)

/-- Any number of tasks of any number of processes share the journal directory. -/
structure World where
  disk : Disk
  tasks : AssocMap Nat Task

def World.start : World := ⟨.empty, .empty⟩

def World.task (w : World) (id : Nat) : Task := (w.tasks.get id).getD .idle

def World.busy (w : World) (submission : Uuid) : Bool := w.tasks.entries.any fun entry => entry.2.holds submission

structure Recovered where
  reference : Option (Option StagingSpec)
  released : Bool

/-- The server's answers and the random key of `prepare_queue` are part of the calls. -/
inductive JournalCall where
  | lease (submission : Uuid)
  | dropLease (submission : Uuid)
  | persistIntent (intent : Intent)
  | claim (scope : StagingScope) (subject : Subject) (processInstance : String)
  | prepareQueue (scope : StagingScope) (subject : Subject) (claude : Bool)
  | writeQueue (key : Uuid)
  | recordQueueResult (queue : QueueIntent) (result : CodexQueueResult)
  | requestRelease (host nativeSession processInstance : String)
  | recover (scope : StagingScope) (claudeOnly : Bool)
  | advance
  | statusAnswered (answer : Option (Bool × CodexQueueResult))
  | recoverAnswered (answer : Option Recovered)

inductive JournalAnswer where
  | done
  | prepared (queue : QueueIntent)
  | recorded (confirmed : Bool)
  | pending
  | recovered (unconfirmed : Bool)

abbrev Outcome := Except IoError JournalAnswer × Task

/-- The task goes on after a call that changes nothing in its memory. -/
def Task.keeps {A : Type} (task : Task) (answer : A → JournalAnswer) : Except IoError A → Outcome
  | .ok a => (.ok (answer a), task)
  | .error e => (.error e, task)

def Task.recovers {A : Type} (task : Task) (next : A → Option Recovery) (answer : A → JournalAnswer) :
    Except IoError A → Outcome
  | .ok a => (.ok (answer a), { task with recovery := next a })
  | .error e => (.error e, { task with recovery := none })

def World.section {A : Type} (w : World) (id : Nat) (faults : List Bool) (p : Stored A)
    (finish : Except IoError A → Outcome) : Except IoError JournalAnswer × World :=
  let r := p ⟨w.disk, faults⟩
  ((finish r.1).1, ⟨r.2.disk, w.tasks.insert id (finish r.1).2⟩)

def nextRequest (crates : JournalCrates) (recovery : Recovery) (work : RecoveryWork) : Stored Awaited := do
  if work.release then
    return .image true
  else
    match recovery.recoveredQueues.get work.intent.submissionId with
    | some release => return .image release
    | none =>
      match ← readRecord crates.queueKind work.intent.submissionId with
      | none => return .image false
      | some queue => return .status queue

/-- The status of a submission is written down before its images are let go. -/
def recordStatus (crates : JournalCrates) (queue : QueueIntent) (answer : Option (Bool × CodexQueueResult)) :
    Stored Bool := do
  let answer ← orInvalid answer
  require (answer.1 = queue.claude)
  if answer.2.status = "absent" then
    return false
  else
    let _ ← recordQueueResult crates queue answer.2
    return decide (answer.2.status ∈ ["confirmed", "rejected", "retired"])

/-- Whether the image is released. One that is neither there nor released is not
taken for a consumed one. -/
def recordRecovered (crates : JournalCrates) (intent : Intent) (answer : Option Recovered) : Stored Bool := do
  let answer ← orInvalid answer
  require (answer.reference.all (· = some ⟨intent.byteLen, intent.sha256⟩) = true)
  require (answer.reference.isSome = true ∨ answer.released = true)
  if answer.released then
    markDone crates intent.transferId
    return true
  else
    return false

def World.perform (crates : JournalCrates) (w : World) (id : Nat) (faults : List Bool) :
    JournalCall → Except IoError JournalAnswer × World
  | .lease submission => w.section id faults (tryLease (w.busy submission)) fun
    | .ok true => (.ok .done, { w.task id with leases := submission :: (w.task id).leases })
    | .ok false => (.error .other, w.task id)
    | .error e => (.error e, w.task id)
  | .dropLease submission => w.section id faults (pure ()) fun _ =>
    (.ok .done, { w.task id with leases := (w.task id).leases.filter (· ≠ submission) })
  | .persistIntent intent => w.section id faults (persistIntent crates intent) ((w.task id).keeps fun _ => .done)
  | .claim scope subject processInstance =>
    w.section id faults (claim crates scope subject processInstance) ((w.task id).keeps fun _ => .done)
  | .prepareQueue scope subject claude => w.section id faults (claimForQueue crates scope subject claude) fun
    | .ok submission => (.ok .pending, { w.task id with preparing := some ⟨submission, subject, claude⟩ })
    | .error e => (.error e, w.task id)
  | .writeQueue key => match (w.task id).preparing with
    | none => (.error .other, w)
    | some call => w.section id faults (writeQueue crates call.submission call.subject call.claude key)
      ({ w.task id with preparing := none }.keeps .prepared)
  | .recordQueueResult queue result =>
    w.section id faults (recordQueueResult crates queue result) ((w.task id).keeps .recorded)
  | .requestRelease host nativeSession processInstance =>
    w.section id faults (requestRelease crates host nativeSession processInstance)
      ((w.task id).keeps fun _ => .done)
  | .recover scope claudeOnly =>
    w.section id faults (recoveryWork crates scope claudeOnly w.busy)
      ((w.task id).recovers (fun work => some ⟨work, .empty, false, .nothing⟩) fun _ => .pending)
  | .advance => match (w.task id).recovery with
    | none => (.error .other, w)
    | some recovery => match recovery.work, recovery.awaited with
      | [], _ => w.section id faults (pure ())
        ((w.task id).recovers (fun _ => none) fun _ => .recovered recovery.unconfirmed)
      | work :: _, .nothing => w.section id faults (nextRequest crates recovery work)
        ((w.task id).recovers (fun awaited => some { recovery with awaited := awaited }) fun _ => .pending)
      | _ :: _, _ => (.error .other, w)
  | .statusAnswered answer => match (w.task id).recovery with
    | none => (.error .other, w)
    | some recovery => match recovery.work, recovery.awaited with
      | work :: _, .status queue => w.section id faults (recordStatus crates queue answer)
        ((w.task id).recovers (fun release => some { recovery with
          recoveredQueues := recovery.recoveredQueues.insert work.intent.submissionId release
          awaited := .image release }) fun _ => .pending)
      | _, _ => (.error .other, w)
  | .recoverAnswered answer => match (w.task id).recovery with
    | none => (.error .other, w)
    | some recovery => match recovery.work, recovery.awaited with
      | work :: rest, .image _ => w.section id faults (recordRecovered crates work.intent answer)
        ((w.task id).recovers (fun released => some { recovery with
          work := rest
          unconfirmed := recovery.unconfirmed || !released
          awaited := .nothing }) fun _ => .pending)
      | _, _ => (.error .other, w)

/-- A task that ends, or whose process is killed, drops its leases. -/
inductive JournalStep where
  | called (id : Nat) (call : JournalCall) (faults : List Bool)
  | ended (id : Nat)

def World.after (crates : JournalCrates) (w : World) : JournalStep → World
  | .called id call faults => (w.perform crates id faults call).2
  | .ended id => { w with tasks := w.tasks.erase id }

def answer (crates : JournalCrates) (w : World) (id : Nat) (call : JournalCall) (faults : List Bool) :
    Except IoError JournalAnswer :=
  (w.perform crates id faults call).1

def Disk.HasIntent (d : Disk) (submission : Uuid) : Prop :=
  ∃ transfer intent, d.intents.get transfer = some intent ∧ intent.submissionId = submission

def Disk.Claimed (d : Disk) (submission : Uuid) (subject : Subject) : Prop :=
  ∃ claim, d.claims.get submission = some claim ∧ claim.subject = subject

structure Disk.Settled (d : Disk) (submission : Uuid) : Prop where
  terminal : knownTerminal (d.queueResults.get submission) = true
  done : ∀ transfer intent, d.intents.get transfer = some intent → intent.submissionId = submission →
    d.dones.get transfer = some true

/-- Whoever claims a submission has its scope and its images in the journal, and its
lease if it is not claimed yet. -/
structure MayClaim (crates : JournalCrates) (owner : Uuid → String × String) (w : World) (id : Nat)
    (scope : StagingScope) (submission : Uuid) : Prop where
  scope : owner submission = (scope.hostId, scope.cliSessionId)
  hasIntent : w.disk.HasIntent submission
  leased : (w.task id).holds submission = true ∨ (w.disk.claims.get submission).isSome = true

/-- Submissions keep host and session, images are written under the lease before the claim, and queue keys are
new. -/
def Orderly (crates : JournalCrates) (owner : Uuid → String × String) (w : World) : JournalStep → Prop
  | .called id (.persistIntent intent) _ =>
    owner intent.submissionId = (intent.host, intent.nativeSession) ∧
      (w.task id).holds intent.submissionId = true ∧ w.disk.claims.get intent.submissionId = none
  | .called id (.claim scope _ _) _ => ∀ submission, crates.parseUuid scope.submissionId = some submission →
    MayClaim crates owner w id scope submission
  | .called id (.prepareQueue scope _ _) _ => ∀ submission, crates.parseUuid scope.submissionId = some submission →
    MayClaim crates owner w id scope submission
  | .called _ (.writeQueue key) _ => ∀ submission queue, w.disk.queues.get submission = some queue →
    queue.recoveryKey ≠ key
  | .called _ (.recordQueueResult queue _) _ => w.disk.queues.get queue.submission = some queue
  | _ => True

/-- The journal directory as it is shared, from the time it is empty. -/
def shared (crates : JournalCrates) (owner : Uuid → String × String) : GuardedSystem World JournalStep where
  start := .start
  after := World.after crates
  guard := Orderly crates owner

end InfiniShell.RemoteServer.ImageJournal
