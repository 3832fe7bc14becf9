import InfiniShell.RuntimeHost.Journal

namespace InfiniShell.RuntimeHost

open Effects Effects.Program

inductive RuntimeHostRejection where
  | stateUnavailable
  | identityMismatch
  | staleOwner
  | ownerEpochChanged
  | ownerEpochExhausted
  | ownerJournalFailed
  | staleCommandGeneration
  | commandEncodingFailed
  | commandIdentityChanged
  | commandJournalFailed
  | invalidEventAck
  | eventAckJournalFailed

inductive RuntimeHostResponse where
  | inspection (hostInstanceId : Uuid) (ownerEpoch lastEventSequence acknowledgedSequence : Nat)
      (snapshot : RuntimeHostSnapshot)
  | ownerClaimed (ownerEpoch lastEventSequence acknowledgedSequence : Nat) (snapshot : RuntimeHostSnapshot)
  | commandStatus (status : HostCommandStatus)
  | events (events : List HostedEvent)
  | eventsAcknowledged (throughSequence : Nat)
  | commandStatuses (statuses : List HostCommandStatus)
  | rejected (code : RuntimeHostRejection)

/-- The fields that every request opens with. -/
structure Credentials where
  token : Uuid
  taskId : String
  runtimeGeneration : Uuid

structure OwnerCredentials extends Credentials where
  ownerEpoch : Nat
  clientId : Uuid

inductive RuntimeHostRequest where
  | inspect (credentials : Credentials)
  | claimOwner (credentials : Credentials) (observedEpoch : Nat) (clientId : Uuid)
  | pullEvents (credentials : OwnerCredentials) (afterSequence : Nat)
  | ackEvents (credentials : OwnerCredentials) (throughSequence : Nat)
  | inspectCommands (credentials : OwnerCredentials) (messageIds : List Uuid)

structure CommandRequest extends OwnerCredentials where
  command : RuntimeCommand

/-- How a handler stops early: by a response, or at an `expect` that fails. -/
inductive Stop where
  | reply (response : RuntimeHostResponse)
  | panicked

abbrev Handler (A : Type) := Program Host Stop A

def reject {A : Type} (code : RuntimeHostRejection) : Handler A := throw (.reply (.rejected code))

def authenticate (credentials : Credentials) : Handler Unit := do
  let state ← Program.read Host.state
  ensure (state.authenticate credentials.token credentials.taskId credentials.runtimeGeneration)
    (.reply (.rejected .identityMismatch))

def authorizeOwner (credentials : OwnerCredentials) : Handler Unit := do
  authenticate credentials.toCredentials
  let state ← Program.read Host.state
  ensure (state.owns credentials.ownerEpoch credentials.clientId) (.reply (.rejected .staleOwner))

def inspect (credentials : Credentials) : Handler RuntimeHostResponse := do
  authenticate credentials
  let state ← Program.read Host.state
  return .inspection state.manifest.hostInstanceId state.ownerEpoch state.lastEventSequence
    state.acknowledgedSequence state.acknowledgedSnapshot

def pullEvents (credentials : OwnerCredentials) (afterSequence : Nat) : Handler RuntimeHostResponse := do
  authorizeOwner credentials
  let state ← Program.read Host.state
  return .events ((state.events.filter fun event => event.sequence > afterSequence).take maxPullEvents)

def inspectCommands (credentials : OwnerCredentials) (messageIds : List Uuid) : Handler RuntimeHostResponse := do
  authorizeOwner credentials
  let state ← Program.read Host.state
  return .commandStatuses (messageIds.filterMap state.commands)

/-- `expect`: the status must be there. -/
def expectStatus (messageId : Uuid) : Handler RuntimeHostResponse := do
  let state ← Program.read Host.state
  match state.commands messageId with
  | some status => return .commandStatus status
  | none => throw .panicked

section Codec

variable (codec : Codec)

def claimOwner (credentials : Credentials) (observedEpoch : Nat) (clientId : Uuid) :
    Handler RuntimeHostResponse := do
  authenticate credentials
  let state ← Program.read Host.state
  ensure (observedEpoch = state.ownerEpoch) (.reply (.rejected .ownerEpochChanged))
  let ownerEpoch ← ofResult (addOr state.ownerEpoch 1 (.reply (.rejected .ownerEpochExhausted)))
  mapError (fun _ => .reply (.rejected .ownerJournalFailed)) (append codec (.ownerClaimed ownerEpoch clientId))
  modify (Host.update fun s => { s with ownerEpoch := ownerEpoch, owner := some clientId })
  modify (Host.note (.ownerClaimed observedEpoch ownerEpoch clientId))
  let state ← Program.read Host.state
  return .ownerClaimed ownerEpoch state.lastEventSequence state.acknowledgedSequence state.acknowledgedSnapshot

def ackEvents (credentials : OwnerCredentials) (throughSequence : Nat) : Handler RuntimeHostResponse := do
  authorizeOwner credentials
  let state ← Program.read Host.state
  ensure (¬(throughSequence < state.acknowledgedSequence ∨ throughSequence > state.lastEventSequence))
    (.reply (.rejected .invalidEventAck))
  if throughSequence > state.acknowledgedSequence then
    mapError (fun _ => .reply (.rejected .eventAckJournalFailed))
      (append codec (.eventsAcknowledged credentials.ownerEpoch throughSequence))
    modify (Host.update fun s => { s with acknowledgedSequence := throughSequence })
  return .eventsAcknowledged throughSequence

def handleRequest : RuntimeHostRequest → Handler RuntimeHostResponse
  | .inspect credentials => inspect credentials
  | .claimOwner credentials observedEpoch clientId => claimOwner codec credentials observedEpoch clientId
  | .pullEvents credentials afterSequence => pullEvents credentials afterSequence
  | .ackEvents credentials throughSequence => ackEvents codec credentials throughSequence
  | .inspectCommands credentials messageIds => inspectCommands credentials messageIds

/-- What both locked sections of a command check before anything else. -/
def admitCommand (request : CommandRequest) (digest : String) : Handler Unit := do
  authorizeOwner request.toOwnerCredentials
  let state ← Program.read Host.state
  ensure (request.command.generation = state.manifest.runtimeGeneration)
    (.reply (.rejected .staleCommandGeneration))
  match state.commands request.command.messageId with
  | none => pure ()
  | some previous =>
    if previous.digest = digest then throw (.reply (.commandStatus previous))
    else reject .commandIdentityChanged

/-- The first locked section, up to the wait for a place in the adapter's queue. -/
def checkCommand (request : CommandRequest) : Handler String := do
  match codec.encodeCommand request.command with
  | none => reject .commandEncodingFailed
  | some bytes =>
    let digest := codec.sha256 bytes
    admitCommand request digest
    return digest

def notDelivered (request : CommandRequest) (state : RuntimeHostState) : RuntimeEvent where
  generation := request.runtimeGeneration
  nativeSessionId := state.snapshot.nativeSessionId
  kind := .requestFailed request.command.messageId commandNotDeliveredCode

/-- The second locked section. `permit` is the place in the queue, if the adapter still takes commands. -/
def recordCommand (request : CommandRequest) (digest : String) (permit : Bool) : Handler HostCommandStatus := do
  admitCommand request digest
  let messageId := request.command.messageId
  let status : HostCommandStatus := ⟨messageId, digest, .recorded, none⟩
  mapError (fun _ => .reply (.rejected .commandJournalFailed)) (append codec (.commandRecorded status))
  modify (Host.update fun s => { s with commands := Function.update s.commands messageId (some status) })
  modify (Host.note (.commandRecorded request.ownerEpoch request.clientId request.command digest))
  if permit then
    modify (Host.note (.delivered request.ownerEpoch request.clientId request.command))
    return status
  else
    let state ← Program.read Host.state
    match ← attempt (recordEvent codec (notDelivered request state)) with
    | .ok () => do throw (.reply (← expectStatus messageId))
    | .error _ => throw (.reply (.commandStatus status))

/-- The third locked section. The adapter may have accepted the command meanwhile, which is not taken back. -/
def reportDelivery (status : HostCommandStatus) : Handler RuntimeHostResponse := do
  let messageId := status.messageId
  let state ← Program.read Host.state
  match (state.commands messageId).filter (·.disposition ≠ .recorded) with
  | some current => return .commandStatus current
  | none =>
    let status := { status with disposition := .deliveredToAdapter }
    match ← attempt (append codec (.commandUpdated status)) with
    | .error _ => expectStatus messageId
    | .ok () =>
      modify (Host.update fun s => { s with commands := Function.update s.commands status.messageId (some status) })
      return .commandStatus status

end Codec

structure RuntimeHostRecord where
  manifest : RuntimeHostManifest
  manifestSha256 : String
deriving DecidableEq

inductive NativeProcessCompletion where
  | notStarted
  | exited
  | unconfirmed
deriving DecidableEq

inductive ProcessCompletion where
  | notStarted
  | exited (receipt : Bytes)
  | unconfirmed

structure RuntimeHostExitReceipt where
  version : Nat
  runtimeGeneration : Uuid
  hostInstanceId : Uuid
  manifestSha256 : String
  journalSha256 : String
  lastEventSequence : Nat
  acknowledgedSequence : Nat
  nativeProcess : NativeProcessCompletion
  nativeCleanupSha256 : Option String
  adapterTaskTerminated : Bool
  adapterSucceeded : Bool
  eventJournalCompleted : Bool

structure ExitEvidence where
  native : ProcessCompletion
  adapterTaskTerminated : Bool
  adapterSucceeded : Bool
  eventJournalCompleted : Bool

/-- A command that is being served, at a point where it does not hold the lock. -/
inductive CommandCall where
  | waiting (request : CommandRequest) (digest : String)
  | reserved (request : CommandRequest) (digest : String) (permit : Bool)
  | sent (status : HostCommandStatus)

/-- The host with the commands that are being served. `hostExit` is `host-exit.json`, which is
only ever created. -/
structure World where
  record : RuntimeHostRecord
  controllerGeneration : Uuid
  state : RuntimeHostState
  trace : List Effect
  calls : List CommandCall
  hostExit : Option RuntimeHostExitReceipt

inductive Action where
  | request (request : RuntimeHostRequest)
  | command (request : CommandRequest)
  | reserve (call : Nat) (permit : Bool)
  | record (call : Nat)
  | report (call : Nat)
  | adapterEvent (event : RuntimeEvent)
  | exit (evidence : ExitEvidence)

structure Move where
  action : Action
  faults : List WriteFault

inductive Outcome where
  | pending
  | response (response : RuntimeHostResponse)
  | panicked

def Outcome.ofHandler : Except Stop RuntimeHostResponse → Outcome
  | .ok answer => .response answer
  | .error (.reply answer) => .response answer
  | .error .panicked => .panicked

def NativeProcessCompletion.of : ProcessCompletion → NativeProcessCompletion
  | .notStarted => .notStarted
  | .exited _ => .exited
  | .unconfirmed => .unconfirmed

namespace World

def new (record : RuntimeHostRecord) (controllerGeneration : Uuid) : World where
  record := record
  controllerGeneration := controllerGeneration
  state := .new record.manifest record.manifestSha256
  trace := []
  calls := []
  hostExit := none

def host (w : World) (faults : List WriteFault) : Host := ⟨w.state, faults, w.trace⟩

def withHost (w : World) (host : Host) : World := { w with state := host.state, trace := host.trace }

def setCall (w : World) (call : Nat) (next : CommandCall) : World := { w with calls := w.calls.set call next }

def dropCall (w : World) (call : Nat) : World := { w with calls := w.calls.eraseIdx call }

section Codec

variable (codec : Codec)

/-- The journal takes nothing more, and the receipt is about what it holds. -/
def writeExitReceipt (w : World) (evidence : ExitEvidence) : World :=
  let receipt : RuntimeHostExitReceipt := {
    version := hostManifestVersion
    runtimeGeneration := w.record.manifest.runtimeGeneration
    hostInstanceId := w.record.manifest.hostInstanceId
    manifestSha256 := w.record.manifestSha256
    journalSha256 := w.state.journalSha256
    lastEventSequence := w.state.lastEventSequence
    acknowledgedSequence := w.state.acknowledgedSequence
    nativeProcess := .of evidence.native
    nativeCleanupSha256 := match evidence.native with
      | .exited receipt => some (codec.sha256 receipt)
      | .notStarted | .unconfirmed => none
    adapterTaskTerminated := evidence.adapterTaskTerminated
    adapterSucceeded := evidence.adapterSucceeded
    eventJournalCompleted := evidence.eventJournalCompleted }
  { w with
    state := { w.state with journalSealed := true }
    hostExit := if w.hostExit.isSome then w.hostExit else some receipt }

def step (w : World) (move : Move) : World × Outcome :=
  let host := w.host move.faults
  match move.action with
  | .request request =>
    let (result, host) := handleRequest codec request host
    (w.withHost host, .ofHandler result)
  | .command request =>
    match checkCommand codec request host with
    | (.ok digest, host) =>
      let w := w.withHost host
      ({ w with calls := w.calls ++ [.waiting request digest] }, .pending)
    | (.error stop, host) => (w.withHost host, .ofHandler (.error stop))
  | .reserve call permit =>
    match w.calls[call]? with
    | some (.waiting request digest) =>
      if request.command.generation ≠ w.controllerGeneration then
        (w.dropCall call, .response (.rejected .staleCommandGeneration))
      else (w.setCall call (.reserved request digest permit), .pending)
    | _ => (w, .pending)
  | .record call =>
    match w.calls[call]? with
    | some (.reserved request digest permit) =>
      match recordCommand codec request digest permit host with
      | (.ok status, host) => ((w.withHost host).setCall call (.sent status), .pending)
      | (.error stop, host) => ((w.withHost host).dropCall call, .ofHandler (.error stop))
    | _ => (w, .pending)
  | .report call =>
    match w.calls[call]? with
    | some (.sent status) =>
      let (result, host) := reportDelivery codec status host
      ((w.withHost host).dropCall call, .ofHandler result)
    | _ => (w, .pending)
  | .adapterEvent event => (w.withHost (recordEvent codec event host).2, .pending)
  | .exit evidence => (w.writeExitReceipt codec evidence, .pending)

def run (w : World) (moves : List Move) : World := moves.foldl (fun w move => (w.step codec move).1) w

end Codec

end World

end InfiniShell.RuntimeHost
