import InfiniShell.RuntimeHost.ExitRecovery

namespace InfiniShell.RuntimeHost

open Effects Effects.Program

structure RuntimeHostRecoveryCheckpoint where
  runtimeGeneration : Uuid
  hostInstanceId : Uuid
  manifestSha256 : String
  recoveredThrough : Nat

/-- `cursor` is `recovered_through` during a catch-up, with its end, and `after_sequence` after that. -/
structure Link where
  ownerEpoch : Nat
  clientId : Uuid
  catchUpThrough : Option Nat
  cursor : Nat

inductive ConsumerState where
  | inspecting (clientId : Uuid) (reattached : Bool)
  | claiming (clientId : Uuid) (reattached : Bool) (observedEpoch : Nat)
  | pulling (link : Link)
  | reading (link : Link) (hosted : List HostedEvent) (progressed : Bool)
  | committed (link : Link) (sequence : Nat) (hosted : List HostedEvent)
  | recovering (hosted : List HostedEvent) (unsaved : Option Nat)
  | saving (sequence : Nat) (hosted : List HostedEvent) (unsaved : Option Nat)
  | ended

/-- A connection or recovery: where it started, where its catch-up was to end, its pulls and its events. -/
structure Consumer where
  watermark : Nat
  target : Nat
  rounds : Nat
  handed : List HostedEvent
  state : ConsumerState

/-- The host, the recovery checkpoints in the order they were stored, and everyone who has read
the events, in any application. -/
structure Handover where
  world : World
  saved : List RuntimeHostRecoveryCheckpoint
  consumers : List Consumer

/-- `known` is how many checkpoints were stored when the task record was read. -/
inductive HandoverStep where
  | host (move : Move)
  | connect (clientId : Uuid) (reattached : Bool)
  | recover (native : Option Bytes) (known : Nat)
  | proceed (consumer : Nat) (success : Bool) (faults : List WriteFault)
  | lose (consumer : Nat)

def World.credentials (w : World) : Credentials :=
  ⟨w.record.manifest.token, w.record.manifest.taskId, w.record.manifest.runtimeGeneration⟩

def World.ownerCredentials (w : World) (link : Link) : OwnerCredentials :=
  ⟨w.credentials, link.ownerEpoch, link.clientId⟩

/-- Where the recovery of an exited host starts; nothing is recovered if the checkpoint is not about it. -/
def recoveredThrough (record : RuntimeHostRecord) (receipt : RuntimeHostExitReceipt) :
    Option RuntimeHostRecoveryCheckpoint → Option Nat
  | some checkpoint =>
    if checkpoint.runtimeGeneration = record.manifest.runtimeGeneration ∧
        checkpoint.hostInstanceId = record.manifest.hostInstanceId ∧
        checkpoint.manifestSha256 = record.manifestSha256 ∧
        checkpoint.recoveredThrough ≥ receipt.acknowledgedSequence ∧
        checkpoint.recoveredThrough ≤ receipt.lastEventSequence then
      some checkpoint.recoveredThrough
    else if checkpoint.runtimeGeneration = record.manifest.runtimeGeneration then
      none
    else some receipt.acknowledgedSequence
  | none => some receipt.acknowledgedSequence

namespace Consumer

def become (c : Consumer) (state : ConsumerState) : Consumer := { c with state := state }

def connecting (clientId : Uuid) (reattached : Bool) : Consumer := ⟨0, 0, 0, [], .inspecting clientId reattached⟩

def handOver (c : Consumer) (w : World) (hosted : HostedEvent) (success : Bool) (next : ConsumerState) : Consumer :=
  if hosted.event.generation ≠ w.record.manifest.runtimeGeneration then
    c.become .ended
  else { c with handed := c.handed ++ [hosted], state := if success then next else .ended }

section Codec

variable (codec : Codec)

def inspect (c : Consumer) (w : World) (clientId : Uuid) (reattached : Bool) (faults : List WriteFault) :
    World × Consumer :=
  match w.step codec ⟨.request (.inspect w.credentials), faults⟩ with
  | (w, .response (.inspection _ ownerEpoch _ _ _)) => (w, c.become (.claiming clientId reattached ownerEpoch))
  | (w, _) => (w, c.become .ended)

/-- A new connection forwards from the watermark; one that reattaches first catches up. -/
def claim (c : Consumer) (w : World) (clientId : Uuid) (reattached : Bool) (observedEpoch : Nat)
    (faults : List WriteFault) : World × Consumer :=
  match w.step codec ⟨.request (.claimOwner w.credentials observedEpoch clientId), faults⟩ with
  | (w, .response (.ownerClaimed ownerEpoch lastEventSequence acknowledgedSequence _)) =>
    let link : Link :=
      ⟨ownerEpoch, clientId, if reattached then some lastEventSequence else none, acknowledgedSequence⟩
    (w, { c with watermark := acknowledgedSequence, target := lastEventSequence, state := .pulling link })
  | (w, _) => (w, c.become .ended)

/-- The head of the catch-up loop, or of the loop that forwards. -/
def pull (c : Consumer) (w : World) (link : Link) (faults : List WriteFault) : World × Consumer :=
  match link.catchUpThrough with
  | some through =>
    if link.cursor < through then
      match w.step codec ⟨.request (.pullEvents (w.ownerCredentials link) link.cursor), faults⟩ with
      | (w, .response (.events hosted)) =>
        (w, { c with rounds := c.rounds + 1, state := .reading link hosted false })
      | (w, _) => (w, c.become .ended)
    else if link.cursor = through then
      (w, c.become (.pulling { link with catchUpThrough := none }))
    else (w, c.become .ended)
  | none =>
    match w.step codec ⟨.request (.pullEvents (w.ownerCredentials link) link.cursor), faults⟩ with
    | (w, .response (.events hosted)) => (w, c.become (.reading link hosted false))
    | (w, _) => (w, c.become .ended)

def read (c : Consumer) (w : World) (link : Link) (progressed success : Bool) : List HostedEvent → Consumer
  | [] => c.become (if link.catchUpThrough.isSome && !progressed then .ended else .pulling link)
  | hosted :: rest =>
    match link.catchUpThrough with
    | some through =>
      match checkedAdd link.cursor 1 with
      | some expected =>
        if hosted.sequence ≠ expected then
          c.become .ended
        else if hosted.sequence > through then
          c.become (.reading link [] progressed)
        else c.handOver w hosted success (.committed link hosted.sequence rest)
      | none => c.become .ended
    | none => c.handOver w hosted success (.committed link hosted.sequence rest)

def acknowledge (c : Consumer) (w : World) (link : Link) (sequence : Nat) (hosted : List HostedEvent)
    (faults : List WriteFault) : World × Consumer :=
  match w.step codec ⟨.request (.ackEvents (w.ownerCredentials link) sequence), faults⟩ with
  | (w, .response (.eventsAcknowledged actual)) =>
    if actual = sequence then
      (w, c.become (.reading { link with cursor := sequence } hosted true))
    else (w, c.become .ended)
  | (w, _) => (w, c.become .ended)

end Codec

end Consumer

namespace Handover

def new (record : RuntimeHostRecord) (controllerGeneration : Uuid) (saved : List RuntimeHostRecoveryCheckpoint) :
    Handover :=
  ⟨.new record controllerGeneration, saved, []⟩

def checkpointAt (s : Handover) (sequence : Nat) : RuntimeHostRecoveryCheckpoint :=
  ⟨s.world.record.manifest.runtimeGeneration, s.world.record.manifest.hostInstanceId, s.world.record.manifestSha256,
    sequence⟩

def save (s : Handover) (success : Bool) (sequence : Nat) : Handover :=
  if success then { s with saved := s.saved ++ [s.checkpointAt sequence] } else s

def setConsumer (s : Handover) (i : Nat) (c : Consumer) : Handover := { s with consumers := s.consumers.set i c }

def addConsumer (s : Handover) (c : Consumer) : Handover := { s with consumers := s.consumers ++ [c] }

def setWorld (s : Handover) (i : Nat) (next : World × Consumer) : Handover :=
  { s with world := next.1, consumers := s.consumers.set i next.2 }

section Codec

variable (codec : Codec)

def recover (s : Handover) (native : Option Bytes) (known : Nat) : Handover :=
  let w := s.world
  match recoverExitedEvents codec w.record w.record.manifest.runtimeGeneration w.hostExit w.state.journal native with
  | .ok (some (receipt, pending, _)) =>
    let checkpoint := (s.saved.take known).getLast?
    match recoveredThrough w.record receipt checkpoint with
    | some recovered =>
      let unsaved := if receipt.lastEventSequence = recovered ∧ checkpoint = none then some recovered else none
      let hosted := pending.filter fun event => event.sequence > recovered
      s.addConsumer ⟨recovered, recovered, 0, [], .recovering hosted unsaved⟩
    | none => s
  | _ => s

def proceed (s : Handover) (i : Nat) (c : Consumer) (success : Bool) (faults : List WriteFault) : Handover :=
  match c.state with
  | .inspecting clientId reattached => s.setWorld i (c.inspect codec s.world clientId reattached faults)
  | .claiming clientId reattached observedEpoch =>
    s.setWorld i (c.claim codec s.world clientId reattached observedEpoch faults)
  | .pulling link => s.setWorld i (c.pull codec s.world link faults)
  | .reading link hosted progressed => s.setConsumer i (c.read s.world link progressed success hosted)
  | .committed link sequence hosted => s.setWorld i (c.acknowledge codec s.world link sequence hosted faults)
  | .recovering (hosted :: rest) unsaved =>
    s.setConsumer i (c.handOver s.world hosted success (.saving hosted.sequence rest unsaved))
  | .recovering [] (some recovered) => (s.save success recovered).setConsumer i (c.become .ended)
  | .recovering [] none => s.setConsumer i (c.become .ended)
  | .saving sequence hosted unsaved =>
    (s.save success sequence).setConsumer i (c.become (if success then .recovering hosted unsaved else .ended))
  | .ended => s

def step (s : Handover) : HandoverStep → Handover
  | .host move =>
    match move.action with
    | .request (.ackEvents _ _) => s
    | _ => { s with world := (s.world.step codec move).1 }
  | .connect clientId reattached => s.addConsumer (.connecting clientId reattached)
  | .recover native known => s.recover codec native known
  | .proceed i success faults =>
    match s.consumers[i]? with
    | some c => s.proceed codec i c success faults
    | none => s
  | .lose i =>
    match s.consumers[i]? with
    | some c => s.setConsumer i (c.become .ended)
    | none => s

def run (s : Handover) (steps : List HandoverStep) : Handover := steps.foldl (step codec) s

end Codec

end Handover

end InfiniShell.RuntimeHost
