import InfiniShell.RuntimeHost.Journal

namespace InfiniShell.RemoteServer

open Collections
open RuntimeHost (Uuid)

abbrev ConnectionId := Uuid

abbrev RequestId := String

abbrev ModelId := Nat

abbrev FutureId := Nat

inductive DiffMode where
  | head
  | mainBranch
  | otherBranch (name : String)
deriving DecidableEq

structure DiffModelKey where
  repoPath : String
  mode : DiffMode
deriving DecidableEq

inductive DiffState where
  | notInRepository
  | loading
  | error (message : String)
  | loaded
  | disconnected
deriving DecidableEq

/-- The state of a local model. `P` stands for the contents of diffs and of metadata, which the tracker only hands on. -/
inductive InternalDiffState (P : Type) where
  | detecting
  | notInRepository
  | loading
  | loaded (changes : Except String P)

def InternalDiffState.get {P : Type} : InternalDiffState P → DiffState
  | detecting => .loading
  | loading => .loading
  | notInRepository => .notInRepository
  | loaded (.ok _) => .loaded
  | loaded (.error message) => .error message

structure LocalDiffStateModel (P : Type) where
  id : ModelId
  state : InternalDiffState P
  metadata : Option P

inductive DiffStateModelEvent (P : Type) where
  | currentBranchChanged
  | newDiffsComputed (diffs : Option P)
  | singleFileUpdated (path : String) (diff : Option P)
  | metadataRefreshed (metadata : P)
  | connectionLost
  | branchesReceived
  | gitOpCompleted
  | commitMessageGenerated
  | branchCommittedFilesReceived

inductive ModelChange (P : Type) where
  | repositoryMissing
  | loadStarted
  | diffsComputed (changes : Except String P)
  | fileUpdated (path : String) (diff : Option P)
  | metadataRefreshed (metadata : P)
  | branchChanged (metadata : Option P)
  | metadataChanged (metadata : Option P)
  | branchesReceived

def LocalDiffStateModel.change {P : Type} (model : LocalDiffStateModel P) :
    ModelChange P → LocalDiffStateModel P × Option (DiffStateModelEvent P)
  | .repositoryMissing => ({ model with state := .notInRepository }, some (.newDiffsComputed none))
  -- a reload after a commit goes back to loading, and emits nothing
  | .loadStarted => ({ model with state := .loading }, none)
  | .diffsComputed changes => ({ model with state := .loaded changes }, some (.newDiffsComputed changes.toOption))
  | .fileUpdated path diff => (model, some (.singleFileUpdated path diff))
  | .metadataRefreshed metadata => ({ model with metadata := some metadata }, some (.metadataRefreshed metadata))
  | .branchChanged metadata => ({ model with metadata := metadata }, some .currentBranchChanged)
  | .metadataChanged metadata => ({ model with metadata := metadata }, none)
  | .branchesReceived => (model, some .branchesReceived)

structure PendingDiffStateResponse where
  requestId : RequestId
  connId : ConnectionId

inductive SubscribeOutcome (P : Type) where
  | respondWithSnapshot (key : DiffModelKey) (state : DiffState) (metadata : Option P)
  | async

inductive DiffStateUpdate (P : Type) where
  | snapshot (repoPath : String) (mode : DiffMode) (state : DiffState) (metadata diffs : Option P)
      (subscribers : List (ConnectionId × Option RequestId))
  | metadataUpdate (repoPath : String) (mode : DiffMode) (metadata : P) (subscribers : List ConnectionId)
  | fileDelta (repoPath : String) (mode : DiffMode) (path : String) (diff metadata : Option P)
      (subscribers : List ConnectionId)

structure RemoteDiffStateManager (P : Type) where
  states : AssocMap DiffModelKey (LocalDiffStateModel P)
  keyToConnections : AssocMap DiffModelKey (List ConnectionId)
  pendingResponses : AssocMap DiffModelKey (List PendingDiffStateResponse)
  inProgress : AssocMap RequestId FutureId

structure ContentReload where
  key : DiffModelKey
  requestId : RequestId
  model : Option ModelId
  aborted : Bool

namespace RemoteDiffStateManager

variable {P : Type}

def new : RemoteDiffStateManager P := ⟨.empty, .empty, .empty, .empty⟩

def getModel (m : RemoteDiffStateManager P) (key : DiffModelKey) : Option (LocalDiffStateModel P) := m.states.get key

def insertModel (m : RemoteDiffStateManager P) (key : DiffModelKey) (model : LocalDiffStateModel P) :
    RemoteDiffStateManager P :=
  { m with states := m.states.insert key model }

def removeModel (m : RemoteDiffStateManager P) (key : DiffModelKey) : RemoteDiffStateManager P :=
  { m with
    states := m.states.erase key
    pendingResponses := m.pendingResponses.erase key
    keyToConnections := m.keyToConnections.erase key }

def readStateAndMetadata (m : RemoteDiffStateManager P) (key : DiffModelKey) : Option (DiffState × Option P) :=
  (m.states.get key).map fun model => (model.state.get, model.metadata)

def subscribedConnections (m : RemoteDiffStateManager P) (key : DiffModelKey) : List ConnectionId :=
  (m.keyToConnections.get key).getD []

def subscribeConnection (m : RemoteDiffStateManager P) (key : DiffModelKey) (connId : ConnectionId) :
    RemoteDiffStateManager P :=
  let connections := m.subscribedConnections key
  { m with
    keyToConnections := m.keyToConnections.insert key
      (if connId ∈ connections then connections else connections ++ [connId]) }

def retainPending (m : RemoteDiffStateManager P) (key : DiffModelKey) (connId : ConnectionId) :
    RemoteDiffStateManager P :=
  match m.pendingResponses.get key with
  | none => m
  | some pending =>
    { m with pendingResponses := m.pendingResponses.insert key (pending.filter fun p => p.connId ≠ connId) }

def unsubscribeConnection (m : RemoteDiffStateManager P) (key : DiffModelKey) (connId : ConnectionId) :
    RemoteDiffStateManager P :=
  let m := m.retainPending key connId
  match m.keyToConnections.get key with
  | none => m
  | some connections =>
    let rest := connections.filter fun c => c ≠ connId
    let m := { m with keyToConnections := m.keyToConnections.insert key rest }
    if rest = [] then m.removeModel key else m

def removeConnection (m : RemoteDiffStateManager P) (connId : ConnectionId) : RemoteDiffStateManager P :=
  let keys := (m.keyToConnections.entries.filter fun entry => connId ∈ entry.2).map Prod.fst
  keys.foldl (fun m key => m.unsubscribeConnection key connId) m

def pendingFor (m : RemoteDiffStateManager P) (key : DiffModelKey) : List PendingDiffStateResponse :=
  (m.pendingResponses.get key).getD []

def hasPendingResponses (m : RemoteDiffStateManager P) (key : DiffModelKey) : Bool :=
  (m.pendingResponses.get key).any fun pending => !pending.isEmpty

def addPendingResponse (m : RemoteDiffStateManager P) (key : DiffModelKey) (requestId : RequestId)
    (connId : ConnectionId) : RemoteDiffStateManager P :=
  { m with pendingResponses := m.pendingResponses.insert key (m.pendingFor key ++ [⟨requestId, connId⟩]) }

def drainPendingResponses (m : RemoteDiffStateManager P) (key : DiffModelKey) :
    List PendingDiffStateResponse × RemoteDiffStateManager P :=
  (m.pendingFor key, { m with pendingResponses := m.pendingResponses.erase key })

def answerTo (p : PendingDiffStateResponse) : ConnectionId × Option RequestId := (p.connId, some p.requestId)

def broadcastNewDiffs (m : RemoteDiffStateManager P) (key : DiffModelKey) (diffs : Option P) :
    RemoteDiffStateManager P × List (DiffStateUpdate P) :=
  match m.readStateAndMetadata key with
  | none => (m, [])
  | some (state, metadata) =>
    let (pending, m) := m.drainPendingResponses key
    let responded := pending.map (·.connId)
    let subscribers := pending.map answerTo ++
      ((m.subscribedConnections key).filter fun c => c ∉ responded).map fun c => (c, none)
    (m, [.snapshot key.repoPath key.mode state metadata diffs subscribers])

def handleModelEvent (m : RemoteDiffStateManager P) (key : DiffModelKey) :
    DiffStateModelEvent P → RemoteDiffStateManager P × List (DiffStateUpdate P)
  | .newDiffsComputed diffs => m.broadcastNewDiffs key diffs
  | .metadataRefreshed metadata => (m, [.metadataUpdate key.repoPath key.mode metadata (m.subscribedConnections key)])
  | .currentBranchChanged =>
    match (m.getModel key).bind (·.metadata) with
    | none => (m, [])
    | some metadata => (m, [.metadataUpdate key.repoPath key.mode metadata (m.subscribedConnections key)])
  | .singleFileUpdated path diff =>
    (m, [.fileDelta key.repoPath key.mode path diff ((m.getModel key).bind (·.metadata)) (m.subscribedConnections key)])
  | .connectionLost => (m, [])
  | .branchesReceived => (m, [])
  | .gitOpCompleted => (m, [])
  | .commitMessageGenerated => (m, [])
  | .branchCommittedFilesReceived => (m, [])

def resolvePendingResponses (m : RemoteDiffStateManager P) (key : DiffModelKey) (diffs : Option P) :
    RemoteDiffStateManager P × List (DiffStateUpdate P) :=
  match m.readStateAndMetadata key with
  | none => (m, [])
  | some (state, metadata) =>
    let (pending, m) := m.drainPendingResponses key
    (m, [.snapshot key.repoPath key.mode state metadata diffs (pending.map answerTo)])

def abortPendingResponse (m : RemoteDiffStateManager P) (requestId : RequestId) : RemoteDiffStateManager P × Bool :=
  match m.pendingResponses.entries.find? fun entry => entry.2.any fun p => p.requestId = requestId with
  | none => (m, false)
  | some (key, pending) =>
    ({ m with
      pendingResponses := m.pendingResponses.insert key (pending.eraseP fun p => p.requestId = requestId) }, true)

end RemoteDiffStateManager

structure DiffStateServer (P : Type) where
  manager : RemoteDiffStateManager P
  reloads : AssocMap FutureId ContentReload
  nextId : Nat

namespace DiffStateServer

variable {P : Type}

def new : DiffStateServer P := ⟨.new, .empty, 0⟩

def withManager (s : DiffStateServer P) (result : RemoteDiffStateManager P × List (DiffStateUpdate P)) :
    DiffStateServer P × List (DiffStateUpdate P) :=
  ({ s with manager := result.1 }, result.2)

def spawnContentReload (s : DiffStateServer P) (key : DiffModelKey) (requestId : RequestId) : DiffStateServer P where
  manager := { s.manager with inProgress := s.manager.inProgress.insert requestId s.nextId }
  reloads := s.reloads.insert s.nextId ⟨key, requestId, (s.manager.getModel key).map (·.id), false⟩
  nextId := s.nextId + 1

def subscribe (s : DiffStateServer P) (repoPath : String) (mode : DiffMode) (requestId : RequestId)
    (connId : ConnectionId) : DiffStateServer P × SubscribeOutcome P :=
  let key : DiffModelKey := ⟨repoPath, mode⟩
  let m := s.manager.subscribeConnection key connId
  match m.getModel key with
  | some model =>
    match model.state.get with
    | .loaded =>
      let waiting := { s with manager := m.addPendingResponse key requestId connId }
      (if m.hasPendingResponses key then waiting else waiting.spawnContentReload key requestId, .async)
    | .error message => ({ s with manager := m }, .respondWithSnapshot key (.error message) model.metadata)
    | .notInRepository => ({ s with manager := m }, .respondWithSnapshot key .notInRepository model.metadata)
    | .loading => ({ s with manager := m.addPendingResponse key requestId connId }, .async)
    | .disconnected => ({ s with manager := m.addPendingResponse key requestId connId }, .async)
  | none =>
    let m := (m.insertModel key ⟨s.nextId, .detecting, none⟩).addPendingResponse key requestId connId
    ({ s with manager := m, nextId := s.nextId + 1 }, .async)

def abortRequest (s : DiffStateServer P) (requestId : RequestId) : DiffStateServer P × Bool :=
  match s.manager.inProgress.get requestId with
  | none => (s, false)
  | some future =>
    let m := { s.manager with inProgress := s.manager.inProgress.erase requestId }
    match s.reloads.get future with
    | none => ({ s with manager := m }, true)
    | some reload => ({ s with manager := m, reloads := s.reloads.insert future { reload with aborted := true } }, true)

def endReload (s : DiffStateServer P) (future : FutureId) (reload : ContentReload) (diffs : Option P) :
    DiffStateServer P × List (DiffStateUpdate P) :=
  let m := { s.manager with inProgress := s.manager.inProgress.erase reload.requestId }
  { s with reloads := s.reloads.erase future }.withManager (m.resolvePendingResponses reload.key diffs)

def changeModel (s : DiffStateServer P) (key : DiffModelKey) (change : ModelChange P) :
    DiffStateServer P × List (DiffStateUpdate P) :=
  match s.manager.getModel key with
  | none => (s, [])
  | some model =>
    let m := s.manager.insertModel key (model.change change).1
    match (model.change change).2 with
    | none => ({ s with manager := m }, [])
    | some event => s.withManager (m.handleModelEvent key event)

end DiffStateServer

inductive DiffStateAction (P : Type) where
  | subscribe (repoPath : String) (mode : DiffMode) (requestId : RequestId) (connId : ConnectionId)
  | unsubscribeConnection (key : DiffModelKey) (connId : ConnectionId)
  | removeConnection (connId : ConnectionId)
  | abortRequest (requestId : RequestId)
  | abortPendingResponse (requestId : RequestId)
  | changeModel (key : DiffModelKey) (change : ModelChange P)
  | reloadCompleted (future : FutureId) (diffs : Option P)
  | reloadAborted (future : FutureId)

namespace DiffStateServer

variable {P : Type}

/-- A reload that was cancelled never completes; one that was not is not aborted. -/
def step (s : DiffStateServer P) : DiffStateAction P → DiffStateServer P × List (DiffStateUpdate P)
  | .subscribe repoPath mode requestId connId => ((s.subscribe repoPath mode requestId connId).1, [])
  | .unsubscribeConnection key connId => ({ s with manager := s.manager.unsubscribeConnection key connId }, [])
  | .removeConnection connId => ({ s with manager := s.manager.removeConnection connId }, [])
  | .abortRequest requestId => ((s.abortRequest requestId).1, [])
  | .abortPendingResponse requestId => ({ s with manager := (s.manager.abortPendingResponse requestId).1 }, [])
  | .changeModel key change => s.changeModel key change
  | .reloadCompleted future diffs =>
    match s.reloads.get future with
    | none => (s, [])
    | some reload => if reload.aborted then (s, []) else s.endReload future reload diffs
  | .reloadAborted future =>
    match s.reloads.get future with
    | none => (s, [])
    | some reload => if reload.aborted then s.endReload future reload none else (s, [])

def run (s : DiffStateServer P) : List (DiffStateAction P) → DiffStateServer P × List (DiffStateUpdate P)
  | [] => (s, [])
  | action :: actions =>
    let (next, emitted) := s.step action
    let (last, later) := next.run actions
    (last, emitted ++ later)

end DiffStateServer

end InfiniShell.RemoteServer
