import InfiniShell.RepoMetadata.WatcherEvents

namespace InfiniShell.RepoMetadata

open Collections

structure BuildTaskKey (P : Type) where
  ownerRepoPath : P
  targetPath : P
deriving DecidableEq

inductive BuildTaskKind where
  | index
  | directoryLoad
deriving DecidableEq

/-- A tracked build; the handle is the identity of its future, and a waiter the caller that it answers. -/
structure BuildTask where
  kind : BuildTaskKind
  handle : Nat
  completionWaiters : List Nat

inductive RepoMetadataError (P B : Type) where
  | repoNotFound (path : String)
  | invalidPath (reason : String)
  | pathEncodingMismatch (path : P)
  | buildTree (error : B)
  | repositoryNotIndexed

def RepoMetadataError.display {P B : Type} [ToString P] [ToString B] : RepoMetadataError P B → String
  | .repoNotFound path => "Repository not found: " ++ path
  | .invalidPath reason => "Invalid path: " ++ reason
  | .pathEncodingMismatch path => "Path encoding does not match local OS: " ++ toString path
  | .buildTree error => "Build tree error: " ++ toString error
  | .repositoryNotIndexed => "Repository not indexed"

inductive FileTreeEntryState where
  | file
  | directory (path : Nat) (loaded : Bool)

structure FileTrees (P T N : Type) where
  new : N → T
  newLazyLoaded : N → T
  get : T → P → Option FileTreeEntryState
  insertEntryAtPath : T → P → N → T

inductive PathCheck where
  | encodingMismatch
  | missing
  | notDirectory
  | directory

def IndexedRepoState.condition? {C T E : Type} : IndexedRepoState C T E → Option C
  | .pending condition => some condition
  | _ => none

structure LocalRepoMetadataModel (P T B : Type) where
  repositories : AssocMap P (IndexedRepoState Nat T (RepoMetadataError P B))
  lazyLoadedPaths : AssocMap P Nat
  buildTasks : AssocMap (BuildTaskKey P) BuildTask

inductive BuildCallback (P : Type) where
  | lazyIndex (path : P)
  | index (path : P)
  | directoryLoad (repoRoot dirPath : P) (targetUnloaded : Option Nat) (dirWasPresent : Bool) (completion : Nat)

namespace BuildCallback

variable {P : Type}

def key : BuildCallback P → BuildTaskKey P
  | .lazyIndex path => ⟨path, path⟩
  | .index path => ⟨path, path⟩
  | .directoryLoad repoRoot dirPath _ _ _ => ⟨repoRoot, dirPath⟩

def kind : BuildCallback P → BuildTaskKind
  | .lazyIndex _ => .index
  | .index _ => .index
  | .directoryLoad _ _ _ _ _ => .directoryLoad

def completions : BuildCallback P → List Nat
  | .lazyIndex _ => []
  | .index _ => []
  | .directoryLoad _ _ _ _ completion => [completion]

end BuildCallback

/-- The model with the futures it has spawned, the conditions it has set and the callers it has answered. -/
structure Indexing (P T B : Type) where
  model : LocalRepoMetadataModel P T B
  spawned : AssocMap Nat (BuildCallback P)
  aborted : List Nat
  conditionsSet : List Nat
  answers : List (Nat × Except (RepoMetadataError P B) Unit)
  /-- The keys that were tracked although a task was tracked for them. -/
  trackedTwice : List (BuildTaskKey P)
  nextFuture : Nat
  nextCondition : Nat
  nextCaller : Nat

def Indexing.initial {P T B : Type} : Indexing P T B where
  model := ⟨.empty, .empty, .empty⟩
  spawned := .empty
  aborted := []
  conditionsSet := []
  answers := []
  trackedTwice := []
  nextFuture := 0
  nextCondition := 0
  nextCaller := 0

namespace Indexing

variable {P T N B : Type} [DecidableEq P] [ToString P] [ToString B]

section Tasks

variable (s : Indexing P T B)

def abort (handle : Nat) : Indexing P T B := { s with aborted := handle :: s.aborted }

def send (caller : Nat) (result : Except (RepoMetadataError P B) Unit) : Indexing P T B :=
  { s with answers := s.answers ++ [(caller, result)] }

/-- A waiter turns an error text into an invalid path. -/
def notifyCompletionWaiters (waiters : List Nat) (result : Except String Unit) : Indexing P T B :=
  { s with answers := s.answers ++ waiters.map fun waiter => (waiter, result.mapError .invalidPath) }

def trackBuildTask (key : BuildTaskKey P) (kind : BuildTaskKind) (handle : Nat) : Indexing P T B :=
  let tracked :=
    { s with model := { s.model with buildTasks := s.model.buildTasks.insert key ⟨kind, handle, []⟩ } }
  match s.model.buildTasks.get key with
  | none => tracked
  | some existingTask =>
    let aborted := tracked.abort existingTask.handle
    { aborted.notifyCompletionWaiters existingTask.completionWaiters (.error "Build task was superseded") with
      trackedTwice := key :: s.trackedTwice }

def untrack (key : BuildTaskKey P) : Indexing P T B :=
  { s with model := { s.model with buildTasks := s.model.buildTasks.erase key } }

def finishBuildTask (key : BuildTaskKey P) (future : Nat) : Option BuildTask :=
  (s.model.buildTasks.get key).filter fun task => task.handle = future

def addWaiter (key : BuildTaskKey P) (task : BuildTask) : Indexing P T B :=
  let waiting := { task with completionWaiters := task.completionWaiters ++ [s.nextCaller] }
  { s with
    model := { s.model with buildTasks := s.model.buildTasks.insert key waiting }
    nextCaller := s.nextCaller + 1 }

/-- A new caller waits for a directory load that is already running. -/
def subscribeToBuildTask (key : BuildTaskKey P) : Option (Indexing P T B × Nat) :=
  match s.model.buildTasks.get key with
  | none => none
  | some task => if task.kind ≠ .directoryLoad then none else some (s.addWaiter key task, s.nextCaller)

def buildsOf (repoPath : P) : List (BuildTaskKey P × BuildTask) :=
  s.model.buildTasks.entries.filter fun e => e.1.ownerRepoPath = repoPath

def cancelBuild (e : BuildTaskKey P × BuildTask) : Indexing P T B :=
  ((s.untrack e.1).abort e.2.handle).notifyCompletionWaiters e.2.completionWaiters (.error "Build task was cancelled")

def abortBuildsForRepo (repoPath : P) : Indexing P T B := (s.buildsOf repoPath).foldl cancelBuild s

end Tasks

section States

variable (s : Indexing P T B)

def replaceRepositoryState (repoPath : P) (state : IndexedRepoState Nat T (RepoMetadataError P B)) :
    Indexing P T B :=
  { s with
    model := { s.model with repositories := s.model.repositories.insert repoPath state }
    conditionsSet := s.conditionsSet ++ ((s.model.repositories.get repoPath).bind (·.condition?)).toList }

def removeRepositoryState (repoPath : P) : Indexing P T B :=
  { s with
    model := { s.model with repositories := s.model.repositories.erase repoPath }
    conditionsSet := s.conditionsSet ++ ((s.model.repositories.get repoPath).bind (·.condition?)).toList }

def markPending (repoPath : P) : Indexing P T B :=
  { s.replaceRepositoryState repoPath (.pending s.nextCondition) with nextCondition := s.nextCondition + 1 }

def markRepositoryFailed (repoPath : P) (error : RepoMetadataError P B) : Indexing P T B :=
  s.replaceRepositoryState repoPath (.failed error)

def insertLazyLoadedPath (path : P) (refcount : Nat) : Indexing P T B :=
  { s with model := { s.model with lazyLoadedPaths := s.model.lazyLoadedPaths.insert path refcount } }

def eraseLazyLoadedPath (path : P) : Indexing P T B :=
  { s with model := { s.model with lazyLoadedPaths := s.model.lazyLoadedPaths.erase path } }

def startBuild (callback : BuildCallback P) : Indexing P T B :=
  { s with
    spawned := s.spawned.insert s.nextFuture callback
    nextFuture := s.nextFuture + 1 }.trackBuildTask callback.key callback.kind s.nextFuture

def checkPath (path : P) (notDirectory : String) : PathCheck → Except (RepoMetadataError P B) Unit
  | .encodingMismatch => .error (.pathEncodingMismatch path)
  | .missing => .error (.repoNotFound (toString path))
  | .notDirectory => .error (.invalidPath notDirectory)
  | .directory => .ok ()

def addRepositoryInternal (repoPath : P) (state : T) (check : PathCheck) :
    Except (RepoMetadataError P B) (Indexing P T B) :=
  (checkPath repoPath "Repository path must be a directory" check).map fun _ =>
    s.replaceRepositoryState repoPath (.indexed state)

end States

section Operations

variable (s : Indexing P T B)

def removeRepository (repoPath : P) : Indexing P T B × Except (RepoMetadataError P B) Unit :=
  match s.model.repositories.get repoPath with
  | none => (s, .error (.repoNotFound (toString repoPath)))
  | some _ => ((s.abortBuildsForRepo repoPath).removeRepositoryState repoPath, .ok ())

def indexLazyLoadedPath (path : P) (check : PathCheck) : Indexing P T B × Except (RepoMetadataError P B) Unit :=
  match s.model.lazyLoadedPaths.get path with
  | some refcount => (s.insertLazyLoadedPath path (refcount + 1), .ok ())
  | none =>
    match s.model.repositories.get path with
    | some (.indexed _) => (s, .ok ())
    | some (.pending _) => (s, .ok ())
    | _ =>
      match checkPath path "Path must be a directory" check with
      | .error error => (s, .error error)
      | .ok _ => (((s.insertLazyLoadedPath path 1).markPending path).startBuild (.lazyIndex path), .ok ())

def removeLazyLoadedPath (path : P) : Indexing P T B :=
  match s.model.lazyLoadedPaths.get path with
  | none => s
  | some refcount =>
    if 1 < refcount then s.insertLazyLoadedPath path (refcount - 1)
    else ((s.eraseLazyLoadedPath path).removeRepository path).1

def takeOver (repoPath : P) : Option (Indexing P T B) :=
  match s.model.repositories.get repoPath with
  | some (.indexed _) => if s.model.lazyLoadedPaths.contains repoPath then some (s.eraseLazyLoadedPath repoPath) else none
  | some (.pending _) => if s.model.lazyLoadedPaths.contains repoPath then some (s.eraseLazyLoadedPath repoPath) else none
  | some (.failed _) => some s
  | none => some s

def keepPending (repoPath : P) : Indexing P T B :=
  match s.model.repositories.get repoPath with
  | some (.pending _) => s
  | _ => s.markPending repoPath

def indexDirectory (repoPath : P) (check : PathCheck) : Indexing P T B × Except (RepoMetadataError P B) Unit :=
  match checkPath repoPath "Repository path must be a directory" check with
  | .error error => (s, .error error)
  | .ok _ =>
    match s.takeOver repoPath with
    | none => (s, .ok ())
    | some s => (((s.abortBuildsForRepo repoPath).keepPending repoPath).startBuild (.index repoPath), .ok ())

/-- The allocation of a directory that is not loaded yet. -/
def unloadedDirectory : Option FileTreeEntryState → Option Nat
  | some (.directory path false) => some path
  | _ => none

def loadDirectoryWithCompletion (trees : FileTrees P T N) (repoRoot dirPath : P) :
    Indexing P T B × Except (RepoMetadataError P B) Nat :=
  match s.subscribeToBuildTask ⟨repoRoot, dirPath⟩ with
  | some (s, caller) => (s, .ok caller)
  | none =>
    match s.model.repositories.get repoRoot with
    | some (.indexed tree) =>
      ({ s with nextCaller := s.nextCaller + 1 }.startBuild
        (.directoryLoad repoRoot dirPath (unloadedDirectory (trees.get tree dirPath)) (trees.get tree dirPath).isSome
          s.nextCaller), .ok s.nextCaller)
    | _ => (s, .error (.repoNotFound (toString repoRoot)))

end Operations

section Completions

variable (s : Indexing P T B) (trees : FileTrees P T N)

/-- How a future ends: it was stopped, or the build gave a result, after which the path is checked again. -/
inductive Outcome (N B : Type) where
  | stopped
  | built (result : Except B N) (check : PathCheck)

def completeLazyIndex (path : P) (result : Except B N) (check : PathCheck) : Indexing P T B :=
  if s.model.lazyLoadedPaths.contains path then
    match result with
    | .ok rootEntry =>
      match s.addRepositoryInternal path (trees.newLazyLoaded rootEntry) check with
      | .ok s => s
      | .error error => (s.eraseLazyLoadedPath path).markRepositoryFailed path error
    | .error error => (s.eraseLazyLoadedPath path).markRepositoryFailed path (.buildTree error)
  else s

def completeIndex (path : P) (result : Except B N) (check : PathCheck) : Indexing P T B :=
  match result with
  | .ok rootEntry =>
    match s.addRepositoryInternal path (trees.new rootEntry) check with
    | .ok s => s
    | .error error => s.markRepositoryFailed path error
  | .error error => s.markRepositoryFailed path (.buildTree error)

/-- A load is only applied to the directory that was there when it began. -/
def targetStillAcceptsLoad (tree : T) (dirPath : P) (targetUnloaded : Option Nat) (dirWasPresent : Bool) : Bool :=
  match targetUnloaded with
  | some expected => unloadedDirectory (trees.get tree dirPath) = some expected
  | none => !dirWasPresent || (trees.get tree dirPath).isSome

def updateTree (repoRoot : P) (tree : T) : Indexing P T B :=
  { s with model := { s.model with repositories := s.model.repositories.insert repoRoot (.indexed tree) } }

def applyLoad (repoRoot dirPath : P) (targetUnloaded : Option Nat) (dirWasPresent : Bool) (result : Except B N) :
    Indexing P T B × Except (RepoMetadataError P B) Unit :=
  match result with
  | .error error => (s, .error (.buildTree error))
  | .ok entry =>
    match s.model.repositories.get repoRoot with
    | some (.indexed tree) =>
      if targetStillAcceptsLoad trees tree dirPath targetUnloaded dirWasPresent then
        (s.updateTree repoRoot (trees.insertEntryAtPath tree dirPath entry), .ok ())
      else (s, .error (.invalidPath ("Directory load target changed while loading: " ++ toString dirPath)))
    | _ => (s, .error (.repoNotFound (toString repoRoot)))

def runCallback (future : Nat) (callback : BuildCallback P) (result : Except B N) (check : PathCheck) :
    Indexing P T B :=
  match callback, s.finishBuildTask callback.key future with
  | .lazyIndex _, none => s
  | .index _, none => s
  | .directoryLoad _ _ _ _ completion, none => s.send completion (.error .repositoryNotIndexed)
  | .lazyIndex path, some _ => (s.untrack callback.key).completeLazyIndex trees path result check
  | .index path, some _ => (s.untrack callback.key).completeIndex trees path result check
  | .directoryLoad repoRoot dirPath targetUnloaded dirWasPresent completion, some task =>
    let (s, completed) := (s.untrack callback.key).applyLoad trees repoRoot dirPath targetUnloaded dirWasPresent result
    (s.notifyCompletionWaiters task.completionWaiters (completed.mapError RepoMetadataError.display)).send
      completion completed

/-- The callback of a future that is stopped is dropped; its caller reads that as a repository that is not indexed. -/
def dropCallback (callback : BuildCallback P) : Indexing P T B :=
  callback.completions.foldl (fun s completion => s.send completion (.error .repositoryNotIndexed)) s

/-- A future ends once; it is only stopped where it was aborted, but may still end by itself then. -/
def complete (future : Nat) (outcome : Outcome N B) : Indexing P T B :=
  match s.spawned.get future, outcome with
  | none, _ => s
  | some callback, .stopped =>
    if future ∈ s.aborted then { s with spawned := s.spawned.erase future }.dropCallback callback else s
  | some callback, .built result check =>
    { s with spawned := s.spawned.erase future }.runCallback trees future callback result check

end Completions

inductive Op (P N B : Type) where
  | indexLazyLoadedPath (path : P) (check : PathCheck)
  | removeLazyLoadedPath (path : P)
  | indexDirectory (repoPath : P) (check : PathCheck)
  | loadDirectoryWithCompletion (repoRoot dirPath : P)
  | removeRepository (repoPath : P)
  | complete (future : Nat) (outcome : Outcome N B)

def step (trees : FileTrees P T N) (s : Indexing P T B) : Op P N B → Indexing P T B
  | .indexLazyLoadedPath path check => (s.indexLazyLoadedPath path check).1
  | .removeLazyLoadedPath path => s.removeLazyLoadedPath path
  | .indexDirectory repoPath check => (s.indexDirectory repoPath check).1
  | .loadDirectoryWithCompletion repoRoot dirPath => (s.loadDirectoryWithCompletion trees repoRoot dirPath).1
  | .removeRepository repoPath => (s.removeRepository repoPath).1
  | .complete future outcome => s.complete trees future outcome

def run (trees : FileTrees P T N) (ops : List (Op P N B)) : Indexing P T B := ops.foldl (step trees) initial

/-- The condition that a call of `repository_indexed` waits for, if any. -/
def repositoryIndexed (s : Indexing P T B) (repoPath : P) : Option Nat :=
  (s.model.repositories.get repoPath).bind (·.condition?)

end Indexing

end InfiniShell.RepoMetadata
