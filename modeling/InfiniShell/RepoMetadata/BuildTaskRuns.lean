import InfiniShell.RepoMetadata.BuildTasks

namespace InfiniShell.RepoMetadata

open Collections

namespace Indexing

variable {P T N B : Type} [DecidableEq P]

section Coherence

def Serves (model : LocalRepoMetadataModel P T B) : BuildCallback P → Prop
  | .lazyIndex path => model.lazyLoadedPaths.contains path = true ∧
      ∃ condition, model.repositories.get path = some (.pending condition)
  | .index path => ∃ condition, model.repositories.get path = some (.pending condition)
  | .directoryLoad repoRoot _ _ _ _ => ∃ tree, model.repositories.get repoRoot = some (.indexed tree)

/-- The future of a tracked task is still running, for the key under which the task is tracked. -/
structure Running (model : LocalRepoMetadataModel P T B) (spawned : AssocMap Nat (BuildCallback P))
    (aborted : List Nat) (key : BuildTaskKey P) (task : BuildTask) (callback : BuildCallback P) : Prop where
  spawned : spawned.get task.handle = some callback
  key : callback.key = key
  kind : callback.kind = task.kind
  notAborted : task.handle ∉ aborted
  serves : Serves model callback
  waiters : task.kind = .index → task.completionWaiters = []

structure CoherentParts (model : LocalRepoMetadataModel P T B) (spawned : AssocMap Nat (BuildCallback P))
    (aborted : List Nat) (trackedTwice : List (BuildTaskKey P)) (nextFuture : Nat) (loose : P → Prop) : Prop where
  tasks : ∀ key task, model.buildTasks.get key = some task → ∃ callback, Running model spawned aborted key task callback
  pending : ∀ path condition, ¬ loose path → model.repositories.get path = some (.pending condition) →
    ∃ task, model.buildTasks.get ⟨path, path⟩ = some task ∧ task.kind = .index
  spawnedFresh : ∀ future callback, spawned.get future = some callback → future < nextFuture
  abortedFresh : ∀ future ∈ aborted, future < nextFuture
  once : trackedTwice = []

/-- Every tracked task is running, and every pending repository but the loose ones has a task that indexes it. -/
abbrev Coherent (s : Indexing P T B) (loose : P → Prop) : Prop :=
  CoherentParts s.model s.spawned s.aborted s.trackedTwice s.nextFuture loose

def Idle (s : Indexing P T B) (path : P) : Prop :=
  ∀ key task, s.model.buildTasks.get key = some task → key.ownerRepoPath ≠ path

variable {s : Indexing P T B} {loose : P → Prop}

theorem Serves.congr {model other : LocalRepoMetadataModel P T B} {callback : BuildCallback P}
    (h : Serves model callback)
    (hrepository : other.repositories.get callback.key.ownerRepoPath =
      model.repositories.get callback.key.ownerRepoPath)
    (hlazy : model.lazyLoadedPaths.contains callback.key.ownerRepoPath = true →
      other.lazyLoadedPaths.contains callback.key.ownerRepoPath = true) : Serves other callback := by
  cases callback with
  | lazyIndex path =>
    obtain ⟨hcontains, condition, hpending⟩ := h
    exact ⟨hlazy hcontains, condition, hrepository.trans hpending⟩
  | index path =>
    obtain ⟨condition, hpending⟩ := h
    exact ⟨condition, hrepository.trans hpending⟩
  | directoryLoad repoRoot dirPath targetUnloaded dirWasPresent completion =>
    obtain ⟨tree, hindexed⟩ := h
    exact ⟨tree, hrepository.trans hindexed⟩

variable {key other : BuildTaskKey P}

theorem CoherentParts.handle_inj (h : s.Coherent loose) {task task' : BuildTask}
    (hkey : s.model.buildTasks.get key = some task) (hother : s.model.buildTasks.get other = some task')
    (hhandle : task.handle = task'.handle) : key = other := by
  obtain ⟨callback, hrunning⟩ := h.tasks key task hkey
  obtain ⟨callback', hrunning'⟩ := h.tasks other task' hother
  have hsame := hrunning.spawned
  rw [hhandle, hrunning'.spawned] at hsame
  rw [← hrunning.key, ← hrunning'.key, Option.some.inj hsame]

variable {loose' : P → Prop}

theorem CoherentParts.mono (h : s.Coherent loose) (hle : ∀ path, loose path → loose' path) :
    s.Coherent loose' :=
  { h with pending := fun path condition hnot => h.pending path condition (mt (hle path) hnot) }

theorem get_untrack (s : Indexing P T B) (key other : BuildTaskKey P) :
    (s.untrack key).model.buildTasks.get other = if other = key then none else s.model.buildTasks.get other :=
  AssocMap.get_erase _ _ _

theorem get_untrack_some {task : BuildTask} (h : (s.untrack key).model.buildTasks.get other = some task) :
    other ≠ key ∧ s.model.buildTasks.get other = some task := by
  rw [get_untrack] at h
  split at h
  next => cases h
  next hne => exact ⟨hne, h⟩

theorem CoherentParts.untrack (h : s.Coherent loose) (key : BuildTaskKey P)
    (hle : ∀ path, loose path → loose' path)
    (hloose : ∀ path task, key = ⟨path, path⟩ → s.model.buildTasks.get key = some task → task.kind = .index →
      loose' path) : (s.untrack key).Coherent loose' where
  tasks other task hother := by
    obtain ⟨-, hold⟩ := get_untrack_some hother
    obtain ⟨callback, hrunning⟩ := h.tasks other task hold
    exact ⟨callback, hrunning.1, hrunning.2, hrunning.3, hrunning.4, hrunning.5.congr rfl id, hrunning.6⟩
  pending path condition hnot hpending := by
    obtain ⟨task, htask, hkind⟩ := h.pending path condition (mt (hle path) hnot) hpending
    refine ⟨task, ?_, hkind⟩
    rw [get_untrack, if_neg]
    · exact htask
    · rintro rfl
      exact hnot (hloose path task rfl htask hkind)
  spawnedFresh := h.spawnedFresh
  abortedFresh := h.abortedFresh
  once := h.once

theorem CoherentParts.abort (h : s.Coherent loose) {handle : Nat} (hfresh : handle < s.nextFuture)
    (huntracked : ∀ key task, s.model.buildTasks.get key = some task → task.handle ≠ handle) :
    (s.abort handle).Coherent loose where
  tasks key task hkey := by
    obtain ⟨callback, hrunning⟩ := h.tasks key task hkey
    refine ⟨callback, { hrunning with notAborted := ?_ }⟩
    exact List.not_mem_cons_of_ne_of_not_mem (huntracked key task hkey) hrunning.notAborted
  pending := h.pending
  spawnedFresh := h.spawnedFresh
  abortedFresh := List.forall_mem_cons.mpr ⟨hfresh, h.abortedFresh⟩
  once := h.once

def unspawn (s : Indexing P T B) (future : Nat) : Indexing P T B := { s with spawned := s.spawned.erase future }

theorem CoherentParts.unspawn (h : s.Coherent loose) {future : Nat}
    (huntracked : ∀ key task, s.model.buildTasks.get key = some task → task.handle ≠ future) :
    (s.unspawn future).Coherent loose where
  tasks key task hkey := by
    obtain ⟨callback, hrunning⟩ := h.tasks key task hkey
    refine ⟨callback, { hrunning with spawned := ?_ }⟩
    change (s.spawned.erase future).get task.handle = some callback
    rw [AssocMap.get_erase, if_neg (huntracked key task hkey)]
    exact hrunning.spawned
  pending := h.pending
  spawnedFresh other callback hother := by
    change (s.spawned.erase future).get other = some callback at hother
    rw [AssocMap.get_erase] at hother
    split at hother
    next => cases hother
    next => exact h.spawnedFresh other callback hother
  abortedFresh := h.abortedFresh
  once := h.once

end Coherence

section States

variable {s : Indexing P T B} {loose : P → Prop} {key : BuildTaskKey P} {task : BuildTask}

theorem CoherentParts.owner (h : s.Coherent loose)
    (hkey : s.model.buildTasks.get key = some task) : ∃ callback,
      Running s.model s.spawned s.aborted key task callback ∧ callback.key.ownerRepoPath = key.ownerRepoPath := by
  obtain ⟨callback, hrunning⟩ := h.tasks key task hkey
  exact ⟨callback, hrunning, congrArg _ hrunning.key⟩

variable {path : P} {loose' : P → Prop}

section

variable (h : s.Coherent loose)
include h

theorem CoherentParts.replaceRepositoryState (hidle : s.Idle path)
    (state : IndexedRepoState Nat T (RepoMetadataError P B))
    (hle : ∀ other, loose other → other ≠ path → loose' other) (hpending : state.condition?.isSome → loose' path) :
    (s.replaceRepositoryState path state).Coherent loose' where
  tasks key task hkey := by
    obtain ⟨callback, hrunning, howner⟩ := h.owner hkey
    refine ⟨callback, { hrunning with serves := ?_ }⟩
    apply hrunning.serves.congr
    · rw [howner]
      exact (AssocMap.get_insert _ _ _ _).trans (if_neg (hidle key task hkey))
    · exact id
  pending other condition hnot hother := by
    change (s.model.repositories.insert path state).get other = _ at hother
    rw [AssocMap.get_insert] at hother
    split at hother
    next heq =>
      apply absurd _ hnot
      rw [heq]
      apply hpending
      rw [Option.some.inj hother]
      rfl
    next hne => exact h.pending other condition (fun hloose => hnot (hle other hloose hne)) hother
  spawnedFresh := h.spawnedFresh
  abortedFresh := h.abortedFresh
  once := h.once

theorem CoherentParts.removeRepositoryState (hidle : s.Idle path) (hle : ∀ other, loose other → other ≠ path → loose' other) :
    (s.removeRepositoryState path).Coherent loose' where
  tasks key task hkey := by
    obtain ⟨callback, hrunning, howner⟩ := h.owner hkey
    refine ⟨callback, { hrunning with serves := ?_ }⟩
    apply hrunning.serves.congr
    · rw [howner]
      exact (AssocMap.get_erase _ _ _).trans (if_neg (hidle key task hkey))
    · exact id
  pending other condition hnot hother := by
    change (s.model.repositories.erase path).get other = _ at hother
    rw [AssocMap.get_erase] at hother
    split at hother
    next => cases hother
    next hne => exact h.pending other condition (fun hloose => hnot (hle other hloose hne)) hother
  spawnedFresh := h.spawnedFresh
  abortedFresh := h.abortedFresh
  once := h.once

theorem CoherentParts.updateTree {repoRoot : P} {old : T}
    (hindexed : s.model.repositories.get repoRoot = some (.indexed old)) (tree : T) :
    (s.updateTree repoRoot tree).Coherent loose where
  tasks key task hkey := by
    obtain ⟨callback, hrunning, howner⟩ := h.owner hkey
    refine ⟨callback, { hrunning with serves := ?_ }⟩
    by_cases hroot : callback.key.ownerRepoPath = repoRoot
    · have hserves := hrunning.serves
      cases callback with
      | lazyIndex path =>
        obtain ⟨-, condition, hpending⟩ := hserves
        change path = repoRoot at hroot
        rw [hroot, hindexed] at hpending
        cases hpending
      | index path =>
        obtain ⟨condition, hpending⟩ := hserves
        change path = repoRoot at hroot
        rw [hroot, hindexed] at hpending
        cases hpending
      | directoryLoad root dirPath targetUnloaded dirWasPresent completion =>
        exact ⟨tree, (AssocMap.get_insert _ _ _ _).trans (if_pos hroot)⟩
    · exact hrunning.serves.congr ((AssocMap.get_insert _ _ _ _).trans (if_neg hroot)) id
  pending path condition hnot hpending := by
    change (s.model.repositories.insert repoRoot _).get path = _ at hpending
    rw [AssocMap.get_insert] at hpending
    split at hpending
    next => cases hpending
    next => exact h.pending path condition hnot hpending
  spawnedFresh := h.spawnedFresh
  abortedFresh := h.abortedFresh
  once := h.once

theorem CoherentParts.insertLazyLoadedPath (path : P) (refcount : Nat) :
    (s.insertLazyLoadedPath path refcount).Coherent loose where
  tasks key task hkey := by
    obtain ⟨callback, hrunning⟩ := h.tasks key task hkey
    refine ⟨callback, { hrunning with serves := hrunning.serves.congr rfl ?_ }⟩
    intro hcontains
    change ((s.model.lazyLoadedPaths.insert path refcount).get _).isSome = true
    rw [AssocMap.get_insert]
    split
    · rfl
    · exact hcontains
  pending := h.pending
  spawnedFresh := h.spawnedFresh
  abortedFresh := h.abortedFresh
  once := h.once

theorem CoherentParts.eraseLazyLoadedPath (hidle : s.Idle path) :
    (s.eraseLazyLoadedPath path).Coherent loose where
  tasks key task hkey := by
    obtain ⟨callback, hrunning, howner⟩ := h.owner hkey
    refine ⟨callback, { hrunning with serves := hrunning.serves.congr rfl ?_ }⟩
    intro hcontains
    change ((s.model.lazyLoadedPaths.erase path).get _).isSome = true
    rw [AssocMap.get_erase, if_neg]
    · exact hcontains
    · rw [howner]
      exact hidle key task hkey
  pending := h.pending
  spawnedFresh := h.spawnedFresh
  abortedFresh := h.abortedFresh
  once := h.once

end

theorem trackBuildTask_new (h : s.model.buildTasks.get key = none) (kind : BuildTaskKind)
    (handle : Nat) : s.trackBuildTask key kind handle =
      { s with model := { s.model with buildTasks := s.model.buildTasks.insert key ⟨kind, handle, []⟩ } } := by
  unfold trackBuildTask
  rw [h]

theorem CoherentParts.startBuild (h : s.Coherent loose) {callback : BuildCallback P}
    (hnew : s.model.buildTasks.get callback.key = none) (hserves : Serves s.model callback)
    (hle : ∀ path, loose path → loose' path ∨ callback.key = ⟨path, path⟩ ∧ callback.kind = .index) :
    (s.startBuild callback).Coherent loose' := by
  have hstart : s.startBuild callback =
      { s with
        model := { s.model with
          buildTasks := s.model.buildTasks.insert callback.key ⟨callback.kind, s.nextFuture, []⟩ }
        spawned := s.spawned.insert s.nextFuture callback
        nextFuture := s.nextFuture + 1 } := by
    unfold Indexing.startBuild
    rw [trackBuildTask_new (by exact hnew)]
  rw [hstart]
  constructor
  · intro key task hkey
    change (s.model.buildTasks.insert _ _).get key = some task at hkey
    obtain ⟨rfl, rfl⟩ | hold := AssocMap.get_insert_cases hkey
    · refine ⟨callback, ⟨?_, rfl, rfl, ?_, hserves.congr rfl id, fun _ => rfl⟩⟩
      · exact (AssocMap.get_insert _ _ _ _).trans (if_pos rfl)
      · exact fun hmem => Nat.lt_irrefl _ (h.abortedFresh _ hmem)
    · obtain ⟨other, hrunning⟩ := h.tasks key task hold
      refine ⟨other, ⟨?_, hrunning.2, hrunning.3, hrunning.4, hrunning.5.congr rfl id, hrunning.6⟩⟩
      refine (AssocMap.get_insert _ _ _ _).trans ((if_neg ?_).trans hrunning.spawned)
      exact Nat.ne_of_lt (h.spawnedFresh _ _ hrunning.spawned)
  · intro path condition hnot hpending
    by_cases hloose : loose path
    · obtain hl | ⟨hkey, hkind⟩ := hle path hloose
      · exact absurd hl hnot
      · refine ⟨⟨callback.kind, s.nextFuture, []⟩, ?_, hkind⟩
        exact (AssocMap.get_insert _ _ _ _).trans (if_pos hkey.symm)
    · obtain ⟨task, htask, hkind⟩ := h.pending path condition hloose hpending
      refine ⟨task, ?_, hkind⟩
      refine (AssocMap.get_insert _ _ _ _).trans ((if_neg ?_).trans htask)
      intro heq
      rw [heq, hnew] at htask
      cases htask
  · intro future other hother
    change (s.spawned.insert _ _).get future = some other at hother
    obtain ⟨rfl, rfl⟩ | hold := AssocMap.get_insert_cases hother
    · exact Nat.lt_succ_self _
    · exact Nat.lt_succ_of_lt (h.spawnedFresh future other hold)
  · intro future hmem
    exact Nat.lt_succ_of_lt (h.abortedFresh future hmem)
  · exact h.once

theorem subscribeToBuildTask_eq_some {result : Indexing P T B × Nat}
    (h : s.subscribeToBuildTask key = some result) : ∃ task, s.model.buildTasks.get key = some task ∧
      task.kind = .directoryLoad ∧ result = (s.addWaiter key task, s.nextCaller) := by
  unfold subscribeToBuildTask at h
  split at h
  next => cases h
  next task htask =>
    split at h
    next => cases h
    next hkind => exact ⟨task, htask, Classical.not_not.mp hkind, (Option.some.inj h).symm⟩

theorem CoherentParts.addWaiter (h : s.Coherent loose)
    (htask : s.model.buildTasks.get key = some task) (hkind : task.kind = .directoryLoad) :
    (s.addWaiter key task).Coherent loose where
  tasks other task' hother := by
    change (s.model.buildTasks.insert _ _).get other = some task' at hother
    obtain ⟨rfl, rfl⟩ | hold := AssocMap.get_insert_cases hother
    · obtain ⟨callback, hrunning⟩ := h.tasks other task htask
      refine ⟨callback, hrunning.1, hrunning.2, hrunning.3, hrunning.4, hrunning.5.congr rfl id, ?_⟩
      intro hindex
      exact absurd (hkind.symm.trans hindex) nofun
    · obtain ⟨callback, hrunning⟩ := h.tasks other task' hold
      exact ⟨callback, hrunning.1, hrunning.2, hrunning.3, hrunning.4, hrunning.5.congr rfl id, hrunning.6⟩
  pending path condition hnot hpending := by
    obtain ⟨task', htask', hindex⟩ := h.pending path condition hnot hpending
    refine ⟨task', ?_, hindex⟩
    refine (AssocMap.get_insert _ _ _ _).trans ((if_neg ?_).trans htask')
    intro heq
    rw [heq, htask] at htask'
    rw [← Option.some.inj htask', hkind] at hindex
    cases hindex
  spawnedFresh := h.spawnedFresh
  abortedFresh := h.abortedFresh
  once := h.once

end States

section Cancelled

variable {s : Indexing P T B} {loose : P → Prop}

theorem get_cancelBuild (s : Indexing P T B) (e : BuildTaskKey P × BuildTask) (key : BuildTaskKey P) :
    (s.cancelBuild e).model.buildTasks.get key = if key = e.1 then none else s.model.buildTasks.get key :=
  AssocMap.get_erase _ _ _

variable {motive : Indexing P T B → Prop} {l : List (BuildTaskKey P × BuildTask)}

theorem foldl_cancelBuild_induction
    (hnodup : (l.map Prod.fst).Nodup) (htracked : ∀ e ∈ l, s.model.buildTasks.get e.1 = some e.2) (hstart : motive s)
    (hstep : ∀ s' : Indexing P T B, ∀ e ∈ l, motive s' → s'.model.buildTasks.get e.1 = some e.2 →
      motive (s'.cancelBuild e)) : motive (l.foldl cancelBuild s) := by
  induction l generalizing s with
  | nil => exact hstart
  | cons e l ih =>
    obtain ⟨hnew, hrest⟩ := List.nodup_cons.mp hnodup
    obtain ⟨hhead, htail⟩ := List.forall_mem_cons.mp htracked
    apply ih hrest
    · intro e' he'
      rw [get_cancelBuild, if_neg]
      · exact htail e' he'
      · rintro heq
        apply hnew
        rw [← heq]
        exact List.mem_map_of_mem he'
    · exact hstep s e List.mem_cons_self hstart hhead
    · intro s' e' he'
      exact hstep s' e' (List.mem_cons_of_mem e he')

theorem abortBuildsForRepo_induction {repoPath : P} (hstart : motive s)
    (hstep : ∀ s' key task, motive s' → s'.model.buildTasks.get key = some task → key.ownerRepoPath = repoPath →
      motive (s'.cancelBuild (key, task))) : motive (s.abortBuildsForRepo repoPath) := by
  apply foldl_cancelBuild_induction _ _ hstart
  · intro s' e he hmotive hget
    exact hstep s' e.1 e.2 hmotive hget (of_decide_eq_true (List.mem_filter.mp he).2)
  · exact AssocMap.nodup_filter _ s.model.buildTasks.nodup
  · intro e he
    exact AssocMap.get_eq_some_iff.mpr (List.mem_filter.mp he).1

theorem foldl_cancelBuild_untracked {key : BuildTaskKey P}
    (h : s.model.buildTasks.get key = none ∨ key ∈ l.map Prod.fst) :
    (l.foldl cancelBuild s).model.buildTasks.get key = none := by
  induction l generalizing s with
  | nil => exact h.resolve_right List.not_mem_nil
  | cons e l ih =>
    apply ih
    rw [get_cancelBuild]
    by_cases heq : key = e.1
    · exact .inl (if_pos heq)
    · rw [if_neg heq]
      apply h.imp_right
      intro hmem
      exact (List.mem_cons.mp hmem).resolve_left heq

theorem abortBuildsForRepo_idle (s : Indexing P T B) (repoPath : P) : (s.abortBuildsForRepo repoPath).Idle repoPath := by
  intro key task hkey howner
  have hnone : (s.abortBuildsForRepo repoPath).model.buildTasks.get key = none := by
    apply foldl_cancelBuild_untracked
    cases hget : s.model.buildTasks.get key with
    | none => exact .inl rfl
    | some old =>
      refine .inr (List.mem_map.mpr ⟨(key, old), List.mem_filter.mpr ⟨AssocMap.get_eq_some_iff.mp hget, ?_⟩, rfl⟩)
      exact decide_eq_true howner
  rw [hkey] at hnone
  cases hnone

theorem CoherentParts.abortBuildsForRepo (h : s.Coherent loose) (repoPath : P) :
    (s.abortBuildsForRepo repoPath).Coherent fun path => loose path ∨ path = repoPath := by
  apply abortBuildsForRepo_induction (motive := fun s' => s'.Coherent fun path => loose path ∨ path = repoPath)
    (h.mono fun path => .inl)
  intro s' key task hs' hkey howner
  obtain ⟨callback, hrunning⟩ := hs'.tasks key task hkey
  have huntracked : (s'.untrack key).Coherent fun path => loose path ∨ path = repoPath := by
    apply hs'.untrack key (fun path hloose => hloose)
    rintro path task' rfl - -
    exact .inr howner
  apply huntracked.abort (hs'.spawnedFresh _ _ hrunning.spawned)
  intro other task' hother hhandle
  obtain ⟨hne, hold⟩ := get_untrack_some hother
  exact hne (hs'.handle_inj hold hkey hhandle)

end Cancelled

section Steady

variable {s : Indexing P T B}

/-- Every tracked task is running, and every pending repository has a task that indexes it. -/
abbrev Steady (s : Indexing P T B) : Prop := s.Coherent fun _ => False

variable {path : P}

theorem CoherentParts.steady (h : s.Coherent (· = path)) {state : IndexedRepoState Nat T (RepoMetadataError P B)}
    (hidle : s.Idle path) (hstate : state.condition? = none) : (s.replaceRepositoryState path state).Steady := by
  apply h.replaceRepositoryState hidle state (fun other hother hne => hne hother)
  rw [hstate]
  exact nofun

theorem CoherentParts.idle (h : s.Steady)
    (hpending : ∀ condition, s.model.repositories.get path ≠ some (.pending condition))
    (hindexed : ∀ tree, s.model.repositories.get path ≠ some (.indexed tree)) : s.Idle path := by
  intro key task hkey howner
  obtain ⟨callback, hrunning, hcallback⟩ := h.owner hkey
  have hserves := hrunning.serves
  rw [howner] at hcallback
  cases callback with
  | lazyIndex other =>
    obtain ⟨-, condition, hother⟩ := hserves
    exact hpending condition (hcallback ▸ hother)
  | index other =>
    obtain ⟨condition, hother⟩ := hserves
    exact hpending condition (hcallback ▸ hother)
  | directoryLoad repoRoot dirPath targetUnloaded dirWasPresent completion =>
    obtain ⟨tree, hother⟩ := hserves
    exact hindexed tree (hcallback ▸ hother)

theorem abortBuildsForRepo_erase (s : Indexing P T B) (path repoPath : P) :
    (s.eraseLazyLoadedPath path).abortBuildsForRepo repoPath =
      (s.abortBuildsForRepo repoPath).eraseLazyLoadedPath path :=
  List.foldl_hom (fun s : Indexing P T B => s.eraseLazyLoadedPath path) fun _ _ => rfl

theorem CoherentParts.startIndex (h : s.Coherent (· = path)) (hidle : s.Idle path)
    {callback : BuildCallback P} (hkey : callback.key = ⟨path, path⟩) (hkind : callback.kind = .index)
    (hserves : Serves s.model callback) : (s.startBuild callback).Steady := by
  apply h.startBuild _ hserves
  · rintro other rfl
    exact .inr ⟨hkey, hkind⟩
  · cases hget : s.model.buildTasks.get callback.key with
    | none => rfl
    | some task =>
      apply absurd _ (hidle _ _ hget)
      rw [hkey]

theorem get_markPending (s : Indexing P T B) (path : P) :
    (s.markPending path).model.repositories.get path = some (.pending s.nextCondition) :=
  (AssocMap.get_insert _ _ _ _).trans (if_pos rfl)

theorem CoherentParts.markPending {loose : P → Prop} (h : s.Coherent loose) (hidle : s.Idle path)
    (hle : ∀ other, loose other → other = path) : (s.markPending path).Coherent (· = path) :=
  h.replaceRepositoryState hidle (.pending s.nextCondition) (fun other hother _ => hle other hother) fun _ => rfl

variable {s' : Indexing P T B} {repoPath : P}

theorem takeOver_eq_some (h : s.takeOver repoPath = some s') :
    s' = s ∨ s' = s.eraseLazyLoadedPath repoPath := by
  unfold takeOver at h
  split at h
  next =>
    split at h
    · exact .inr (Option.some.inj h).symm
    · cases h
  next =>
    split at h
    · exact .inr (Option.some.inj h).symm
    · cases h
  next => exact .inl (Option.some.inj h).symm
  next => exact .inl (Option.some.inj h).symm

theorem keepPending_spec (h : s.Coherent (· = path)) (hidle : s.Idle path) :
    (s.keepPending path).Coherent (· = path) ∧ (s.keepPending path).Idle path ∧
      ∃ condition, (s.keepPending path).model.repositories.get path = some (.pending condition) := by
  unfold keepPending
  split
  next condition hpending => exact ⟨h, hidle, condition, hpending⟩
  next => exact ⟨h.markPending hidle fun _ => id, hidle, _, get_markPending s path⟩

theorem CoherentParts.load_untracked (h : s.Steady) {repoRoot dirPath : P} {tree : T}
    (hsubscribe : s.subscribeToBuildTask ⟨repoRoot, dirPath⟩ = none)
    (hindexed : s.model.repositories.get repoRoot = some (.indexed tree)) :
    s.model.buildTasks.get ⟨repoRoot, dirPath⟩ = none := by
  cases hget : s.model.buildTasks.get ⟨repoRoot, dirPath⟩ with
  | none => rfl
  | some task =>
    obtain ⟨callback, hrunning⟩ := h.tasks _ task hget
    have hkey := congrArg BuildTaskKey.ownerRepoPath hrunning.key
    have hserves := hrunning.serves
    have hkind := hrunning.kind
    cases callback with
    | lazyIndex path =>
      obtain ⟨-, condition, hpending⟩ := hserves
      change path = repoRoot at hkey
      rw [hkey, hindexed] at hpending
      cases hpending
    | index path =>
      obtain ⟨condition, hpending⟩ := hserves
      change path = repoRoot at hkey
      rw [hkey, hindexed] at hpending
      cases hpending
    | directoryLoad root dir targetUnloaded dirWasPresent completion =>
      unfold subscribeToBuildTask at hsubscribe
      rw [hget] at hsubscribe
      simp only at hsubscribe
      rw [if_neg (fun hne => hne hkind.symm)] at hsubscribe
      cases hsubscribe

theorem CoherentParts.takenOver (h : s.Steady) (htake : s.takeOver repoPath = some s') :
    ((s'.abortBuildsForRepo repoPath).keepPending repoPath).Coherent (· = repoPath) ∧
      ((s'.abortBuildsForRepo repoPath).keepPending repoPath).Idle repoPath ∧ ∃ condition,
        ((s'.abortBuildsForRepo repoPath).keepPending repoPath).model.repositories.get repoPath =
          some (.pending condition) := by
  have hidle := abortBuildsForRepo_idle s repoPath
  have hloose : (s.abortBuildsForRepo repoPath).Coherent (· = repoPath) :=
    (h.abortBuildsForRepo repoPath).mono fun path hpath => hpath.resolve_left id
  obtain rfl | rfl := takeOver_eq_some htake
  · exact keepPending_spec hloose hidle
  · rw [abortBuildsForRepo_erase]
    exact keepPending_spec (hloose.eraseLazyLoadedPath hidle) hidle

variable [ToString P] (h : s.Steady)
include h

theorem CoherentParts.removeRepository (repoPath : P) : (s.removeRepository repoPath).1.Steady := by
  unfold Indexing.removeRepository
  split
  next => exact h
  next =>
    apply (h.abortBuildsForRepo repoPath).removeRepositoryState (abortBuildsForRepo_idle s repoPath)
    rintro other (hfalse | heq) hne
    · exact hfalse
    · exact hne heq

theorem CoherentParts.removeRepository_erase (path : P) :
    ((s.eraseLazyLoadedPath path).removeRepository path).1.Steady := by
  unfold Indexing.removeRepository
  split
  next hnone =>
    change s.model.repositories.get path = none at hnone
    apply h.eraseLazyLoadedPath
    apply h.idle
    · intro condition hpending
      exact absurd (hnone.symm.trans hpending) nofun
    · intro tree hindexed
      exact absurd (hnone.symm.trans hindexed) nofun
  next =>
    have hidle := abortBuildsForRepo_idle s path
    have herased := (h.abortBuildsForRepo path).eraseLazyLoadedPath hidle
    rw [abortBuildsForRepo_erase]
    apply herased.removeRepositoryState hidle
    rintro other (hfalse | heq) hne
    · exact hfalse
    · exact hne heq

theorem CoherentParts.removeLazyLoadedPath (path : P) : (s.removeLazyLoadedPath path).Steady := by
  unfold Indexing.removeLazyLoadedPath
  split
  next => exact h
  next refcount _ =>
    split
    · exact h.insertLazyLoadedPath path (refcount - 1)
    · exact h.removeRepository_erase path

theorem CoherentParts.indexLazyLoadedPath (path : P) (check : PathCheck) :
    (s.indexLazyLoadedPath path check).1.Steady := by
  unfold Indexing.indexLazyLoadedPath
  split
  next refcount _ => exact h.insertLazyLoadedPath path (refcount + 1)
  next =>
    split
    next => exact h
    next => exact h
    next hindexed hpending =>
      split
      next => exact h
      next =>
        have hidle : s.Idle path := h.idle (fun condition => hpending condition) (fun tree => hindexed tree)
        have hlazy := h.insertLazyLoadedPath path 1
        have hmarked := CoherentParts.markPending hlazy hidle fun other hfalse => hfalse.elim
        apply hmarked.startIndex hidle rfl rfl
        refine ⟨?_, _, get_markPending _ path⟩
        change ((s.model.lazyLoadedPaths.insert path 1).get path).isSome = true
        rw [AssocMap.get_insert, if_pos rfl]
        rfl

theorem CoherentParts.indexDirectory (repoPath : P) (check : PathCheck) :
    (s.indexDirectory repoPath check).1.Steady := by
  unfold Indexing.indexDirectory
  split
  next => exact h
  next =>
    split
    next => exact h
    next s' htake =>
      obtain ⟨hkept, hidle, condition, hpending⟩ := h.takenOver htake
      exact hkept.startIndex hidle rfl rfl ⟨condition, hpending⟩

theorem CoherentParts.loadDirectoryWithCompletion (trees : FileTrees P T N) (repoRoot dirPath : P) :
    (s.loadDirectoryWithCompletion trees repoRoot dirPath).1.Steady := by
  unfold Indexing.loadDirectoryWithCompletion
  split
  next s' caller hsubscribe =>
    obtain ⟨task, htask, hkind, heq⟩ := subscribeToBuildTask_eq_some hsubscribe
    rw [congrArg Prod.fst heq]
    exact h.addWaiter htask hkind
  next hsubscribe =>
    split
    next tree hindexed =>
      have hcaller : Steady { s with nextCaller := s.nextCaller + 1 } := h
      have hserves : Serves s.model (.directoryLoad repoRoot dirPath (unloadedDirectory (trees.get tree dirPath))
          (trees.get tree dirPath).isSome s.nextCaller) := ⟨tree, hindexed⟩
      refine CoherentParts.startBuild hcaller ?_ hserves fun path hfalse => hfalse.elim
      exact h.load_untracked hsubscribe hindexed
    next => exact h

end Steady

section Completed

variable {s : Indexing P T B} {future : Nat} {task : BuildTask}

theorem finishBuildTask_eq_some {key : BuildTaskKey P} (h : s.finishBuildTask key future = some task) :
    s.model.buildTasks.get key = some task ∧ task.handle = future := by
  obtain ⟨hget, hhandle⟩ := Option.filter_eq_some_iff.mp h
  exact ⟨hget, of_decide_eq_true hhandle⟩

variable {callback : BuildCallback P}

theorem CoherentParts.untracked (h : s.Steady)
    (hspawned : s.spawned.get future = some callback) (hnone : s.finishBuildTask callback.key future = none) :
    ∀ key task, s.model.buildTasks.get key = some task → task.handle ≠ future := by
  rintro key task hkey rfl
  obtain ⟨callback', hrunning⟩ := h.tasks key task hkey
  have hsame := hrunning.spawned
  rw [hspawned] at hsame
  rw [Option.some.inj hsame, hrunning.key] at hnone
  have hfound : s.finishBuildTask key task.handle = some task :=
    Option.filter_eq_some_iff.mpr ⟨hkey, decide_eq_true rfl⟩
  rw [hfound] at hnone
  cases hnone

theorem CoherentParts.running (h : s.Steady)
    (hspawned : s.spawned.get future = some callback) (hfinish : s.finishBuildTask callback.key future = some task) :
    Running s.model s.spawned s.aborted callback.key task callback ∧
      ∀ key task, (s.untrack callback.key).model.buildTasks.get key = some task → task.handle ≠ future := by
  obtain ⟨hget, rfl⟩ := finishBuildTask_eq_some hfinish
  constructor
  · obtain ⟨callback', hrunning⟩ := h.tasks _ task hget
    have hsame := hrunning.spawned
    rw [hspawned] at hsame
    rw [Option.some.inj hsame] at hrunning ⊢
    exact hrunning
  · intro key task' hkey hhandle
    obtain ⟨hne, hold⟩ := get_untrack_some hkey
    exact hne (h.handle_inj hold hget hhandle)

variable {path : P}

theorem CoherentParts.untrack_index (h : s.Steady) {condition : Nat}
    (hpending : s.model.repositories.get path = some (.pending condition)) :
    (s.untrack ⟨path, path⟩).Coherent (· = path) ∧ (s.untrack ⟨path, path⟩).Idle path := by
  constructor
  · apply h.untrack ⟨path, path⟩ (fun other hfalse => hfalse.elim)
    rintro other task heq - -
    exact (congrArg BuildTaskKey.ownerRepoPath heq).symm
  · intro key task hkey howner
    obtain ⟨hne, hold⟩ := get_untrack_some hkey
    obtain ⟨callback, hrunning, hcallback⟩ := h.owner hold
    have hserves := hrunning.serves
    have hsame := hrunning.key
    rw [howner] at hcallback
    cases callback with
    | lazyIndex other =>
      change other = path at hcallback
      exact hne (hsame.symm.trans (by rw [hcallback]; rfl))
    | index other =>
      change other = path at hcallback
      exact hne (hsame.symm.trans (by rw [hcallback]; rfl))
    | directoryLoad repoRoot dirPath targetUnloaded dirWasPresent completion =>
      obtain ⟨tree, hindexed⟩ := hserves
      change repoRoot = path at hcallback
      rw [hcallback, hpending] at hindexed
      cases hindexed

theorem steady_dropCallback (h : s.Steady) (callback : BuildCallback P) : (s.dropCallback callback).Steady := by
  cases callback with
  | lazyIndex path => exact h
  | index path => exact h
  | directoryLoad repoRoot dirPath targetUnloaded dirWasPresent completion => exact h

variable [ToString P]

theorem CoherentParts.completeIndex (h : s.Coherent (· = path)) (hidle : s.Idle path)
    (trees : FileTrees P T N) (result : Except B N) (check : PathCheck) :
    (s.completeIndex trees path result check).Steady := by
  unfold Indexing.completeIndex addRepositoryInternal
  cases result with
  | error error => exact h.steady hidle rfl
  | ok rootEntry =>
    cases checkPath path "Repository path must be a directory" check with
    | error error => exact h.steady hidle rfl
    | ok _ => exact h.steady hidle rfl

theorem CoherentParts.completeLazyIndex (h : s.Coherent (· = path)) (hidle : s.Idle path)
    (hlazy : s.model.lazyLoadedPaths.contains path = true) (trees : FileTrees P T N) (result : Except B N)
    (check : PathCheck) : (s.completeLazyIndex trees path result check).Steady := by
  have herased := h.eraseLazyLoadedPath hidle
  unfold Indexing.completeLazyIndex addRepositoryInternal
  rw [if_pos hlazy]
  cases result with
  | error error => exact herased.steady hidle rfl
  | ok rootEntry =>
    cases checkPath path "Repository path must be a directory" check with
    | error error => exact herased.steady hidle rfl
    | ok _ => exact h.steady hidle rfl

theorem CoherentParts.applyLoad (h : s.Steady) (trees : FileTrees P T N) (repoRoot dirPath : P)
    (targetUnloaded : Option Nat) (dirWasPresent : Bool) (result : Except B N) :
    (s.applyLoad trees repoRoot dirPath targetUnloaded dirWasPresent result).1.Steady := by
  unfold Indexing.applyLoad
  cases result with
  | error error => exact h
  | ok entry =>
    simp only
    split
    next tree hindexed =>
      split
      next => exact h.updateTree hindexed _
      next => exact h
    next => exact h

variable [ToString B]

theorem runCallback_untracked
    (h : s.finishBuildTask callback.key future = none) (trees : FileTrees P T N) (result : Except B N)
    (check : PathCheck) : s.runCallback trees future callback result check = s.dropCallback callback := by
  unfold runCallback
  rw [h]
  cases callback with
  | lazyIndex path => rfl
  | index path => rfl
  | directoryLoad repoRoot dirPath targetUnloaded dirWasPresent completion => rfl

theorem runCallback_tracked (h : s.Steady)
    (hspawned : s.spawned.get future = some callback) (hfinish : s.finishBuildTask callback.key future = some task)
    (trees : FileTrees P T N) (result : Except B N) (check : PathCheck) :
    ((s.unspawn future).runCallback trees future callback result check).Steady := by
  obtain ⟨hrunning, huntracked⟩ := h.running hspawned hfinish
  have hserves := hrunning.serves
  have hfound : (s.unspawn future).finishBuildTask callback.key future = some task := hfinish
  unfold runCallback
  rw [hfound]
  cases callback with
  | lazyIndex path =>
    obtain ⟨hlazy, condition, hpending⟩ := hserves
    obtain ⟨hloose, hidle⟩ := h.untrack_index hpending
    exact (hloose.unspawn huntracked).completeLazyIndex hidle hlazy trees result check
  | index path =>
    obtain ⟨condition, hpending⟩ := hserves
    obtain ⟨hloose, hidle⟩ := h.untrack_index hpending
    exact (hloose.unspawn huntracked).completeIndex hidle trees result check
  | directoryLoad repoRoot dirPath targetUnloaded dirWasPresent completion =>
    have hloaded : (s.untrack ⟨repoRoot, dirPath⟩).Steady := by
      apply h.untrack ⟨repoRoot, dirPath⟩ (fun path hfalse => hfalse)
      intro path task' _ htask' hkind
      obtain ⟨htask, -⟩ := finishBuildTask_eq_some hfinish
      obtain rfl := Option.some.inj (htask'.symm.trans htask)
      exact absurd (hrunning.kind.trans hkind) nofun
    exact (hloaded.unspawn huntracked).applyLoad trees repoRoot dirPath targetUnloaded dirWasPresent result

theorem CoherentParts.complete (h : s.Steady) (trees : FileTrees P T N) (future : Nat) (outcome : Outcome N B) :
    (s.complete trees future outcome).Steady := by
  unfold Indexing.complete
  split
  next => exact h
  next callback hspawned =>
    split
    next haborted =>
      apply steady_dropCallback
      apply h.unspawn
      intro key task hkey hhandle
      obtain ⟨callback', hrunning⟩ := h.tasks key task hkey
      exact hrunning.notAborted (hhandle ▸ haborted)
    next => exact h
  next callback result check hspawned =>
    cases hfinish : s.finishBuildTask callback.key future with
    | none =>
      have hunspawned := h.unspawn (h.untracked hspawned hfinish)
      rw [runCallback_untracked (by exact hfinish)]
      exact steady_dropCallback hunspawned callback
    | some task => exact runCallback_tracked h hspawned hfinish trees result check

theorem steady_step (h : s.Steady) (trees : FileTrees P T N) (op : Op P N B) : (step trees s op).Steady := by
  cases op with
  | indexLazyLoadedPath path check => exact h.indexLazyLoadedPath path check
  | removeLazyLoadedPath path => exact h.removeLazyLoadedPath path
  | indexDirectory repoPath check => exact h.indexDirectory repoPath check
  | loadDirectoryWithCompletion repoRoot dirPath => exact h.loadDirectoryWithCompletion trees repoRoot dirPath
  | removeRepository repoPath => exact h.removeRepository repoPath
  | complete future outcome => exact h.complete trees future outcome

end Completed

end Indexing

end InfiniShell.RepoMetadata
