import InfiniShell.RepoMetadata.BuildTaskRuns
import Mathlib.Data.List.Induction

namespace InfiniShell.RepoMetadata

open Collections

namespace Indexing

variable {P T N B : Type} [DecidableEq P]

section Conditions

structure StateView (P T B : Type) where
  repositories : AssocMap P (IndexedRepoState Nat T (RepoMetadataError P B))
  conditionsSet : List Nat
  nextCondition : Nat

def view (s : Indexing P T B) : StateView P T B := ⟨s.model.repositories, s.conditionsSet, s.nextCondition⟩

namespace StateView

variable {v v' : StateView P T B}

def PendingOn (v : StateView P T B) (path : P) (condition : Nat) : Prop :=
  v.repositories.get path = some (.pending condition)

/-- The conditions that were set are those of which no repository is pending any more. -/
structure Released (v : StateView P T B) : Prop where
  fresh : ∀ path condition, v.PendingOn path condition → condition < v.nextCondition
  unique : ∀ path other condition, v.PendingOn path condition → v.PendingOn other condition → path = other
  set_iff : ∀ condition, condition ∈ v.conditionsSet ↔
    condition < v.nextCondition ∧ ∀ path, ¬ v.PendingOn path condition

def replace (v : StateView P T B) (path : P) (state : IndexedRepoState Nat T (RepoMetadataError P B)) :
    StateView P T B :=
  { v with
    repositories := v.repositories.insert path state
    conditionsSet := v.conditionsSet ++ ((v.repositories.get path).bind (·.condition?)).toList }

def remove (v : StateView P T B) (path : P) : StateView P T B :=
  { v with
    repositories := v.repositories.erase path
    conditionsSet := v.conditionsSet ++ ((v.repositories.get path).bind (·.condition?)).toList }

def mark (v : StateView P T B) (path : P) : StateView P T B :=
  { v.replace path (.pending v.nextCondition) with nextCondition := v.nextCondition + 1 }

inductive Moves (v : StateView P T B) : StateView P T B → Prop where
  | stays : Moves v v
  | settled {path : P} {state : IndexedRepoState Nat T (RepoMetadataError P B)} (h : state.condition? = none) :
    Moves v (v.replace path state)
  | removed {path : P} : Moves v (v.remove path)
  | marked {path : P} (h : ∀ condition, ¬ v.PendingOn path condition) : Moves v (v.mark path)

variable {path : P} {condition : Nat}

theorem mem_condition? :
    condition ∈ ((v.repositories.get path).bind (·.condition?)).toList ↔ v.PendingOn path condition := by
  unfold PendingOn
  rw [Option.mem_toList]
  cases v.repositories.get path with
  | none => exact ⟨nofun, nofun⟩
  | some state =>
    cases state with
    | pending other => exact ⟨fun h => by cases h; rfl, fun h => by cases h; rfl⟩
    | indexed tree => exact ⟨nofun, nofun⟩
    | failed error => exact ⟨nofun, nofun⟩

variable {path other : P}

theorem pendingOn_replace {state : IndexedRepoState Nat T (RepoMetadataError P B)} :
    (v.replace path state).PendingOn other condition ↔
      if other = path then state.condition? = some condition else v.PendingOn other condition := by
  unfold PendingOn replace
  rw [AssocMap.get_insert]
  split
  · cases state with
    | pending own => exact ⟨fun h => by cases h; rfl, fun h => by cases h; rfl⟩
    | indexed tree => exact ⟨fun h => (by cases h), fun h => (by cases h)⟩
    | failed error => exact ⟨fun h => (by cases h), fun h => (by cases h)⟩
  · exact Iff.rfl

theorem pendingOn_remove :
    (v.remove path).PendingOn other condition ↔ other ≠ path ∧ v.PendingOn other condition := by
  unfold PendingOn remove
  rw [AssocMap.get_erase]
  split
  next heq => exact ⟨fun h => (by cases h), fun h => absurd heq h.1⟩
  next hne => exact ⟨fun h => ⟨hne, h⟩, fun h => h.2⟩

theorem Released.leave (h : v.Released) (path : P)
    (hpending : ∀ other condition, v'.PendingOn other condition ↔ other ≠ path ∧ v.PendingOn other condition)
    (hset : v'.conditionsSet = v.conditionsSet ++ ((v.repositories.get path).bind (·.condition?)).toList)
    (hnext : v'.nextCondition = v.nextCondition) : v'.Released where
  fresh other condition hother := by
    rw [hnext]
    exact h.fresh other condition ((hpending other condition).mp hother).2
  unique p q condition hp hq :=
    h.unique p q condition ((hpending p condition).mp hp).2 ((hpending q condition).mp hq).2
  set_iff condition := by
    rw [hset, List.mem_append, h.set_iff, mem_condition?, hnext]
    constructor
    · rintro (⟨hlt, hnone⟩ | hold)
      · exact ⟨hlt, fun other hother => hnone other ((hpending other condition).mp hother).2⟩
      · refine ⟨h.fresh path condition hold, ?_⟩
        intro other hother
        obtain ⟨hne, hpend⟩ := (hpending other condition).mp hother
        exact hne (h.unique other path condition hpend hold)
    · rintro ⟨hlt, hnone⟩
      by_cases hold : v.PendingOn path condition
      · exact .inr hold
      · refine .inl ⟨hlt, ?_⟩
        intro other hother
        by_cases heq : other = path
        · exact hold (heq ▸ hother)
        · exact hnone other ((hpending other condition).mpr ⟨heq, hother⟩)

theorem Released.mark (h : v.Released) (hnot : ∀ condition, ¬ v.PendingOn path condition) :
    (v.mark path).Released := by
  have hpending : ∀ other condition, (v.mark path).PendingOn other condition ↔
      other = path ∧ condition = v.nextCondition ∨ v.PendingOn other condition := by
    intro other condition
    apply (pendingOn_replace (v := v)).trans
    split
    next heq =>
      rw [heq]
      constructor
      · intro hown
        exact .inl ⟨rfl, (Option.some.inj hown).symm⟩
      · rintro (⟨-, rfl⟩ | hold)
        · rfl
        · exact absurd hold (hnot condition)
    next hne => exact ⟨.inr, fun hor => hor.resolve_left fun hand => hne hand.1⟩
  have hnew : ∀ other, ¬ v.PendingOn other v.nextCondition := by
    intro other hother
    exact Nat.lt_irrefl _ (h.fresh other _ hother)
  constructor
  · intro other condition hother
    obtain ⟨-, rfl⟩ | hold := (hpending other condition).mp hother
    · exact Nat.lt_succ_self _
    · exact Nat.lt_succ_of_lt (h.fresh other condition hold)
  · intro p q condition hp hq
    obtain ⟨rfl, rfl⟩ | hp := (hpending p condition).mp hp
    · obtain ⟨rfl, -⟩ | hq := (hpending q v.nextCondition).mp hq
      · rfl
      · exact absurd hq (hnew q)
    · obtain ⟨-, rfl⟩ | hq := (hpending q condition).mp hq
      · exact absurd hp (hnew p)
      · exact h.unique p q condition hp hq
  · intro condition
    change condition ∈ v.conditionsSet ++ _ ↔ condition < v.nextCondition + 1 ∧ _
    rw [List.mem_append, mem_condition?, or_iff_left (hnot condition), h.set_iff]
    constructor
    · rintro ⟨hlt, hnone⟩
      refine ⟨Nat.lt_succ_of_lt hlt, ?_⟩
      intro other hother
      obtain ⟨-, rfl⟩ | hold := (hpending other condition).mp hother
      · exact Nat.lt_irrefl _ hlt
      · exact hnone other hold
    · rintro ⟨hlt, hnone⟩
      refine ⟨?_, fun other hother => hnone other ((hpending other condition).mpr (.inr hother))⟩
      apply Nat.lt_of_le_of_ne (Nat.le_of_lt_succ hlt)
      rintro rfl
      exact hnone path ((hpending path _).mpr (.inl ⟨rfl, rfl⟩))

variable (h : v.Moves v')
include h

theorem Moves.released (hv : v.Released) : v'.Released := by
  cases h with
  | stays => exact hv
  | @settled path state hstate =>
    refine hv.leave path ?_ rfl rfl
    intro other condition
    rw [pendingOn_replace, hstate]
    split
    next heq => exact ⟨nofun, fun h => absurd heq h.1⟩
    next hne => exact ⟨fun h => ⟨hne, h⟩, fun h => h.2⟩
  | @removed path => exact hv.leave path (fun other condition => pendingOn_remove) rfl rfl
  | marked hnot => exact hv.mark hnot

theorem Moves.kept {condition condition' : Nat} (hbefore : v.PendingOn path condition)
    (hbehind : v'.PendingOn path condition') : condition' = condition := by
  have hsame : v.PendingOn path condition' → condition' = condition := by
    intro hother
    cases Option.some.inj (hother.symm.trans hbefore)
    rfl
  cases h with
  | stays => exact hsame hbehind
  | settled hstate =>
    rw [pendingOn_replace, hstate] at hbehind
    split at hbehind
    next => cases hbehind
    next => exact hsame hbehind
  | removed => exact hsame (pendingOn_remove.mp hbehind).2
  | @marked other hnot =>
    have hreplaced := pendingOn_replace.mp hbehind
    split at hreplaced
    next heq => exact absurd (heq ▸ hbefore) (hnot condition)
    next => exact hsame hreplaced

theorem Moves.next_le : v.nextCondition ≤ v'.nextCondition := by
  cases h with
  | stays => exact Nat.le_refl _
  | settled _ => exact Nat.le_refl _
  | removed => exact Nat.le_refl _
  | marked _ => exact Nat.le_succ _

theorem Moves.back (hbehind : v'.PendingOn path condition) :
    v.PendingOn path condition ∨ condition = v.nextCondition := by
  cases h with
  | stays => exact .inl hbehind
  | settled hstate =>
    rw [pendingOn_replace, hstate] at hbehind
    split at hbehind
    next => cases hbehind
    next => exact .inl hbehind
  | removed => exact .inl (pendingOn_remove.mp hbehind).2
  | marked _ =>
    have hreplaced := pendingOn_replace.mp hbehind
    split at hreplaced
    next => exact .inr (Option.some.inj hreplaced).symm
    next => exact .inl hreplaced

theorem Moves.set_iff (hv : v.Released) (hbefore : v.PendingOn path condition) :
    condition ∈ v'.conditionsSet ↔ ∀ condition', ¬ v'.PendingOn path condition' := by
  rw [(h.released hv).set_iff]
  constructor
  · rintro ⟨-, hnone⟩ condition' hbehind
    rw [h.kept hbefore hbehind] at hbehind
    exact hnone path hbehind
  · intro hnone
    have hfresh := hv.fresh path condition hbefore
    refine ⟨Nat.lt_of_lt_of_le hfresh h.next_le, ?_⟩
    intro other hother
    obtain hold | rfl := h.back hother
    · rw [hv.unique other path condition hold hbefore] at hother
      exact hnone condition hother
    · exact Nat.lt_irrefl _ hfresh

end StateView

variable {s : Indexing P T B}

theorem view_trackBuildTask (s : Indexing P T B) (key : BuildTaskKey P) (kind : BuildTaskKind) (handle : Nat) :
    (s.trackBuildTask key kind handle).view = s.view := by
  unfold trackBuildTask
  cases s.model.buildTasks.get key with
  | none => rfl
  | some task => rfl

theorem view_startBuild (s : Indexing P T B) (callback : BuildCallback P) : (s.startBuild callback).view = s.view :=
  view_trackBuildTask _ _ _ _

theorem view_abortBuildsForRepo (s : Indexing P T B) (repoPath : P) : (s.abortBuildsForRepo repoPath).view = s.view :=
  abortBuildsForRepo_induction (motive := fun s' => s'.view = s.view) rfl fun _ _ _ h _ _ => h

omit [DecidableEq P] in
theorem view_dropCallback (s : Indexing P T B) (callback : BuildCallback P) :
    (s.dropCallback callback).view = s.view := by
  cases callback with
  | lazyIndex path => rfl
  | index path => rfl
  | directoryLoad repoRoot dirPath targetUnloaded dirWasPresent completion => rfl

theorem view_updateTree {repoRoot : P} {old : T} (h : s.model.repositories.get repoRoot = some (.indexed old))
    (tree : T) : (s.updateTree repoRoot tree).view = s.view.replace repoRoot (.indexed tree) := by
  unfold StateView.replace view updateTree
  simp only [h, Option.bind_some, IndexedRepoState.condition?, Option.toList_none, List.append_nil]

theorem moves_keepPending (s : Indexing P T B) (repoPath : P) : s.view.Moves (s.keepPending repoPath).view := by
  unfold keepPending
  split
  next => exact .stays
  next hnot => exact .marked fun condition => hnot condition

variable [ToString P]

theorem moves_removeRepository (s : Indexing P T B) (repoPath : P) :
    s.view.Moves (s.removeRepository repoPath).1.view := by
  unfold removeRepository
  split
  next => exact .stays
  next =>
    rw [← view_abortBuildsForRepo s repoPath]
    exact .removed

theorem moves_removeLazyLoadedPath (s : Indexing P T B) (path : P) :
    s.view.Moves (s.removeLazyLoadedPath path).view := by
  unfold removeLazyLoadedPath
  split
  next => exact .stays
  next =>
    split
    · exact .stays
    · exact moves_removeRepository (s.eraseLazyLoadedPath path) path

theorem moves_indexLazyLoadedPath (s : Indexing P T B) (path : P) (check : PathCheck) :
    s.view.Moves (s.indexLazyLoadedPath path check).1.view := by
  unfold indexLazyLoadedPath
  split
  next => exact .stays
  next =>
    split
    next => exact .stays
    next => exact .stays
    next _ hpending =>
      split
      next => exact .stays
      next =>
        rw [view_startBuild]
        exact .marked fun condition => hpending condition

theorem moves_indexDirectory (s : Indexing P T B) (repoPath : P) (check : PathCheck) :
    s.view.Moves (s.indexDirectory repoPath check).1.view := by
  unfold indexDirectory
  split
  next => exact .stays
  next =>
    split
    next => exact .stays
    next s' htake =>
      have hview : s.view = (s'.abortBuildsForRepo repoPath).view := by
        rw [view_abortBuildsForRepo]
        obtain rfl | rfl := takeOver_eq_some htake
        · rfl
        · rfl
      rw [view_startBuild, hview]
      exact moves_keepPending _ repoPath

theorem moves_loadDirectoryWithCompletion (s : Indexing P T B) (trees : FileTrees P T N) (repoRoot dirPath : P) :
    s.view.Moves (s.loadDirectoryWithCompletion trees repoRoot dirPath).1.view := by
  unfold loadDirectoryWithCompletion
  split
  next s' caller hsubscribe =>
    obtain ⟨task, -, -, heq⟩ := subscribeToBuildTask_eq_some hsubscribe
    rw [congrArg Prod.fst heq]
    exact .stays
  next =>
    split
    next =>
      rw [view_startBuild]
      exact .stays
    next => exact .stays

theorem moves_completeIndex (s : Indexing P T B) (trees : FileTrees P T N) (path : P) (result : Except B N)
    (check : PathCheck) : s.view.Moves (s.completeIndex trees path result check).view := by
  unfold completeIndex addRepositoryInternal
  cases result with
  | error error => exact .settled rfl
  | ok rootEntry =>
    cases checkPath path "Repository path must be a directory" check with
    | error error => exact .settled rfl
    | ok _ => exact .settled rfl

theorem moves_completeLazyIndex (s : Indexing P T B) (trees : FileTrees P T N) (path : P) (result : Except B N)
    (check : PathCheck) : s.view.Moves (s.completeLazyIndex trees path result check).view := by
  unfold completeLazyIndex addRepositoryInternal
  split
  next =>
    cases result with
    | error error => exact .settled rfl
    | ok rootEntry =>
      cases checkPath path "Repository path must be a directory" check with
      | error error => exact .settled rfl
      | ok _ => exact .settled rfl
  next => exact .stays

theorem moves_applyLoad (s : Indexing P T B) (trees : FileTrees P T N) (repoRoot dirPath : P)
    (targetUnloaded : Option Nat) (dirWasPresent : Bool) (result : Except B N) :
    s.view.Moves (s.applyLoad trees repoRoot dirPath targetUnloaded dirWasPresent result).1.view := by
  unfold applyLoad
  cases result with
  | error error => exact .stays
  | ok entry =>
    simp only
    split
    next tree hindexed =>
      split
      next =>
        rw [view_updateTree hindexed]
        exact .settled rfl
      next => exact .stays
    next => exact .stays

variable [ToString B]

theorem moves_complete (s : Indexing P T B) (trees : FileTrees P T N) (future : Nat) (outcome : Outcome N B) :
    s.view.Moves (s.complete trees future outcome).view := by
  unfold complete
  split
  next => exact .stays
  next callback _ =>
    split
    next =>
      rw [view_dropCallback]
      exact .stays
    next => exact .stays
  next callback result check _ =>
    cases hfinish : s.finishBuildTask callback.key future with
    | none =>
      rw [runCallback_untracked (by exact hfinish), view_dropCallback]
      exact .stays
    | some task =>
      have hfound : (s.unspawn future).finishBuildTask callback.key future = some task := hfinish
      change s.view.Moves ((s.unspawn future).runCallback trees future callback result check).view
      unfold runCallback
      rw [hfound]
      cases callback with
      | lazyIndex path => exact moves_completeLazyIndex ((s.unspawn future).untrack _) trees path result check
      | index path => exact moves_completeIndex ((s.unspawn future).untrack _) trees path result check
      | directoryLoad repoRoot dirPath targetUnloaded dirWasPresent completion =>
        exact moves_applyLoad ((s.unspawn future).untrack _) trees repoRoot dirPath targetUnloaded dirWasPresent result

theorem moves_step (trees : FileTrees P T N) (s : Indexing P T B) (op : Op P N B) :
    s.view.Moves (step trees s op).view := by
  cases op with
  | indexLazyLoadedPath path check => exact moves_indexLazyLoadedPath s path check
  | removeLazyLoadedPath path => exact moves_removeLazyLoadedPath s path
  | indexDirectory repoPath check => exact moves_indexDirectory s repoPath check
  | loadDirectoryWithCompletion repoRoot dirPath => exact moves_loadDirectoryWithCompletion s trees repoRoot dirPath
  | removeRepository repoPath => exact moves_removeRepository s repoPath
  | complete future outcome => exact moves_complete s trees future outcome

end Conditions

section Answers

/-- Every caller is answered once, held by one that is still to answer it, or not there yet. -/
def AnsweredParts {E : Type} (answers : List (Nat × E)) (inHand : List Nat)
    (spawned : AssocMap Nat (BuildCallback P)) (buildTasks : AssocMap (BuildTaskKey P) BuildTask) (nextCaller : Nat) :
    Prop :=
  ∀ caller, (answers.map Prod.fst).count caller + inHand.count caller +
    (spawned.contents BuildCallback.completions).count caller +
    (buildTasks.contents BuildTask.completionWaiters).count caller = if caller < nextCaller then 1 else 0

abbrev Answered (s : Indexing P T B) (inHand : List Nat) : Prop :=
  AnsweredParts s.answers inHand s.spawned s.model.buildTasks s.nextCaller

variable {s : Indexing P T B} {inHand : List Nat}

omit [DecidableEq P] in
theorem answered_initial : (initial : Indexing P T B).Answered [] := fun caller => (if_neg (Nat.not_lt_zero caller)).symm

omit [DecidableEq P] in
theorem Answered.notify {waiters : List Nat} (h : s.Answered (waiters ++ inHand)) (result : Except String Unit) :
    (s.notifyCompletionWaiters waiters result).Answered inHand := by
  have hmap : (s.answers ++ waiters.map fun waiter => (waiter, result.mapError RepoMetadataError.invalidPath)).map
      Prod.fst = s.answers.map Prod.fst ++ waiters := by
    rw [List.map_append, List.map_map]
    exact congrArg _ (List.map_id waiters)
  change AnsweredParts (s.answers ++ waiters.map _) inHand s.spawned s.model.buildTasks s.nextCaller
  intro caller
  have hcount := h caller
  rw [hmap, List.count_append]
  rw [List.count_append] at hcount
  omega

omit [DecidableEq P] in
theorem Answered.send {caller : Nat} (h : s.Answered (caller :: inHand))
    (result : Except (RepoMetadataError P B) Unit) : (s.send caller result).Answered inHand := by
  have hmap : (s.answers ++ [(caller, result)]).map Prod.fst = s.answers.map Prod.fst ++ [caller] := List.map_append
  change AnsweredParts (s.answers ++ [(caller, result)]) inHand s.spawned s.model.buildTasks s.nextCaller
  intro other
  have hcount := h other
  rw [hmap, List.count_append, List.count_singleton]
  rw [List.count_cons] at hcount
  omega

variable {key : BuildTaskKey P} {task : BuildTask}

theorem Answered.untrack (h : s.Answered inHand)
    (hget : s.model.buildTasks.get key = some task) : (s.untrack key).Answered (task.completionWaiters ++ inHand) := by
  change AnsweredParts s.answers (task.completionWaiters ++ inHand) s.spawned (s.model.buildTasks.erase key) s.nextCaller
  intro caller
  have hcount := h caller
  have hperm := (AssocMap.contents_erase BuildTask.completionWaiters hget).count_eq caller
  rw [List.count_append] at hperm ⊢
  omega

variable {callback : BuildCallback P}

omit [DecidableEq P] in
theorem Answered.unspawn (h : s.Answered inHand) {future : Nat}
    (hget : s.spawned.get future = some callback) : (s.unspawn future).Answered (callback.completions ++ inHand) := by
  change AnsweredParts s.answers (callback.completions ++ inHand) (s.spawned.erase future) s.model.buildTasks s.nextCaller
  intro caller
  have hcount := h caller
  have hperm := (AssocMap.contents_erase BuildCallback.completions hget).count_eq caller
  rw [List.count_append] at hperm ⊢
  omega

omit [DecidableEq P] in
theorem Answered.newCaller (h : s.Answered inHand) :
    Answered { s with nextCaller := s.nextCaller + 1 } (s.nextCaller :: inHand) := by
  change AnsweredParts s.answers (s.nextCaller :: inHand) s.spawned s.model.buildTasks (s.nextCaller + 1)
  intro caller
  have hcount := h caller
  rw [List.count_cons]
  by_cases heq : s.nextCaller = caller
  · rw [if_neg (by omega)] at hcount
    rw [if_pos (beq_iff_eq.mpr heq), if_pos (by omega)]
    omega
  · rw [if_neg (by simpa using heq)]
    by_cases hlt : caller < s.nextCaller
    · rw [if_pos hlt] at hcount
      rw [if_pos (by omega)]
      omega
    · rw [if_neg hlt] at hcount
      rw [if_neg (by omega)]
      omega

theorem Answered.addWaiter (h : s.Answered inHand)
    (hget : s.model.buildTasks.get key = some task) : (s.addWaiter key task).Answered inHand := by
  have hnew : AnsweredParts s.answers (s.nextCaller :: inHand) s.spawned s.model.buildTasks (s.nextCaller + 1) :=
    h.newCaller
  change AnsweredParts s.answers inHand s.spawned
    (s.model.buildTasks.insert key { task with completionWaiters := task.completionWaiters ++ [s.nextCaller] })
    (s.nextCaller + 1)
  intro caller
  have hcount := hnew caller
  have hbefore := (AssocMap.contents_erase BuildTask.completionWaiters hget).count_eq caller
  have hbehind := (AssocMap.contents_insert BuildTask.completionWaiters s.model.buildTasks key
    { task with completionWaiters := task.completionWaiters ++ [s.nextCaller] }).count_eq caller
  rw [List.count_append] at hbefore hbehind
  rw [List.count_append, List.count_singleton] at hbehind
  rw [List.count_cons] at hcount
  omega

theorem Answered.startBuild (h : s.Answered (callback.completions ++ inHand))
    (hnew : s.model.buildTasks.get callback.key = none) (hfresh : s.spawned.get s.nextFuture = none) :
    (s.startBuild callback).Answered inHand := by
  unfold Indexing.startBuild
  rw [trackBuildTask_new (by exact hnew)]
  change AnsweredParts s.answers inHand (s.spawned.insert s.nextFuture callback)
    (s.model.buildTasks.insert callback.key ⟨callback.kind, s.nextFuture, []⟩) s.nextCaller
  intro caller
  have hcount := h caller
  have htasks := (AssocMap.contents_insert_of_none BuildTask.completionWaiters hnew
    ⟨callback.kind, s.nextFuture, []⟩).count_eq caller
  have hspawned := (AssocMap.contents_insert_of_none BuildCallback.completions hfresh callback).count_eq caller
  rw [List.count_append] at hcount hspawned
  rw [List.nil_append] at htasks
  omega

theorem Answered.abortBuildsForRepo (h : s.Answered []) (repoPath : P) : (s.abortBuildsForRepo repoPath).Answered [] :=
  abortBuildsForRepo_induction (motive := fun s' => s'.Answered []) h fun _ _ _ h hget _ => (h.untrack hget).notify _

theorem CoherentParts.fresh {loose : P → Prop} (h : s.Coherent loose) : s.spawned.get s.nextFuture = none := by
  cases hget : s.spawned.get s.nextFuture with
  | none => rfl
  | some callback => exact absurd (h.spawnedFresh _ _ hget) (Nat.lt_irrefl _)

variable {path : P}

theorem Idle.untracked (h : s.Idle path) (other : P) : s.model.buildTasks.get ⟨path, other⟩ = none := by
  cases hget : s.model.buildTasks.get ⟨path, other⟩ with
  | none => rfl
  | some task => exact absurd rfl (h _ _ hget)

omit [DecidableEq P] in
theorem answered_dropCallback (h : s.Answered (callback.completions ++ inHand)) :
    (s.dropCallback callback).Answered inHand := by
  cases callback with
  | lazyIndex path => exact h
  | index path => exact h
  | directoryLoad repoRoot dirPath targetUnloaded dirWasPresent completion => exact h.send _

theorem startIndex_answered (h : s.Answered [])
    (hloose : s.Coherent (· = path)) (hidle : s.Idle path) (hkey : callback.key = ⟨path, path⟩)
    (hcompletions : callback.completions = []) : (s.startBuild callback).Answered [] := by
  apply Answered.startBuild
  · rw [hcompletions]
    exact h
  · rw [hkey]
    exact hidle.untracked path
  · exact hloose.fresh

theorem answered_keepPending (h : s.Answered inHand) (path : P) : (s.keepPending path).Answered inHand := by
  unfold keepPending
  split
  next => exact h
  next => exact h

variable [ToString P]

theorem answered_removeRepository (h : s.Answered []) (repoPath : P) : (s.removeRepository repoPath).1.Answered [] := by
  unfold removeRepository
  split
  next => exact h
  next => exact h.abortBuildsForRepo repoPath

theorem answered_removeLazyLoadedPath (h : s.Answered []) (path : P) : (s.removeLazyLoadedPath path).Answered [] := by
  unfold removeLazyLoadedPath
  split
  next => exact h
  next =>
    split
    · exact h
    · have herased : (s.eraseLazyLoadedPath path).Answered [] := h
      exact answered_removeRepository herased path

theorem answered_indexLazyLoadedPath (hs : s.Steady) (h : s.Answered []) (path : P) (check : PathCheck) :
    (s.indexLazyLoadedPath path check).1.Answered [] := by
  unfold indexLazyLoadedPath
  split
  next => exact h
  next =>
    split
    next => exact h
    next => exact h
    next hindexed hpending =>
      split
      next => exact h
      next =>
        have hidle : s.Idle path := hs.idle (fun condition => hpending condition) (fun tree => hindexed tree)
        have hmarked : ((s.insertLazyLoadedPath path 1).markPending path).Answered [] := h
        have hlazy := hs.insertLazyLoadedPath path 1
        have hloose := CoherentParts.markPending hlazy hidle fun other hfalse => hfalse.elim
        exact startIndex_answered hmarked hloose hidle rfl rfl

theorem answered_indexDirectory (hs : s.Steady) (h : s.Answered []) (repoPath : P) (check : PathCheck) :
    (s.indexDirectory repoPath check).1.Answered [] := by
  unfold indexDirectory
  split
  next => exact h
  next =>
    split
    next => exact h
    next s' htake =>
      obtain ⟨hkept, hidle, -⟩ := hs.takenOver htake
      have hcancelled : (s'.abortBuildsForRepo repoPath).Answered [] := by
        obtain rfl | rfl := takeOver_eq_some htake
        · exact h.abortBuildsForRepo repoPath
        · rw [abortBuildsForRepo_erase]
          exact h.abortBuildsForRepo repoPath
      exact startIndex_answered (answered_keepPending hcancelled repoPath) hkept hidle rfl rfl

theorem answered_loadDirectoryWithCompletion (hs : s.Steady) (h : s.Answered []) (trees : FileTrees P T N)
    (repoRoot dirPath : P) : (s.loadDirectoryWithCompletion trees repoRoot dirPath).1.Answered [] := by
  unfold loadDirectoryWithCompletion
  split
  next s' caller hsubscribe =>
    obtain ⟨task, htask, -, heq⟩ := subscribeToBuildTask_eq_some hsubscribe
    rw [congrArg Prod.fst heq]
    exact h.addWaiter htask
  next hsubscribe =>
    split
    next tree hindexed =>
      have hcaller : Answered { s with nextCaller := s.nextCaller + 1 } _ := h.newCaller
      apply Answered.startBuild
      · exact hcaller
      · exact hs.load_untracked hsubscribe hindexed
      · exact hs.fresh
    next => exact h

theorem answered_completeIndex (h : s.Answered []) (trees : FileTrees P T N) (path : P) (result : Except B N)
    (check : PathCheck) : (s.completeIndex trees path result check).Answered [] := by
  unfold completeIndex addRepositoryInternal
  cases result with
  | error error => exact h
  | ok rootEntry =>
    cases checkPath path "Repository path must be a directory" check with
    | error error => exact h
    | ok _ => exact h

theorem answered_completeLazyIndex (h : s.Answered []) (trees : FileTrees P T N) (path : P) (result : Except B N)
    (check : PathCheck) : (s.completeLazyIndex trees path result check).Answered [] := by
  unfold completeLazyIndex addRepositoryInternal
  split
  next =>
    cases result with
    | error error => exact h
    | ok rootEntry =>
      cases checkPath path "Repository path must be a directory" check with
      | error error => exact h
      | ok _ => exact h
  next => exact h

theorem answered_applyLoad (h : s.Answered inHand) (trees : FileTrees P T N) (repoRoot dirPath : P)
    (targetUnloaded : Option Nat) (dirWasPresent : Bool) (result : Except B N) :
    (s.applyLoad trees repoRoot dirPath targetUnloaded dirWasPresent result).1.Answered inHand := by
  unfold applyLoad
  cases result with
  | error error => exact h
  | ok entry =>
    simp only
    split
    next =>
      split
      next => exact h
      next => exact h
    next => exact h

variable [ToString B]

theorem answered_complete (hs : s.Steady) (h : s.Answered []) (trees : FileTrees P T N) (future : Nat)
    (outcome : Outcome N B) : (s.complete trees future outcome).Answered [] := by
  unfold complete
  split
  next => exact h
  next callback hspawned =>
    split
    next => exact answered_dropCallback (h.unspawn hspawned)
    next => exact h
  next callback result check hspawned =>
    have hunspawned := h.unspawn hspawned
    cases hfinish : s.finishBuildTask callback.key future with
    | none =>
      rw [runCallback_untracked (by exact hfinish)]
      exact answered_dropCallback hunspawned
    | some task =>
      obtain ⟨hrunning, -⟩ := hs.running hspawned hfinish
      have hget := (finishBuildTask_eq_some hfinish).1
      have hfound : (s.unspawn future).finishBuildTask callback.key future = some task := hfinish
      have huntracked := hunspawned.untrack hget
      have hwaiters := hrunning.waiters
      have hkind := hrunning.kind
      change ((s.unspawn future).runCallback trees future callback result check).Answered []
      unfold runCallback
      rw [hfound]
      cases callback with
      | lazyIndex path =>
        rw [hwaiters hkind.symm] at huntracked
        exact answered_completeLazyIndex huntracked trees path result check
      | index path =>
        rw [hwaiters hkind.symm] at huntracked
        exact answered_completeIndex huntracked trees path result check
      | directoryLoad repoRoot dirPath targetUnloaded dirWasPresent completion =>
        exact ((answered_applyLoad huntracked trees repoRoot dirPath targetUnloaded dirWasPresent result).notify _).send _

theorem answered_step (hs : s.Steady) (h : s.Answered []) (trees : FileTrees P T N) (op : Op P N B) :
    (step trees s op).Answered [] := by
  cases op with
  | indexLazyLoadedPath path check => exact answered_indexLazyLoadedPath hs h path check
  | removeLazyLoadedPath path => exact answered_removeLazyLoadedPath h path
  | indexDirectory repoPath check => exact answered_indexDirectory hs h repoPath check
  | loadDirectoryWithCompletion repoRoot dirPath =>
    exact answered_loadDirectoryWithCompletion hs h trees repoRoot dirPath
  | removeRepository repoPath => exact answered_removeRepository h repoPath
  | complete future outcome => exact answered_complete hs h trees future outcome

end Answers

section Runs

def waiting (s : Indexing P T B) : List Nat :=
  s.spawned.contents BuildCallback.completions ++ s.model.buildTasks.contents BuildTask.completionWaiters

structure Settled (s : Indexing P T B) : Prop where
  pending_iff : ∀ path, (∃ condition, s.repositoryIndexed path = some condition) ↔
    ∃ task, s.model.buildTasks.get ⟨path, path⟩ = some task ∧ task.kind = .index
  once : s.trackedTwice = []
  running : ∀ key task, s.model.buildTasks.get key = some task →
    (∃ callback, s.spawned.get task.handle = some callback ∧ callback.key = key) ∧ task.handle ∉ s.aborted
  released : ∀ condition, condition ∈ s.conditionsSet ↔
    condition < s.nextCondition ∧ ∀ path, s.repositoryIndexed path ≠ some condition
  answered : ∀ caller < s.nextCaller, (s.answers.map Prod.fst).count caller + s.waiting.count caller = 1
  quiet : s.spawned.entries = [] → (∀ path, s.repositoryIndexed path = none) ∧ s.waiting = []

variable {s : Indexing P T B}

omit [DecidableEq P] in
theorem pendingOn_iff [DecidableEq P] {path : P} {condition : Nat} :
    s.view.PendingOn path condition ↔ s.repositoryIndexed path = some condition := by
  rw [← StateView.mem_condition?, Option.mem_toList]
  exact Iff.rfl

theorem Settled.of_steady (hs : s.Steady) (hreleased : s.view.Released) (hanswered : s.Answered []) : s.Settled := by
  have hpending : ∀ path, (∃ condition, s.repositoryIndexed path = some condition) ↔
      ∃ task, s.model.buildTasks.get ⟨path, path⟩ = some task ∧ task.kind = .index := by
    intro path
    constructor
    · rintro ⟨condition, hcondition⟩
      exact hs.pending path condition id (pendingOn_iff.mpr hcondition)
    · rintro ⟨task, htask, hindex⟩
      obtain ⟨callback, hrunning⟩ := hs.tasks _ task htask
      have hserves := hrunning.serves
      have hkey := congrArg BuildTaskKey.ownerRepoPath hrunning.key
      have hkind := hrunning.kind.trans hindex
      cases callback with
      | lazyIndex other =>
        obtain ⟨-, condition, hcondition⟩ := hserves
        change other = path at hkey
        exact ⟨condition, pendingOn_iff.mp (hkey ▸ hcondition)⟩
      | index other =>
        obtain ⟨condition, hcondition⟩ := hserves
        change other = path at hkey
        exact ⟨condition, pendingOn_iff.mp (hkey ▸ hcondition)⟩
      | directoryLoad repoRoot dirPath targetUnloaded dirWasPresent completion => cases hkind
  have hrunning : ∀ key task, s.model.buildTasks.get key = some task →
      (∃ callback, s.spawned.get task.handle = some callback ∧ callback.key = key) ∧ task.handle ∉ s.aborted := by
    intro key task hkey
    obtain ⟨callback, hrunning⟩ := hs.tasks key task hkey
    exact ⟨⟨callback, hrunning.spawned, hrunning.key⟩, hrunning.notAborted⟩
  refine ⟨hpending, hs.once, hrunning, ?_, ?_, ?_⟩
  · intro condition
    apply (hreleased.set_iff condition).trans
    apply and_congr_right
    intro _
    apply forall_congr'
    intro path
    exact not_congr pendingOn_iff
  · intro caller hcaller
    have hcount := hanswered caller
    rw [if_pos hcaller, List.count_nil] at hcount
    rw [waiting, List.count_append]
    omega
  · intro hspawned
    have hnone : ∀ future, s.spawned.get future = none := by
      intro future
      unfold AssocMap.get
      rw [hspawned]
      rfl
    have htasks : ∀ key, s.model.buildTasks.get key = none := by
      intro key
      cases hkey : s.model.buildTasks.get key with
      | none => rfl
      | some task =>
        obtain ⟨⟨callback, hcallback, -⟩, -⟩ := hrunning key task hkey
        rw [hnone] at hcallback
        cases hcallback
    constructor
    · intro path
      cases hpath : s.repositoryIndexed path with
      | none => rfl
      | some condition =>
        obtain ⟨task, htask, -⟩ := (hpending path).mp ⟨condition, hpath⟩
        rw [htasks] at htask
        cases htask
    · apply List.eq_nil_iff_forall_not_mem.mpr
      intro caller hcaller
      obtain hcaller | hcaller := List.mem_append.mp hcaller
      · obtain ⟨future, callback, hget, -⟩ := AssocMap.mem_contents.mp hcaller
        rw [hnone] at hget
        cases hget
      · obtain ⟨key, task, hget, -⟩ := AssocMap.mem_contents.mp hcaller
        rw [htasks] at hget
        cases hget

variable [ToString P] [ToString B]

/-- A future that is not tracked changes nothing, and conditions are set exactly as their repositories settle.
-/
structure Follows (trees : FileTrees P T N) (s : Indexing P T B) (op : Op P N B) : Prop where
  ignored : ∀ future outcome, op = .complete future outcome →
    (∀ key task, s.model.buildTasks.get key = some task → task.handle ≠ future) → (step trees s op).model = s.model
  released : ∀ path condition, s.repositoryIndexed path = some condition →
    (condition ∈ (step trees s op).conditionsSet ↔ (step trees s op).repositoryIndexed path = none)

omit [DecidableEq P] [ToString P] [ToString B] in
theorem model_dropCallback (s : Indexing P T B) (callback : BuildCallback P) :
    (s.dropCallback callback).model = s.model := by
  cases callback with
  | lazyIndex path => rfl
  | index path => rfl
  | directoryLoad repoRoot dirPath targetUnloaded dirWasPresent completion => rfl

theorem complete_untracked {future : Nat}
    (h : ∀ key task, s.model.buildTasks.get key = some task → task.handle ≠ future) (trees : FileTrees P T N)
    (outcome : Outcome N B) : (s.complete trees future outcome).model = s.model := by
  unfold complete
  split
  next => rfl
  next callback _ =>
    split
    next => exact model_dropCallback _ callback
    next => rfl
  next callback result check _ =>
    have hfinish : s.finishBuildTask callback.key future = none := by
      apply Option.eq_none_iff_forall_ne_some.mpr
      intro task htask
      obtain ⟨hget, hhandle⟩ := finishBuildTask_eq_some htask
      exact h _ task hget hhandle
    rw [runCallback_untracked (by exact hfinish)]
    exact model_dropCallback _ callback

theorem follows_step (trees : FileTrees P T N) (op : Op P N B) (h : s.view.Released) : Follows trees s op := by
  constructor
  · rintro future outcome rfl huntracked
    exact complete_untracked huntracked trees outcome
  · intro path condition hpath
    apply ((moves_step trees s op).set_iff h (pendingOn_iff.mpr hpath)).trans
    rw [Option.eq_none_iff_forall_ne_some]
    apply forall_congr'
    intro condition'
    exact not_congr pendingOn_iff

theorem run_invariant (trees : FileTrees P T N) (ops : List (Op P N B)) :
    (run trees ops : Indexing P T B).Steady ∧ (run trees ops : Indexing P T B).view.Released ∧
      (run trees ops : Indexing P T B).Answered [] := by
  induction ops using List.reverseRecOn with
  | nil =>
    refine ⟨⟨nofun, nofun, nofun, nofun, rfl⟩, ⟨nofun, nofun, ?_⟩, answered_initial⟩
    intro condition
    exact ⟨nofun, fun h => absurd h.1 (Nat.not_lt_zero condition)⟩
  | append_singleton ops op ih =>
    obtain ⟨hs, hreleased, hanswered⟩ := ih
    unfold run
    rw [List.foldl_concat]
    exact ⟨steady_step hs trees op, (moves_step trees _ op).released hreleased, answered_step hs hanswered trees op⟩

end Runs

end Indexing

end InfiniShell.RepoMetadata
