import InfiniShell.RemoteServer.DiffStateRuns

namespace InfiniShell.RemoteServer

open Collections

variable {P : Type}

namespace DiffStateServer

variable {s : DiffStateServer P} {action : DiffStateAction P} {key : DiffModelKey}

/-- A snapshot reports no loading state and comes from a reload for the model that the key has now. -/
def FromOwnModel (s : DiffStateServer P) (action : DiffStateAction P) : Prop :=
  ∀ update ∈ (s.step action).2, update.requestIds ≠ [] → update.state? ≠ some .loading ∧
    ∀ reload, s.ended action = some reload →
      ∃ model, s.manager.getModel reload.key = some model ∧ reload.model = some model.id

/-- If a reload ends while requests wait at its key, the model that it was started for is in place, and not loading. -/
def EndsInPlace (s : DiffStateServer P) (action : DiffStateAction P) : Prop :=
  ∀ reload, s.ended action = some reload → s.manager.pendingFor reload.key ≠ [] →
    ∃ model, s.manager.getModel reload.key = some model ∧ reload.model = some model.id ∧ model.state.get ≠ .loading

variable {model : LocalDiffStateModel P} {future : FutureId} {reload : ContentReload}

theorem endReload_emits (hmodel : s.manager.getModel reload.key = some model) (diffs : Option P) :
    (s.endReload future reload diffs).2 = [.snapshot reload.key.repoPath reload.key.mode model.state.get model.metadata
      diffs ((s.manager.pendingFor reload.key).map RemoteDiffStateManager.answerTo)] := by
  have hread : ({ s.manager with inProgress := s.manager.inProgress.erase reload.requestId } :
      RemoteDiffStateManager P).readStateAndMetadata reload.key = some (model.state.get, model.metadata) := by
    change (s.manager.states.get reload.key).map _ = _
    change s.manager.states.get reload.key = some model at hmodel
    rw [hmodel]
    rfl
  rw [endReload, withManager, RemoteDiffStateManager.resolvePendingResponses, hread]
  rfl

theorem endReload_quiet (hmodel : s.manager.getModel reload.key = none)
    (diffs : Option P) : (s.endReload future reload diffs).2 = [] := by
  have hread : ({ s.manager with inProgress := s.manager.inProgress.erase reload.requestId } :
      RemoteDiffStateManager P).readStateAndMetadata reload.key = none := by
    change (s.manager.states.get reload.key).map _ = _
    change s.manager.states.get reload.key = none at hmodel
    rw [hmodel]
    rfl
  rw [endReload, withManager, RemoteDiffStateManager.resolvePendingResponses, hread]

theorem getModel_of_pending (hwired : s.manager.Wired) (hpending : s.manager.pendingFor key ≠ []) :
    ∃ model, s.manager.getModel key = some model := by
  obtain ⟨p, hp⟩ := List.exists_mem_of_ne_nil _ hpending
  exact Option.isSome_iff_exists.mp (hwired.model hp)

theorem change_newDiffs {change : ModelChange P} {diffs : Option P}
    (h : (model.change change).2 = some (.newDiffsComputed diffs)) : (model.change change).1.state.get ≠ .loading := by
  cases change with
  | repositoryMissing => nofun
  | diffsComputed changes => cases changes <;> nofun
  | loadStarted => exact absurd h nofun
  | fileUpdated path diff => exact absurd h nofun
  | metadataRefreshed metadata => exact absurd h nofun
  | branchChanged metadata => exact absurd h nofun
  | metadataChanged metadata => exact absurd h nofun
  | branchesReceived => exact absurd h nofun

theorem changeModel_fromOwnModel (s : DiffStateServer P) (key : DiffModelKey) (change : ModelChange P) :
    s.FromOwnModel (.changeModel key change) := by
  intro update hupdate hids
  refine ⟨?_, fun reload hended => absurd hended nofun⟩
  change update ∈ (s.changeModel key change).2 at hupdate
  rw [changeModel] at hupdate
  split at hupdate
  · exact absurd hupdate List.not_mem_nil
  · rename_i model hmodel
    dsimp only at hupdate
    cases hevent : (model.change change).2 with
    | none =>
      rw [hevent] at hupdate
      exact absurd hupdate List.not_mem_nil
    | some event =>
      rw [hevent] at hupdate
      change update ∈ (RemoteDiffStateManager.handleModelEvent _ key event).2 at hupdate
      cases event with
      | newDiffsComputed diffs =>
        have hread : (s.manager.insertModel key (model.change change).1).readStateAndMetadata key =
            some ((model.change change).1.state.get, (model.change change).1.metadata) := by
          rw [RemoteDiffStateManager.readStateAndMetadata, RemoteDiffStateManager.insertModel, AssocMap.get_insert,
            if_pos rfl]
          rfl
        rw [RemoteDiffStateManager.handleModelEvent, RemoteDiffStateManager.broadcastNewDiffs, hread] at hupdate
        rw [List.mem_singleton.mp hupdate]
        intro hloading
        exact change_newDiffs hevent (Option.some.inj hloading)
      | currentBranchChanged =>
        rw [RemoteDiffStateManager.handleModelEvent] at hupdate
        split at hupdate
        · exact absurd hupdate List.not_mem_nil
        · rw [List.mem_singleton.mp hupdate] at hids
          exact absurd rfl hids
      | singleFileUpdated path diff =>
        rw [List.mem_singleton.mp hupdate] at hids
        exact absurd rfl hids
      | metadataRefreshed metadata =>
        rw [List.mem_singleton.mp hupdate] at hids
        exact absurd rfl hids
      | connectionLost => exact absurd hupdate List.not_mem_nil
      | branchesReceived => exact absurd hupdate List.not_mem_nil
      | gitOpCompleted => exact absurd hupdate List.not_mem_nil
      | commitMessageGenerated => exact absurd hupdate List.not_mem_nil
      | branchCommittedFilesReceived => exact absurd hupdate List.not_mem_nil

theorem reloadEnd_fromOwnModel_iff (hwired : s.manager.Wired) (haction : IsReloadEnd action) :
    s.FromOwnModel action ↔ s.EndsInPlace action := by
  cases step_reloadEnd s haction with
  | inl hnothing =>
    constructor
    · intro _ reload hended
      exact absurd (hnothing.1.symm.trans hended) nofun
    · intro _ update hupdate
      rw [hnothing.2] at hupdate
      exact absurd hupdate List.not_mem_nil
  | inr hends =>
    obtain ⟨future, reload, diffs, hended, -, hstep⟩ := hends
    constructor
    · intro h found hfound hpending
      obtain rfl := Option.some.inj (hended.symm.trans hfound)
      obtain ⟨model, hmodel⟩ := getModel_of_pending hwired hpending
      have hids : (DiffStateUpdate.snapshot reload.key.repoPath reload.key.mode model.state.get model.metadata diffs
          ((s.manager.pendingFor reload.key).map RemoteDiffStateManager.answerTo)).requestIds ≠ [] := by
        change List.filterMap Prod.snd _ ≠ []
        rw [filterMap_answerTo, ne_eq, List.map_eq_nil_iff]
        exact hpending
      obtain ⟨hstate, hreload⟩ := h _ (by rw [hstep, endReload_emits hmodel]; exact List.mem_singleton_self _) hids
      obtain ⟨own, hown, hid⟩ := hreload reload hended
      exact ⟨own, hown, hid, fun hloading => hstate (congrArg some (Option.some.inj (hmodel.symm.trans hown) ▸ hloading))⟩
    · intro h update hupdate hids
      rw [hstep] at hupdate
      cases hmodel : s.manager.getModel reload.key with
      | none =>
        rw [endReload_quiet hmodel] at hupdate
        exact absurd hupdate List.not_mem_nil
      | some model =>
        rw [endReload_emits hmodel] at hupdate
        rw [List.mem_singleton.mp hupdate] at hids ⊢
        change List.filterMap Prod.snd _ ≠ [] at hids
        rw [filterMap_answerTo, ne_eq, List.map_eq_nil_iff] at hids
        obtain ⟨own, hown, hid, hstate⟩ := h reload hended hids
        obtain rfl := Option.some.inj (hmodel.symm.trans hown)
        refine ⟨fun hloading => hstate (Option.some.inj hloading), fun found hfound => ?_⟩
        obtain rfl := Option.some.inj (hended.symm.trans hfound)
        exact ⟨model, hmodel, hid⟩

theorem fromOwnModel_iff (hwired : s.manager.Wired) (action : DiffStateAction P) :
    s.FromOwnModel action ↔ s.EndsInPlace action := by
  have hquiet : (s.step action).2 = [] → s.ended action = none → (s.FromOwnModel action ↔ s.EndsInPlace action) := by
    intro hemits hended
    constructor
    · intro _ reload hreload
      exact absurd (hended.symm.trans hreload) nofun
    · intro _ update hupdate
      rw [hemits] at hupdate
      exact absurd hupdate List.not_mem_nil
  cases action with
  | subscribe repoPath mode requestId connId => exact hquiet rfl rfl
  | unsubscribeConnection key connId => exact hquiet rfl rfl
  | removeConnection connId => exact hquiet rfl rfl
  | abortRequest requestId => exact hquiet rfl rfl
  | abortPendingResponse requestId => exact hquiet rfl rfl
  | changeModel key change => exact ⟨fun _ _ h => absurd h nofun, fun _ => changeModel_fromOwnModel s key change⟩
  | reloadCompleted future diffs => exact reloadEnd_fromOwnModel_iff hwired trivial
  | reloadAborted future => exact reloadEnd_fromOwnModel_iff hwired trivial

theorem ended_answers (hwired : s.manager.Wired) (hended : s.ended action = some reload)
    {p : PendingDiffStateResponse} (hp : p ∈ s.manager.pendingFor reload.key) :
    p.requestId ∈ answeredIds (s.step action).2 := by
  have haction : IsReloadEnd action := by
    cases action with
    | reloadCompleted future diffs => trivial
    | reloadAborted future => trivial
    | subscribe repoPath mode requestId connId => exact absurd hended nofun
    | unsubscribeConnection key connId => exact absurd hended nofun
    | removeConnection connId => exact absurd hended nofun
    | abortRequest requestId => exact absurd hended nofun
    | abortPendingResponse requestId => exact absurd hended nofun
    | changeModel key change => exact absurd hended nofun
  obtain ⟨hnone, -⟩ | ⟨future, found, diffs, hfound, -, hstep⟩ := step_reloadEnd s haction
  · exact absurd (hnone.symm.trans hended) nofun
  · obtain rfl := Option.some.inj (hended.symm.trans hfound)
    obtain ⟨model, hmodel⟩ := getModel_of_pending hwired (List.ne_nil_of_mem hp)
    rw [hstep, endReload_emits hmodel, answeredIds_snapshot, filterMap_answerTo]
    exact List.mem_map.mpr ⟨p, hp, rfl⟩

end DiffStateServer

open DiffStateServer

def requested (actions : List (DiffStateAction P)) : List RequestId :=
  actions.filterMap fun action =>
    match action with
    | .subscribe _ _ requestId _ => some requestId
    | _ => none

def after (actions : List (DiffStateAction P)) : DiffStateServer P := (DiffStateServer.new.run actions).1

def emitted (actions : List (DiffStateAction P)) : List (DiffStateUpdate P) := (DiffStateServer.new.run actions).2

theorem run_cons (s : DiffStateServer P) (action : DiffStateAction P) (actions : List (DiffStateAction P)) :
    s.run (action :: actions) =
      (((s.step action).1.run actions).1, (s.step action).2 ++ ((s.step action).1.run actions).2) := rfl

theorem run_append (s : DiffStateServer P) (first second : List (DiffStateAction P)) :
    s.run (first ++ second) = (((s.run first).1.run second).1, (s.run first).2 ++ ((s.run first).1.run second).2) := by
  induction first generalizing s with
  | nil => rfl
  | cons action first ih =>
    rw [List.cons_append, run_cons, ih, run_cons, List.append_assoc]

theorem after_concat (actions : List (DiffStateAction P)) (action : DiffStateAction P) :
    after (actions ++ [action]) = ((after actions).step action).1 := by
  rw [after, run_append]
  rfl

theorem emitted_concat (actions : List (DiffStateAction P)) (action : DiffStateAction P) :
    emitted (actions ++ [action]) = emitted actions ++ ((after actions).step action).2 := by
  rw [emitted, run_append]
  change _ ++ (((after actions).step action).2 ++ []) = _
  rw [List.append_nil]
  rfl

structure RunSound (actions : List (DiffStateAction P)) : Prop where
  sound : (after actions).Sound
  waiting : ∀ key p, p ∈ (after actions).manager.pendingFor key →
    p.requestId ∈ requested actions ∧ p.requestId ∉ answeredIds (emitted actions)
  once : (answeredIds (emitted actions)).Nodup
  asked : ∀ id, id ∈ answeredIds (emitted actions) → id ∈ requested actions

theorem requested_append (first second : List (DiffStateAction P)) :
    requested (first ++ second) = requested first ++ requested second :=
  List.filterMap_append

variable {actions : List (DiffStateAction P)} {action : DiffStateAction P}

theorem RunSound.unused (h : RunSound actions)
    (hdistinct : (requested (actions ++ [action])).Nodup) : (after actions).Unused action := by
  rintro repoPath mode requestId connId rfl key p hp rfl
  rw [requested_append] at hdistinct
  exact List.disjoint_of_nodup_append hdistinct (h.waiting key p hp).1 List.mem_cons_self

variable {s : DiffStateServer P}

theorem mem_added {key : DiffModelKey}
    {p : PendingDiffStateResponse} (h : p ∈ s.added action key) : p.requestId ∈ requested [action] := by
  cases action with
  | subscribe repoPath mode requestId connId =>
    rw [added] at h
    split at h
    · split at h
      · rw [List.mem_singleton.mp h]
        exact List.mem_cons_self
      · exact absurd h List.not_mem_nil
    · exact absurd h List.not_mem_nil
  | _ => exact absurd h List.not_mem_nil

theorem RunSound.concat (h : RunSound actions)
    (hdistinct : (requested (actions ++ [action])).Nodup) : RunSound (actions ++ [action]) := by
  have hunused := h.unused hdistinct
  have heffect := step_effect h.sound.wired action hunused
  have hanswers : answeredIds (emitted (actions ++ [action])) =
      answeredIds (emitted actions) ++ answeredIds ((after actions).step action).2 := by
    rw [emitted_concat, answeredIds, List.flatMap_append]
    rfl
  have hwaited : ∀ id ∈ answeredIds ((after actions).step action).2,
      ∃ key p, p ∈ (after actions).manager.pendingFor key ∧ p.requestId = id := by
    intro id hid
    obtain hnone | ⟨key, hsome⟩ := heffect.answered
    · rw [hnone] at hid
      exact absurd hid List.not_mem_nil
    · rw [hsome] at hid
      obtain ⟨p, hp, heq⟩ := List.mem_map.mp hid
      exact ⟨key, p, hp, heq⟩
  rw [requested_append] at hdistinct
  refine ⟨?_, ?_, ?_, ?_⟩
  · rw [after_concat]
    exact h.sound.step hunused
  · intro key p hp
    rw [after_concat, heffect.pending] at hp
    rw [requested_append, hanswers, List.mem_append, List.mem_append]
    obtain ⟨hold, hunsettled⟩ | hadded := hp
    · obtain ⟨hasked, hunanswered⟩ := h.waiting key p hold
      exact ⟨.inl hasked, not_or.mpr ⟨hunanswered, fun hid => hunsettled (.inl hid)⟩⟩
    · have hnew := mem_added hadded
      refine ⟨.inr hnew, not_or.mpr ⟨fun hid => ?_, fun hid => ?_⟩⟩
      · exact List.disjoint_of_nodup_append hdistinct (h.asked _ hid) hnew
      · obtain ⟨key', p', hp', heq⟩ := hwaited _ hid
        exact List.disjoint_of_nodup_append hdistinct (h.waiting key' p' hp').1 (heq ▸ hnew)
  · rw [hanswers]
    refine List.Nodup.append h.once ?_ fun id hid hid' => ?_
    · obtain hnone | ⟨key, hsome⟩ := heffect.answered
      · rw [hnone]
        exact List.nodup_nil
      · rw [hsome]
        exact h.sound.wired.distinct key
    · obtain ⟨key, p, hp, rfl⟩ := hwaited id hid'
      exact (h.waiting key p hp).2 hid
  · intro id hid
    rw [requested_append, List.mem_append]
    rw [hanswers, List.mem_append] at hid
    obtain hold | hnew := hid
    · exact .inl (h.asked id hold)
    · obtain ⟨key, p, hp, rfl⟩ := hwaited id hnew
      exact .inl (h.waiting key p hp).1

theorem runSound (actions : List (DiffStateAction P)) (hdistinct : (requested actions).Nodup) : RunSound actions := by
  induction actions using List.reverseRecOn with
  | nil =>
    exact ⟨Sound.new, fun _ _ h => absurd h List.not_mem_nil, List.nodup_nil, fun _ h => absurd h List.not_mem_nil⟩
  | append_singleton actions action ih =>
    have hearlier := hdistinct
    rw [requested_append] at hearlier
    exact (ih hearlier.of_append_left).concat hdistinct

structure AnsweredOnce (actions : List (DiffStateAction P)) : Prop where
  once : (answeredIds (emitted actions)).Nodup
  waits : ∀ before repoPath mode requestId connId between rest,
    actions = before ++ .subscribe repoPath mode requestId connId :: (between ++ rest) →
    ((after before).subscribe repoPath mode requestId connId).2 = .async →
    (⟨requestId, connId⟩ ∈ (after (before ++ .subscribe repoPath mode requestId connId :: between)).manager.pendingFor
        ⟨repoPath, mode⟩ ↔
      ∀ earlier action later, between = earlier ++ action :: later →
        ¬(after (before ++ .subscribe repoPath mode requestId connId :: earlier)).Settles action ⟨repoPath, mode⟩
          ⟨requestId, connId⟩)
  underway : ∀ before rest, actions = before ++ rest → ∀ key model p,
    (after before).manager.getModel key = some model → model.state.get = .loaded →
    p ∈ (after before).manager.pendingFor key →
    ∃ future reload, (after before).reloads.get future = some reload ∧ reload.key = key ∧
      ∀ diffs, p.requestId ∈ answeredIds ((after before).step
        (if reload.aborted then .reloadAborted future else .reloadCompleted future diffs)).2
  own : ∀ before action rest, actions = before ++ action :: rest → (after before).FromOwnModel action

theorem ended_of_get {future : FutureId} {reload : ContentReload}
    (h : s.reloads.get future = some reload) (diffs : Option P) :
    s.ended (if reload.aborted then .reloadAborted future else .reloadCompleted future diffs) = some reload := by
  cases haborted : reload.aborted with
  | false =>
    rw [if_neg nofun, ended, h, Option.filter_some, haborted]
    rfl
  | true =>
    rw [if_pos rfl, ended, h, Option.filter_some, haborted]
    rfl

theorem waits_until_settled {before between : List (DiffStateAction P)} {repoPath : String} {mode : DiffMode}
    {requestId : RequestId} {connId : ConnectionId}
    (hdistinct : (requested (before ++ .subscribe repoPath mode requestId connId :: between)).Nodup)
    (hanswer : ((after before).subscribe repoPath mode requestId connId).2 = .async) :
    (⟨requestId, connId⟩ ∈ (after (before ++ .subscribe repoPath mode requestId connId :: between)).manager.pendingFor
        ⟨repoPath, mode⟩ ↔
      ∀ earlier action later, between = earlier ++ action :: later →
        ¬(after (before ++ .subscribe repoPath mode requestId connId :: earlier)).Settles action ⟨repoPath, mode⟩
          ⟨requestId, connId⟩) := by
  induction between using List.reverseRecOn with
  | nil =>
    have hbefore : (requested before).Nodup := by
      rw [requested_append] at hdistinct
      exact hdistinct.of_append_left
    have hrun := runSound before hbefore
    have heffect := step_effect hrun.sound.wired _ (hrun.unused hdistinct)
    rw [after_concat, heffect.pending]
    refine ⟨fun _ earlier action later hsplit => ?_, fun _ => .inr ?_⟩
    · exact absurd hsplit (by simp)
    · rw [added, hanswer]
      dsimp only
      rw [if_pos rfl]
      exact List.mem_singleton_self _
  | append_singleton between action ih =>
    have hassoc : before ++ DiffStateAction.subscribe repoPath mode requestId connId :: (between ++ [action]) =
        (before ++ .subscribe repoPath mode requestId connId :: between) ++ [action] := by
      rw [List.append_assoc, List.cons_append]
    rw [hassoc] at hdistinct ⊢
    have hearlier := hdistinct
    rw [requested_append] at hearlier
    have hrun := runSound _ hearlier.of_append_left
    have heffect := step_effect hrun.sound.wired action (hrun.unused hdistinct)
    have hnotAdded : ∀ key, (⟨requestId, connId⟩ : PendingDiffStateResponse) ∉
        (after (before ++ .subscribe repoPath mode requestId connId :: between)).added action key := by
      intro key hadded
      refine List.disjoint_of_nodup_append hearlier ?_ (mem_added hadded)
      rw [requested_append]
      exact List.mem_append_right _ List.mem_cons_self
    rw [after_concat, heffect.pending, or_iff_left (hnotAdded _)]
    refine (and_congr_left' (ih hearlier.of_append_left)).trans ?_
    constructor
    · rintro ⟨hunsettled, hlast⟩ earlier other later hsplit
      obtain rfl | ⟨tail, last, rfl⟩ := List.eq_nil_or_concat later
      · obtain ⟨rfl, hsame⟩ := List.append_inj' hsplit rfl
        rw [← (List.cons.inj hsame).1]
        exact hlast
      · refine hunsettled earlier other tail ?_
        rw [List.concat_eq_append, ← List.cons_append, ← List.append_assoc] at hsplit
        exact (List.append_inj' hsplit rfl).1
    · intro h
      refine ⟨fun earlier other later hsplit => ?_, h between action [] rfl⟩
      refine h earlier other (later ++ [action]) ?_
      rw [hsplit, List.append_assoc, List.cons_append]

/-- Requests are answered once and rightly if and only if no reload with waiters ends for a lost or loading
model. -/
theorem answered_once_iff (actions : List (DiffStateAction P)) (hdistinct : (requested actions).Nodup) :
    AnsweredOnce actions ↔
      ∀ before action rest, actions = before ++ action :: rest → (after before).EndsInPlace action := by
  have hpart : ∀ {before rest : List (DiffStateAction P)}, actions = before ++ rest → (requested before).Nodup := by
    rintro before rest rfl
    rw [requested_append] at hdistinct
    exact hdistinct.of_append_left
  constructor
  · intro h before action rest hsplit
    exact (fromOwnModel_iff (runSound before (hpart hsplit)).sound.wired action).mp (h.own before action rest hsplit)
  · intro h
    refine ⟨(runSound actions hdistinct).once, ?_, ?_, ?_⟩
    · intro before repoPath mode requestId connId between rest hsplit hanswer
      refine waits_until_settled ?_ hanswer
      refine hpart ((hsplit.trans ?_ : actions = _ ++ rest))
      rw [List.append_assoc, List.cons_append]
    · intro before rest hsplit key model p hmodel hstate hp
      have hsound := (runSound before (hpart hsplit)).sound
      obtain ⟨future, reload, hreload, rfl⟩ :=
        hsound.covered key model hmodel (hstate ▸ nofun) (List.ne_nil_of_mem hp)
      exact ⟨future, reload, hreload, rfl, fun diffs => ended_answers hsound.wired (ended_of_get hreload diffs) hp⟩
    · intro before action rest hsplit
      exact (fromOwnModel_iff (runSound before (hpart hsplit)).sound.wired action).mpr (h before action rest hsplit)

def reconnectRun : List (DiffStateAction String) :=
  [.subscribe "/repo" .head "r1" 7, .changeModel ⟨"/repo", .head⟩ (.diffsComputed (.ok "diff")),
    .subscribe "/repo" .head "r2" 7, .removeConnection 7, .subscribe "/repo" .head "r3" 7]

theorem reconnectRun_distinct : (requested reconnectRun).Nodup ∧
    (AnsweredOnce reconnectRun ↔
      ∀ before action rest, reconnectRun = before ++ action :: rest → (after before).EndsInPlace action) :=
  ⟨by decide +kernel, answered_once_iff reconnectRun (by decide +kernel)⟩

theorem reconnectRun_answers_early :
    ¬∀ (P : Type) (actions : List (DiffStateAction P)), (requested actions).Nodup → AnsweredOnce actions := by
  intro h
  have hanswers := h String (reconnectRun ++ [.reloadCompleted 1 (some "old diff")]) (by decide +kernel)
  have hown := hanswers.own reconnectRun (.reloadCompleted 1 (some "old diff")) [] rfl
  have hemits : ((after reconnectRun).step (.reloadCompleted 1 (some "old diff"))).2.map
      (fun update => (update.requestIds, update.state?)) = [(["r3"], some .loading)] := by
    decide +kernel
  have hmem : (["r3"], some DiffState.loading) ∈ ((after reconnectRun).step (.reloadCompleted 1 (some "old diff"))).2.map
      (fun update => (update.requestIds, update.state?)) := by
    rw [hemits]
    exact List.mem_singleton_self _
  obtain ⟨update, hupdate, hreports⟩ := List.mem_map.mp hmem
  have hids : update.requestIds = ["r3"] := congrArg Prod.fst hreports
  have hstate : update.state? = some .loading := congrArg Prod.snd hreports
  exact (hown update hupdate (by rw [hids]; nofun)).1 hstate

end InfiniShell.RemoteServer
