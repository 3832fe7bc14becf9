import InfiniShell.RemoteServer.DiffStateSteps

namespace InfiniShell.RemoteServer

open Collections

variable {P : Type}

namespace DiffStateServer

variable {s s' : DiffStateServer P} {action : DiffStateAction P} {key : DiffModelKey}

/-- Whatever waits at a key whose model is not loading waits for a reload of this key. -/
def Covered (s : DiffStateServer P) : Prop :=
  ∀ key model, s.manager.states.get key = some model → model.state.get ≠ .loading → s.manager.pendingFor key ≠ [] →
    ∃ future reload, s.reloads.get future = some reload ∧ reload.key = key

structure Sound (s : DiffStateServer P) : Prop where
  wired : s.manager.Wired
  covered : s.Covered
  fresh : ∀ future reload, s.reloads.get future = some reload → future < s.nextId

theorem Sound.new : (DiffStateServer.new : DiffStateServer P).Sound where
  wired := RemoteDiffStateManager.Wired.new
  covered := fun _ _ h => absurd h nofun
  fresh := fun _ _ h => absurd h nofun

theorem Covered.keep (h : s.Covered)
    (hkeys : ∀ key model', s'.manager.states.get key = some model' → model'.state.get ≠ .loading →
      s'.manager.pendingFor key ≠ [] →
      ∃ model, s.manager.states.get key = some model ∧ model.state.get ≠ .loading ∧ s.manager.pendingFor key ≠ [])
    (hreloads : ∀ future reload, s.reloads.get future = some reload →
      ∃ reload', s'.reloads.get future = some reload' ∧ reload'.key = reload.key) : s'.Covered := by
  intro key model' hmodel' hstate' hpending'
  obtain ⟨model, hmodel, hstate, hpending⟩ := hkeys key model' hmodel' hstate' hpending'
  obtain ⟨future, reload, hreload, hkey⟩ := h key model hmodel hstate hpending
  obtain ⟨reload', hreload', hkey'⟩ := hreloads future reload hreload
  exact ⟨future, reload', hreload', hkey'.trans hkey⟩

theorem spawnContentReload_covered (h : s.Sound) (key : DiffModelKey) (requestId : RequestId)
    (hother : ∀ key' model, key' ≠ key → s'.manager.states.get key' = some model → model.state.get ≠ .loading →
      s'.manager.pendingFor key' ≠ [] → ∃ future reload, s.reloads.get future = some reload ∧ reload.key = key')
    (hsame : s'.reloads = s.reloads) (hnext : s'.nextId = s.nextId) : (s'.spawnContentReload key requestId).Covered := by
  intro key' model hmodel hstate hpending
  by_cases heq : key' = key
  · refine ⟨s'.nextId, ⟨key, requestId, (s'.manager.getModel key).map (·.id), false⟩, ?_, heq.symm⟩
    rw [spawnContentReload, AssocMap.get_insert, if_pos rfl]
  · obtain ⟨future, reload, hreload, hkey⟩ := hother key' model heq hmodel hstate hpending
    refine ⟨future, reload, ?_, hkey⟩
    rw [spawnContentReload, AssocMap.get_insert, if_neg, hsame, hreload]
    rintro rfl
    exact absurd (h.fresh _ _ hreload) (hnext ▸ Nat.lt_irrefl _)

theorem subscribe_covered (h : s.Sound) (repoPath : String) (mode : DiffMode) (requestId : RequestId)
    (connId : ConnectionId) : (s.subscribe repoPath mode requestId connId).1.Covered ∧
      ∀ future reload, (s.subscribe repoPath mode requestId connId).1.reloads.get future = some reload →
        future < (s.subscribe repoPath mode requestId connId).1.nextId := by
  have hadd := fun (m : RemoteDiffStateManager P) key' =>
    RemoteDiffStateManager.pendingFor_addPendingResponse m ⟨repoPath, mode⟩ key' requestId connId
  -- the other keys are as they were
  have hother : ∀ {m : RemoteDiffStateManager P} {key'}, key' ≠ ⟨repoPath, mode⟩ →
      (m.addPendingResponse ⟨repoPath, mode⟩ requestId connId).pendingFor key' = m.pendingFor key' := by
    intro m key' hne
    rw [hadd, if_neg hne]
  cases hsubscribe : s.subscribe repoPath mode requestId connId with
  | mk next outcome =>
    have hcases := subscribe_cases s repoPath mode requestId connId
    rw [hsubscribe] at hcases
    cases hcases with
    | created hmodel =>
      refine ⟨?_, fun future reload hreload => Nat.lt_succ_of_lt (h.fresh future reload hreload)⟩
      refine h.covered.keep (fun key' model' hmodel' hstate' hpending' => ?_) fun _ reload hreload => ⟨reload, hreload, rfl⟩
      change (s.manager.states.insert _ _).get key' = some model' at hmodel'
      rw [AssocMap.get_insert] at hmodel'
      split at hmodel'
      · rw [← Option.some.inj hmodel'] at hstate'
        exact absurd rfl hstate'
      · rename_i hne
        exact ⟨model', hmodel', hstate', hother hne ▸ hpending'⟩
    | waiting model hmodel hwaits =>
      refine ⟨?_, h.fresh⟩
      refine h.covered.keep (fun key' model' hmodel' hstate' hpending' => ?_) fun _ reload hreload => ⟨reload, hreload, rfl⟩
      by_cases heq : key' = ⟨repoPath, mode⟩
      · subst heq
        obtain rfl := Option.some.inj (hmodel.symm.trans hmodel')
        exact ⟨model, hmodel, hstate', hwaits.resolve_left hstate'⟩
      · exact ⟨model', hmodel', hstate', hother heq ▸ hpending'⟩
    | reloading model hmodel =>
      refine ⟨?_, ?_⟩
      · refine spawnContentReload_covered h ⟨repoPath, mode⟩ requestId ?_ rfl rfl
        intro key' model' hne hmodel' hstate' hpending'
        exact h.covered key' model' hmodel' hstate' (hother hne ▸ hpending')
      · intro future reload hreload
        rw [spawnContentReload, AssocMap.get_insert] at hreload
        split at hreload
        · rename_i heq
          exact heq ▸ Nat.lt_succ_self _
        · exact Nat.lt_succ_of_lt (h.fresh future reload hreload)
    | answered model hmodel state => exact ⟨h.covered, h.fresh⟩

theorem ne_nil_of_filter {A : Type} {p : A → Bool} {l : List A} (h : l.filter p ≠ []) : l ≠ [] := by
  rintro rfl
  exact h rfl

theorem abortRequest_covered (h : s.Sound) (requestId : RequestId) : (s.abortRequest requestId).1.Covered ∧
    ∀ future reload, (s.abortRequest requestId).1.reloads.get future = some reload →
      future < (s.abortRequest requestId).1.nextId := by
  rw [abortRequest]
  split
  · exact ⟨h.covered, h.fresh⟩
  · rename_i future _
    dsimp only
    split
    · exact ⟨h.covered, h.fresh⟩
    · rename_i reload hreload
      refine ⟨h.covered.keep (fun _ model hmodel hstate hpending => ⟨model, hmodel, hstate, hpending⟩) ?_, ?_⟩
      · intro other found hfound
        dsimp only
        rw [AssocMap.get_insert]
        split
        · rename_i heq
          rw [heq, hreload] at hfound
          have hkey : reload.key = found.key := congrArg ContentReload.key (Option.some.inj hfound)
          exact ⟨_, rfl, hkey⟩
        · exact ⟨found, hfound, rfl⟩
      · intro other found hfound
        dsimp only at hfound
        rw [AssocMap.get_insert] at hfound
        split at hfound
        · rename_i heq
          exact heq ▸ h.fresh future reload hreload
        · exact h.fresh other found hfound

theorem change_loading (model : LocalDiffStateModel P) (change : ModelChange P) :
    (∃ diffs, (model.change change).2 = some (.newDiffsComputed diffs)) ∨
      (model.change change).1.state.get = .loading ∨ (model.change change).1.state = model.state := by
  cases change with
  | repositoryMissing => exact .inl ⟨none, rfl⟩
  | loadStarted => exact .inr (.inl rfl)
  | diffsComputed changes => exact .inl ⟨changes.toOption, rfl⟩
  | fileUpdated path diff => exact .inr (.inr rfl)
  | metadataRefreshed metadata => exact .inr (.inr rfl)
  | branchChanged metadata => exact .inr (.inr rfl)
  | metadataChanged metadata => exact .inr (.inr rfl)
  | branchesReceived => exact .inr (.inr rfl)

variable {m : RemoteDiffStateManager P}

theorem broadcastNewDiffs_pendingFor (hmodel : (m.states.get key).isSome = true)
    (diffs : Option P) : (m.broadcastNewDiffs key diffs).1.pendingFor key = [] := by
  rw [RemoteDiffStateManager.broadcastNewDiffs]
  split
  · rename_i hnone
    rw [RemoteDiffStateManager.readStateAndMetadata, Option.map_eq_none_iff] at hnone
    rw [hnone] at hmodel
    exact absurd hmodel Bool.false_ne_true
  · exact (RemoteDiffStateManager.pendingFor_drain m key key).trans (if_pos rfl)

theorem resolvePendingResponses_pendingFor (hmodel : (m.states.get key).isSome = true)
    (diffs : Option P) : (m.resolvePendingResponses key diffs).1.pendingFor key = [] := by
  rw [RemoteDiffStateManager.resolvePendingResponses]
  split
  · rename_i hnone
    rw [RemoteDiffStateManager.readStateAndMetadata, Option.map_eq_none_iff] at hnone
    rw [hnone] at hmodel
    exact absurd hmodel Bool.false_ne_true
  · exact (RemoteDiffStateManager.pendingFor_drain m key key).trans (if_pos rfl)

theorem resolves_ne_nil
    {result : RemoteDiffStateManager P × List (DiffStateUpdate P)} (h : m.Resolves result) (key : DiffModelKey)
    (hpending : result.1.pendingFor key ≠ []) : m.pendingFor key ≠ [] := by
  cases h.pending with
  | inl hquiet => exact hquiet.1 key ▸ hpending
  | inr hdrained =>
    obtain ⟨drained, hdrains, -⟩ := hdrained
    rw [hdrains] at hpending
    split at hpending
    · exact absurd rfl hpending
    · exact hpending

theorem changeModel_covered (h : s.Sound) (key : DiffModelKey) (change : ModelChange P) :
    (s.changeModel key change).1.Covered := by
  rw [changeModel]
  split
  · exact h.covered
  · rename_i model hmodel
    dsimp only
    have hinsert : ∀ key', (s.manager.insertModel key (model.change change).1).states.get key' =
        if key' = key then some (model.change change).1 else s.manager.states.get key' :=
      fun key' => AssocMap.get_insert _ _ _ _
    cases hevent : (model.change change).2 with
    | none =>
      refine h.covered.keep (fun key' model' hmodel' hstate' hpending' => ?_) fun _ reload hreload => ⟨reload, hreload, rfl⟩
      rw [hinsert] at hmodel'
      split at hmodel'
      · rename_i heq
        rw [← Option.some.inj hmodel'] at hstate'
        refine ⟨model, heq ▸ hmodel, ?_, hpending'⟩
        obtain ⟨diffs, hnew⟩ | hloading | hsame := change_loading model change
        · exact absurd (hnew.symm.trans hevent) (Option.some_ne_none _)
        · exact absurd hloading hstate'
        · exact hsame ▸ hstate'
      · exact ⟨model', hmodel', hstate', hpending'⟩
    | some event =>
      have hresolves := RemoteDiffStateManager.handleModelEvent_resolves
        (s.manager.insertModel key (model.change change).1) key event
      refine h.covered.keep (fun key' model' hmodel' hstate' hpending' => ?_) fun _ reload hreload => ⟨reload, hreload, rfl⟩
      have hwaits : s.manager.pendingFor key' ≠ [] := resolves_ne_nil hresolves key' hpending'
      change (RemoteDiffStateManager.handleModelEvent _ key event).1.states.get key' = some model' at hmodel'
      rw [hresolves.states, hinsert] at hmodel'
      split at hmodel'
      · rename_i heq
        subst heq
        rw [← Option.some.inj hmodel'] at hstate'
        obtain ⟨diffs, hnew⟩ | hloading | hsame := change_loading model change
        · -- whoever waited has the new diffs
          obtain rfl := Option.some.inj (hevent.symm.trans hnew)
          refine absurd (broadcastNewDiffs_pendingFor ?_ diffs) hpending'
          rw [hinsert, if_pos rfl]
          rfl
        · exact absurd hloading hstate'
        · exact ⟨model, hmodel, hsame ▸ hstate', hwaits⟩
      · exact ⟨model', hmodel', hstate', hwaits⟩

theorem reloadEnd_covered (h : s.Sound) (haction : IsReloadEnd action) : (s.step action).1.Covered ∧
    ∀ future reload, (s.step action).1.reloads.get future = some reload → future < (s.step action).1.nextId := by
  cases step_reloadEnd s haction with
  | inl hnothing =>
    rw [hnothing.2]
    exact ⟨h.covered, h.fresh⟩
  | inr hends =>
    obtain ⟨future, reload, diffs, -, hreload, hstep⟩ := hends
    rw [hstep]
    let m : RemoteDiffStateManager P := { s.manager with inProgress := s.manager.inProgress.erase reload.requestId }
    have hresolves := RemoteDiffStateManager.resolvePendingResponses_resolves m reload.key diffs
    refine ⟨?_, ?_⟩
    · intro key model hmodel hstate hpending
      change (m.resolvePendingResponses reload.key diffs).1.states.get key = some model at hmodel
      change (m.resolvePendingResponses reload.key diffs).1.pendingFor key ≠ [] at hpending
      rw [hresolves.states] at hmodel
      have hne : key ≠ reload.key := by
        rintro rfl
        exact hpending (resolvePendingResponses_pendingFor (hmodel ▸ rfl) diffs)
      obtain ⟨other, found, hfound, hkey⟩ :=
        h.covered key model hmodel hstate (resolves_ne_nil hresolves key hpending)
      refine ⟨other, found, ?_, hkey⟩
      change (s.reloads.erase future).get other = some found
      rw [AssocMap.get_erase, if_neg, hfound]
      rintro rfl
      exact hne (hkey ▸ congrArg ContentReload.key (Option.some.inj (hfound.symm.trans hreload)))
    · intro other found hfound
      change (s.reloads.erase future).get other = some found at hfound
      rw [AssocMap.get_erase] at hfound
      split at hfound
      · exact absurd hfound.symm (Option.some_ne_none _)
      · exact h.fresh other found hfound

theorem Sound.step (h : s.Sound) (hunused : s.Unused action) : (s.step action).1.Sound := by
  have heffect := step_effect h.wired action hunused
  have hsound : (s.step action).1.Covered ∧
      ∀ future reload, (s.step action).1.reloads.get future = some reload → future < (s.step action).1.nextId := by
    cases action with
    | subscribe repoPath mode requestId connId => exact subscribe_covered h repoPath mode requestId connId
    | unsubscribeConnection key connId =>
      refine ⟨?_, h.fresh⟩
      refine h.covered.keep (fun key' model' hmodel' hstate' hpending' => ?_) fun _ reload hreload => ⟨reload, hreload, rfl⟩
      refine ⟨model', RemoteDiffStateManager.unsubscribeConnection_states h.wired hmodel', hstate', ?_⟩
      change (s.manager.unsubscribeConnection key connId).pendingFor key' ≠ [] at hpending'
      rw [RemoteDiffStateManager.unsubscribeConnection_pendingFor h.wired] at hpending'
      split at hpending'
      · exact ne_nil_of_filter hpending'
      · exact hpending'
    | removeConnection connId =>
      refine ⟨?_, h.fresh⟩
      refine h.covered.keep (fun key' model' hmodel' hstate' hpending' => ?_) fun _ reload hreload => ⟨reload, hreload, rfl⟩
      refine ⟨model', (RemoteDiffStateManager.unsubscribeKeys h.wired _ connId).2.2 key' model' hmodel', hstate', ?_⟩
      change (s.manager.removeConnection connId).pendingFor key' ≠ [] at hpending'
      rw [RemoteDiffStateManager.removeConnection_pendingFor h.wired] at hpending'
      exact ne_nil_of_filter hpending'
    | abortRequest requestId => exact abortRequest_covered h requestId
    | abortPendingResponse requestId =>
      refine ⟨?_, h.fresh⟩
      refine h.covered.keep (fun key' model' hmodel' hstate' hpending' => ?_) fun _ reload hreload => ⟨reload, hreload, rfl⟩
      have hstates : (s.manager.abortPendingResponse requestId).1.states = s.manager.states := by
        rw [RemoteDiffStateManager.abortPendingResponse]
        split <;> rfl
      refine ⟨model', hstates ▸ hmodel', hstate', ?_⟩
      change (s.manager.abortPendingResponse requestId).1.pendingFor key' ≠ [] at hpending'
      rw [RemoteDiffStateManager.abortPendingResponse_pendingFor h.wired] at hpending'
      exact ne_nil_of_filter hpending'
    | changeModel key change =>
      refine ⟨changeModel_covered h key change, ?_⟩
      have hsame : (s.changeModel key change).1.reloads = s.reloads ∧ (s.changeModel key change).1.nextId = s.nextId := by
        rw [changeModel]
        split
        · exact ⟨rfl, rfl⟩
        · dsimp only
          split <;> exact ⟨rfl, rfl⟩
      change ∀ future reload, (s.changeModel key change).1.reloads.get future = some reload →
        future < (s.changeModel key change).1.nextId
      rw [hsame.1, hsame.2]
      exact h.fresh
    | reloadCompleted future diffs => exact reloadEnd_covered h trivial
    | reloadAborted future => exact reloadEnd_covered h trivial
  exact ⟨heffect.wired, hsound.1, hsound.2⟩

end DiffStateServer

end InfiniShell.RemoteServer
