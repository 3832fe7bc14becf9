import InfiniShell.RemoteServer.DiffStateManager

namespace InfiniShell.RemoteServer

open Collections

variable {P : Type}

def DiffStateUpdate.requestIds : DiffStateUpdate P → List RequestId
  | .snapshot _ _ _ _ _ subscribers => subscribers.filterMap Prod.snd
  | .metadataUpdate _ _ _ _ => []
  | .fileDelta _ _ _ _ _ _ => []

def answeredIds (updates : List (DiffStateUpdate P)) : List RequestId := updates.flatMap (·.requestIds)

def DiffStateUpdate.state? : DiffStateUpdate P → Option DiffState
  | .snapshot _ _ state _ _ _ => some state
  | .metadataUpdate _ _ _ _ => none
  | .fileDelta _ _ _ _ _ _ => none

theorem answeredIds_snapshot (repoPath : String) (mode : DiffMode) (state : DiffState) (metadata diffs : Option P)
    (subscribers : List (ConnectionId × Option RequestId)) :
    answeredIds [.snapshot repoPath mode state metadata diffs subscribers] = subscribers.filterMap Prod.snd :=
  List.append_nil _

theorem filterMap_answerTo (pending : List PendingDiffStateResponse) :
    (pending.map RemoteDiffStateManager.answerTo).filterMap Prod.snd = pending.map (·.requestId) := by
  rw [List.filterMap_map]
  exact congrFun List.filterMap_eq_map pending

theorem filterMap_broadcast (connections : List ConnectionId) :
    (connections.map fun c => (c, (none : Option RequestId))).filterMap Prod.snd = [] := by
  rw [List.filterMap_map]
  exact List.filterMap_eq_nil_iff.mpr fun _ _ => rfl

namespace RemoteDiffStateManager

variable {m : RemoteDiffStateManager P} {key : DiffModelKey}

/-- Either nothing is answered, or all that waits at one key. -/
structure Resolves (m : RemoteDiffStateManager P) (result : RemoteDiffStateManager P × List (DiffStateUpdate P)) :
    Prop where
  states : result.1.states = m.states
  connections : result.1.keyToConnections = m.keyToConnections
  pending : ((∀ key, result.1.pendingFor key = m.pendingFor key) ∧ answeredIds result.2 = []) ∨
    ∃ key, (∀ key', result.1.pendingFor key' = if key' = key then [] else m.pendingFor key') ∧
      answeredIds result.2 = (m.pendingFor key).map (·.requestId)

theorem Resolves.quiet {updates : List (DiffStateUpdate P)} (h : answeredIds updates = []) : m.Resolves (m, updates) :=
  ⟨rfl, rfl, .inl ⟨fun _ => rfl, h⟩⟩

theorem broadcastNewDiffs_resolves (m : RemoteDiffStateManager P) (key : DiffModelKey) (diffs : Option P) :
    m.Resolves (m.broadcastNewDiffs key diffs) := by
  rw [broadcastNewDiffs]
  split
  · exact Resolves.quiet rfl
  · refine ⟨rfl, rfl, .inr ⟨key, pendingFor_drain m key, ?_⟩⟩
    rw [answeredIds_snapshot, List.filterMap_append, filterMap_answerTo, filterMap_broadcast, List.append_nil]
    rfl

theorem resolvePendingResponses_resolves (m : RemoteDiffStateManager P) (key : DiffModelKey) (diffs : Option P) :
    m.Resolves (m.resolvePendingResponses key diffs) := by
  rw [resolvePendingResponses]
  split
  · exact Resolves.quiet rfl
  · refine ⟨rfl, rfl, .inr ⟨key, pendingFor_drain m key, ?_⟩⟩
    rw [answeredIds_snapshot, filterMap_answerTo]
    rfl

theorem handleModelEvent_resolves (m : RemoteDiffStateManager P) (key : DiffModelKey) (event : DiffStateModelEvent P) :
    m.Resolves (m.handleModelEvent key event) := by
  cases event with
  | newDiffsComputed diffs => exact broadcastNewDiffs_resolves m key diffs
  | currentBranchChanged =>
    rw [handleModelEvent]
    split <;> exact Resolves.quiet rfl
  | singleFileUpdated path diff => exact Resolves.quiet rfl
  | metadataRefreshed metadata => exact Resolves.quiet rfl
  | connectionLost => exact Resolves.quiet rfl
  | branchesReceived => exact Resolves.quiet rfl
  | gitOpCompleted => exact Resolves.quiet rfl
  | commitMessageGenerated => exact Resolves.quiet rfl
  | branchCommittedFilesReceived => exact Resolves.quiet rfl

variable {result : RemoteDiffStateManager P × List (DiffStateUpdate P)}

theorem Resolves.wired (h : m.Resolves result) (hwired : m.Wired) : result.1.Wired := by
  refine hwired.narrow (fun key => ?_) h.connections fun key hmodel => h.states ▸ hmodel
  cases h.pending with
  | inl hquiet => rw [hquiet.1]
  | inr hdrained =>
    obtain ⟨drained, hpending, -⟩ := hdrained
    rw [hpending]
    split
    · exact List.nil_sublist _
    · exact List.Sublist.refl _

theorem Resolves.mem_iff (h : m.Resolves result) (hwired : m.Wired) {p : PendingDiffStateResponse} :
    p ∈ result.1.pendingFor key ↔ p ∈ m.pendingFor key ∧ p.requestId ∉ answeredIds result.2 := by
  cases h.pending with
  | inl hquiet =>
    rw [hquiet.1, hquiet.2]
    simp
  | inr hdrained =>
    obtain ⟨drained, hpending, hanswered⟩ := hdrained
    rw [hpending, hanswered]
    by_cases heq : key = drained
    · rw [if_pos heq, heq]
      refine ⟨fun hmem => absurd hmem List.not_mem_nil, fun hmem => ?_⟩
      exact absurd (List.mem_map.mpr ⟨p, hmem.1, rfl⟩) hmem.2
    · rw [if_neg heq]
      refine ⟨fun hmem => ⟨hmem, fun hid => ?_⟩, And.left⟩
      obtain ⟨p', hp', hsame⟩ := List.mem_map.mp hid
      exact heq (hwired.single key drained p p' hmem hp' hsame.symm)

end RemoteDiffStateManager

theorem InternalDiffState.get_ne_disconnected (state : InternalDiffState P) : state.get ≠ .disconnected := by
  cases state with
  | detecting => nofun
  | notInRepository => nofun
  | loading => nofun
  | loaded changes => cases changes <;> nofun

inductive Subscribed (s : DiffStateServer P) (key : DiffModelKey) (requestId : RequestId) (connId : ConnectionId) :
    DiffStateServer P × SubscribeOutcome P → Prop
  | created (hmodel : s.manager.states.get key = none) : Subscribed s key requestId connId
      ({ s with
        manager := ((s.manager.subscribeConnection key connId).insertModel key
          ⟨s.nextId, .detecting, none⟩).addPendingResponse key requestId connId
        nextId := s.nextId + 1 }, .async)
  | waiting (model : LocalDiffStateModel P) (hmodel : s.manager.states.get key = some model)
      (hwaits : model.state.get = .loading ∨ s.manager.pendingFor key ≠ []) : Subscribed s key requestId connId
      ({ s with manager := (s.manager.subscribeConnection key connId).addPendingResponse key requestId connId }, .async)
  | reloading (model : LocalDiffStateModel P) (hmodel : s.manager.states.get key = some model) :
      Subscribed s key requestId connId
      (({ s with manager := (s.manager.subscribeConnection key connId).addPendingResponse key requestId connId } :
        DiffStateServer P).spawnContentReload key requestId, .async)
  | answered (model : LocalDiffStateModel P) (hmodel : s.manager.states.get key = some model) (state : DiffState) :
      Subscribed s key requestId connId
      ({ s with manager := s.manager.subscribeConnection key connId }, .respondWithSnapshot key state model.metadata)

namespace DiffStateServer

variable {s : DiffStateServer P} {key : DiffModelKey}

def ended (s : DiffStateServer P) : DiffStateAction P → Option ContentReload
  | .reloadCompleted future _ => (s.reloads.get future).filter fun reload => !reload.aborted
  | .reloadAborted future => (s.reloads.get future).filter fun reload => reload.aborted
  | _ => none

def added (s : DiffStateServer P) (action : DiffStateAction P) (key : DiffModelKey) : List PendingDiffStateResponse :=
  match action with
  | .subscribe repoPath mode requestId connId =>
    match (s.subscribe repoPath mode requestId connId).2 with
    | .async => if key = ⟨repoPath, mode⟩ then [⟨requestId, connId⟩] else []
    | .respondWithSnapshot _ _ _ => []
  | _ => []

/-- The action ends the wait of a response: it answers it, aborts it or ends the subscription of its connection. -/
def Settles (s : DiffStateServer P) (action : DiffStateAction P) (key : DiffModelKey) (p : PendingDiffStateResponse) :
    Prop :=
  p.requestId ∈ answeredIds (s.step action).2 ∨ action = .abortPendingResponse p.requestId ∨
    action = .unsubscribeConnection key p.connId ∨ action = .removeConnection p.connId

/-- The request of a subscription does not wait yet. -/
def Unused (s : DiffStateServer P) (action : DiffStateAction P) : Prop :=
  ∀ repoPath mode requestId connId, action = .subscribe repoPath mode requestId connId →
    ∀ key p, p ∈ s.manager.pendingFor key → p.requestId ≠ requestId

structure StepEffect (s : DiffStateServer P) (action : DiffStateAction P) : Prop where
  wired : (s.step action).1.manager.Wired
  pending : ∀ key p, p ∈ (s.step action).1.manager.pendingFor key ↔
    (p ∈ s.manager.pendingFor key ∧ ¬s.Settles action key p) ∨ p ∈ s.added action key
  answered : answeredIds (s.step action).2 = [] ∨
    ∃ key, answeredIds (s.step action).2 = (s.manager.pendingFor key).map (·.requestId)

variable {action : DiffStateAction P} {m : RemoteDiffStateManager P}

theorem StepEffect.of_resolves (hwired : m.Wired)
    (hpending : ∀ key, m.pendingFor key = s.manager.pendingFor key)
    (h : m.Resolves ((s.step action).1.manager, (s.step action).2)) (hadded : ∀ key, s.added action key = [])
    (hsettles : ∀ key p, s.Settles action key p → p.requestId ∈ answeredIds (s.step action).2) : StepEffect s action := by
  refine ⟨h.wired hwired, fun key p => ?_, ?_⟩
  · rw [h.mem_iff hwired, hpending, hadded]
    constructor
    · rintro ⟨hmem, hnot⟩
      exact .inl ⟨hmem, fun hsettled => hnot (hsettles key p hsettled)⟩
    · rintro (⟨hmem, hnot⟩ | hmem)
      · exact ⟨hmem, fun hid => hnot (.inl hid)⟩
      · exact absurd hmem List.not_mem_nil
  · cases h.pending with
    | inl hquiet => exact .inl hquiet.2
    | inr hdrained =>
      obtain ⟨key, -, hanswered⟩ := hdrained
      exact .inr ⟨key, hpending key ▸ hanswered⟩

theorem StepEffect.of_filter (hwired : (s.step action).1.manager.Wired)
    (keep : DiffModelKey → PendingDiffStateResponse → Bool)
    (hpending : ∀ key, (s.step action).1.manager.pendingFor key = (s.manager.pendingFor key).filter (keep key))
    (hquiet : (s.step action).2 = []) (hadded : ∀ key, s.added action key = [])
    (hsettles : ∀ key p, keep key p = false ↔ action = .abortPendingResponse p.requestId ∨
      action = .unsubscribeConnection key p.connId ∨ action = .removeConnection p.connId) : StepEffect s action := by
  have hnone : answeredIds (s.step action).2 = [] := by rw [hquiet]; rfl
  refine ⟨hwired, fun key p => ?_, .inl hnone⟩
  have hsettled : s.Settles action key p ↔ keep key p = false := by
    rw [Settles, hnone, hsettles]
    exact ⟨fun h => h.resolve_left List.not_mem_nil, .inr⟩
  rw [hpending, hadded, List.mem_filter, hsettled]
  simp

theorem pendingFor_of_hasPendingResponses (h : m.hasPendingResponses key = true) :
    m.pendingFor key ≠ [] := by
  rw [RemoteDiffStateManager.hasPendingResponses] at h
  rw [RemoteDiffStateManager.pendingFor]
  cases hget : m.pendingResponses.get key with
  | none =>
    rw [hget] at h
    exact absurd h Bool.false_ne_true
  | some pending =>
    rw [hget, Option.any_some] at h
    rintro rfl
    exact absurd h Bool.false_ne_true

theorem subscribe_cases (s : DiffStateServer P) (repoPath : String) (mode : DiffMode) (requestId : RequestId)
    (connId : ConnectionId) :
    Subscribed s ⟨repoPath, mode⟩ requestId connId (s.subscribe repoPath mode requestId connId) := by
  rw [subscribe]
  dsimp only
  split
  · rename_i model hmodel
    split
    · split
      · rename_i hwaiting
        exact .waiting model hmodel (.inr (pendingFor_of_hasPendingResponses hwaiting))
      · exact .reloading model hmodel
    · exact .answered model hmodel _
    · exact .answered model hmodel _
    · rename_i hstate
      exact .waiting model hmodel (.inl hstate)
    · rename_i hstate
      exact absurd hstate (InternalDiffState.get_ne_disconnected _)
  · rename_i hmodel
    exact .created hmodel

theorem StepEffect.of_join {repoPath : String} {mode : DiffMode} {requestId : RequestId} {connId : ConnectionId}
    (hwired : s.manager.Wired) (hunused : s.Unused (.subscribe repoPath mode requestId connId))
    (hanswer : (s.subscribe repoPath mode requestId connId).2 = .async)
    (hpending : ∀ key', (s.subscribe repoPath mode requestId connId).1.manager.pendingFor key' =
      if key' = ⟨repoPath, mode⟩ then s.manager.pendingFor ⟨repoPath, mode⟩ ++ [⟨requestId, connId⟩]
      else s.manager.pendingFor key')
    (hconnections : (s.subscribe repoPath mode requestId connId).1.manager.keyToConnections =
      (s.manager.subscribeConnection ⟨repoPath, mode⟩ connId).keyToConnections)
    (hstates : ∀ key', key' = ⟨repoPath, mode⟩ ∨ (s.manager.states.get key').isSome = true →
      ((s.subscribe repoPath mode requestId connId).1.manager.states.get key').isSome = true) :
    StepEffect s (.subscribe repoPath mode requestId connId) := by
  have hnew := hunused repoPath mode requestId connId rfl
  refine ⟨hwired.join hnew hpending hconnections hstates, fun key p => ?_, .inl rfl⟩
  have hkeeps : ¬s.Settles (.subscribe repoPath mode requestId connId) key p := by
    rintro (h | h | h | h)
    · exact absurd h List.not_mem_nil
    · exact absurd h nofun
    · exact absurd h nofun
    · exact absurd h nofun
  change p ∈ (s.subscribe repoPath mode requestId connId).1.manager.pendingFor key ↔ _
  rw [hpending, added, hanswer]
  dsimp only
  split
  · rename_i heq
    rw [heq, List.mem_append]
    exact or_congr_left ⟨fun h => ⟨h, heq ▸ hkeeps⟩, And.left⟩
  · exact ⟨fun h => .inl ⟨h, hkeeps⟩, fun h => (h.resolve_right List.not_mem_nil).1⟩

theorem subscribe_effect (hwired : s.manager.Wired) (repoPath : String) (mode : DiffMode) (requestId : RequestId)
    (connId : ConnectionId) (hunused : s.Unused (.subscribe repoPath mode requestId connId)) :
    StepEffect s (.subscribe repoPath mode requestId connId) := by
  have hcases := subscribe_cases s repoPath mode requestId connId
  have hadd := fun (m : RemoteDiffStateManager P) key' =>
    RemoteDiffStateManager.pendingFor_addPendingResponse m ⟨repoPath, mode⟩ key' requestId connId
  generalize hresult : s.subscribe repoPath mode requestId connId = result at hcases
  cases hcases with
  | created hmodel =>
    refine StepEffect.of_join hwired hunused (hresult ▸ rfl) ?_ (hresult ▸ rfl) ?_
    · rw [hresult]
      exact hadd _
    · rw [hresult]
      intro key' hkey
      change ((s.manager.states.insert ⟨repoPath, mode⟩ _).get key').isSome = true
      rw [AssocMap.get_insert]
      split
      · rfl
      · rename_i hne
        exact hkey.resolve_left hne
  | waiting model hmodel hwaits =>
    refine StepEffect.of_join hwired hunused (hresult ▸ rfl) ?_ (hresult ▸ rfl) ?_
    · rw [hresult]
      exact hadd _
    · rw [hresult]
      rintro key' (rfl | hkept)
      · change (s.manager.states.get _).isSome = true
        rw [hmodel]
        rfl
      · exact hkept
  | reloading model hmodel =>
    refine StepEffect.of_join hwired hunused (hresult ▸ rfl) ?_ (hresult ▸ rfl) ?_
    · rw [hresult]
      exact hadd _
    · rw [hresult]
      rintro key' (rfl | hkept)
      · change (s.manager.states.get _).isSome = true
        rw [hmodel]
        rfl
      · exact hkept
  | answered model hmodel state =>
    have hmanager : (s.step (.subscribe repoPath mode requestId connId)).1.manager =
        s.manager.subscribeConnection ⟨repoPath, mode⟩ connId := by
      rw [step, hresult]
    refine StepEffect.of_filter ?_ (fun _ _ => true) ?_ rfl ?_ ?_
    · rw [hmanager]
      exact hwired.subscribeConnection (hmodel ▸ rfl) connId
    · intro key
      rw [hmanager, List.filter_true]
      rfl
    · intro key
      rw [added, hresult]
    · intro key p
      simp

theorem insertModel_wired (h : m.Wired) (key : DiffModelKey)
    (model : LocalDiffStateModel P) : (m.insertModel key model).Wired := by
  refine h.narrow (fun _ => List.Sublist.refl _) rfl fun key' hkept => ?_
  rw [RemoteDiffStateManager.insertModel, AssocMap.get_insert]
  split
  · rfl
  · exact hkept

theorem changeModel_resolves (hwired : s.manager.Wired) (key : DiffModelKey) (change : ModelChange P) :
    ∃ m : RemoteDiffStateManager P, m.Wired ∧ (∀ key', m.pendingFor key' = s.manager.pendingFor key') ∧
      m.Resolves ((s.changeModel key change).1.manager, (s.changeModel key change).2) := by
  rw [changeModel]
  split
  · exact ⟨s.manager, hwired, fun _ => rfl, RemoteDiffStateManager.Resolves.quiet rfl⟩
  · rename_i model _
    refine ⟨s.manager.insertModel key (model.change change).1, insertModel_wired hwired key _, fun _ => rfl, ?_⟩
    dsimp only
    split
    · exact RemoteDiffStateManager.Resolves.quiet rfl
    · exact RemoteDiffStateManager.handleModelEvent_resolves _ key _

def IsReloadEnd : DiffStateAction P → Prop
  | .reloadCompleted _ _ => True
  | .reloadAborted _ => True
  | _ => False

theorem step_reloadEnd (s : DiffStateServer P) (haction : IsReloadEnd action) :
    (s.ended action = none ∧ s.step action = (s, [])) ∨
      ∃ future reload diffs, s.ended action = some reload ∧ s.reloads.get future = some reload ∧
        s.step action = s.endReload future reload diffs := by
  cases action with
  | reloadCompleted future diffs =>
    rw [ended, step]
    cases hget : s.reloads.get future with
    | none => exact .inl ⟨rfl, rfl⟩
    | some reload =>
      cases haborted : reload.aborted with
      | false =>
        refine .inr ⟨future, reload, diffs, ?_, hget, ?_⟩
        · rw [Option.filter_some, haborted]
          rfl
        · dsimp only
          rw [haborted, if_neg nofun]
      | true =>
        refine .inl ⟨?_, ?_⟩
        · rw [Option.filter_some, haborted]
          rfl
        · dsimp only
          rw [haborted, if_pos rfl]
  | reloadAborted future =>
    rw [ended, step]
    cases hget : s.reloads.get future with
    | none => exact .inl ⟨rfl, rfl⟩
    | some reload =>
      cases haborted : reload.aborted with
      | false =>
        refine .inl ⟨?_, ?_⟩
        · rw [Option.filter_some, haborted]
          rfl
        · dsimp only
          rw [haborted, if_neg nofun]
      | true =>
        refine .inr ⟨future, reload, none, ?_, hget, ?_⟩
        · rw [Option.filter_some, haborted]
          rfl
        · dsimp only
          rw [haborted, if_pos rfl]
  | subscribe repoPath mode requestId connId => exact haction.elim
  | unsubscribeConnection key connId => exact haction.elim
  | removeConnection connId => exact haction.elim
  | abortRequest requestId => exact haction.elim
  | abortPendingResponse requestId => exact haction.elim
  | changeModel key change => exact haction.elim

theorem reloadEnd_effect (hwired : s.manager.Wired) (haction : IsReloadEnd action) : StepEffect s action := by
  have hadded : ∀ key, s.added action key = [] := by
    intro key
    cases action with
    | subscribe repoPath mode requestId connId => exact haction.elim
    | _ => rfl
  have hsettles : ∀ key p, s.Settles action key p → p.requestId ∈ answeredIds (s.step action).2 := by
    rintro key p (h | rfl | rfl | rfl)
    · exact h
    · exact haction.elim
    · exact haction.elim
    · exact haction.elim
  cases step_reloadEnd s haction with
  | inl hnothing =>
    refine StepEffect.of_resolves hwired (fun _ => rfl) ?_ hadded hsettles
    rw [hnothing.2]
    exact RemoteDiffStateManager.Resolves.quiet rfl
  | inr hends =>
    obtain ⟨future, reload, diffs, -, -, hstep⟩ := hends
    let m : RemoteDiffStateManager P := { s.manager with inProgress := s.manager.inProgress.erase reload.requestId }
    have hm : m.Wired := ⟨hwired.connections, hwired.models, hwired.distinct, hwired.single⟩
    refine StepEffect.of_resolves hm (fun _ => rfl) ?_ hadded hsettles
    rw [hstep]
    exact RemoteDiffStateManager.resolvePendingResponses_resolves m reload.key diffs

theorem step_effect (hwired : s.manager.Wired) (action : DiffStateAction P) (hunused : s.Unused action) :
    StepEffect s action := by
  cases action with
  | subscribe repoPath mode requestId connId => exact subscribe_effect hwired repoPath mode requestId connId hunused
  | unsubscribeConnection key connId =>
    refine StepEffect.of_filter (hwired.unsubscribeConnection key connId)
      (fun key' p => !(key' = key ∧ p.connId = connId)) ?_ rfl (fun _ => rfl) ?_
    · intro key'
      change (s.manager.unsubscribeConnection key connId).pendingFor key' = _
      rw [RemoteDiffStateManager.unsubscribeConnection_pendingFor hwired]
      split
      · rename_i heq
        simp [heq]
      · rename_i hne
        simp [hne]
    · intro key' p
      rw [Bool.not_eq_false', decide_eq_true_iff]
      constructor
      · rintro ⟨rfl, rfl⟩
        exact .inr (.inl rfl)
      · rintro (h | h | h)
        · cases h
        · obtain ⟨rfl, rfl⟩ := DiffStateAction.unsubscribeConnection.inj h
          exact ⟨rfl, rfl⟩
        · cases h
  | removeConnection connId =>
    refine StepEffect.of_filter ?_ (fun _ p => p.connId ≠ connId) ?_ rfl (fun _ => rfl) ?_
    · exact (RemoteDiffStateManager.unsubscribeKeys hwired _ connId).1
    · intro key
      exact RemoteDiffStateManager.removeConnection_pendingFor hwired key connId
    · intro key p
      rw [decide_eq_false_iff_not, not_not]
      constructor
      · rintro rfl
        exact .inr (.inr rfl)
      · rintro (h | h | h)
        · cases h
        · cases h
        · exact (DiffStateAction.removeConnection.inj h).symm
  | abortRequest requestId =>
    have hparts : (∀ key, (s.abortRequest requestId).1.manager.pendingFor key = s.manager.pendingFor key) ∧
        (s.abortRequest requestId).1.manager.keyToConnections = s.manager.keyToConnections ∧
        (s.abortRequest requestId).1.manager.states = s.manager.states := by
      rw [abortRequest]
      split
      · exact ⟨fun _ => rfl, rfl, rfl⟩
      · dsimp only
        split <;> exact ⟨fun _ => rfl, rfl, rfl⟩
    obtain ⟨hpending, hconnections, hstates⟩ := hparts
    refine StepEffect.of_filter ?_ (fun _ _ => true) (fun key => ?_) rfl (fun _ => rfl) fun key p => by simp
    · refine hwired.narrow (fun key => ?_) hconnections fun key h => ?_
      · change List.Sublist ((s.abortRequest requestId).1.manager.pendingFor key) _
        rw [hpending]
      · change ((s.abortRequest requestId).1.manager.states.get key).isSome = true
        rw [hstates]
        exact h
    · rw [List.filter_true]
      exact hpending key
  | abortPendingResponse requestId =>
    have hpending : ∀ key, (s.manager.abortPendingResponse requestId).1.pendingFor key =
        (s.manager.pendingFor key).filter fun p => p.requestId ≠ requestId :=
      fun key => RemoteDiffStateManager.abortPendingResponse_pendingFor hwired key requestId
    have hparts : (s.manager.abortPendingResponse requestId).1.keyToConnections = s.manager.keyToConnections ∧
        (s.manager.abortPendingResponse requestId).1.states = s.manager.states := by
      rw [RemoteDiffStateManager.abortPendingResponse]
      split <;> exact ⟨rfl, rfl⟩
    refine StepEffect.of_filter ?_ (fun _ p => p.requestId ≠ requestId) hpending rfl (fun _ => rfl) ?_
    · refine hwired.narrow (fun key => ?_) hparts.1 fun key h => hparts.2 ▸ h
      change List.Sublist ((s.manager.abortPendingResponse requestId).1.pendingFor key) _
      rw [hpending]
      exact List.filter_sublist
    · intro key p
      rw [decide_eq_false_iff_not, not_not]
      constructor
      · rintro rfl
        exact .inl rfl
      · rintro (h | h | h)
        · exact (DiffStateAction.abortPendingResponse.inj h).symm
        · cases h
        · cases h
  | changeModel key change =>
    have hsettles : ∀ key' p, s.Settles (.changeModel key change) key' p →
        p.requestId ∈ answeredIds (s.step (.changeModel key change)).2 := by
      rintro key' p (h | h | h | h)
      · exact h
      · cases h
      · cases h
      · cases h
    obtain ⟨m, hm, hpending, hresolves⟩ := changeModel_resolves hwired key change
    exact StepEffect.of_resolves hm hpending hresolves (fun _ => rfl) hsettles
  | reloadCompleted future diffs => exact reloadEnd_effect hwired trivial
  | reloadAborted future => exact reloadEnd_effect hwired trivial

end DiffStateServer

end InfiniShell.RemoteServer
