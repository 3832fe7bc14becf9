import InfiniShell.RemoteServer.DiffStateTracker

namespace InfiniShell.RemoteServer

open Collections

namespace RemoteDiffStateManager

variable {P : Type} {m : RemoteDiffStateManager P} {key : DiffModelKey} {connId : ConnectionId}

/-- The connections, the models and the waiting responses of a manager belong together. -/
structure Wired (m : RemoteDiffStateManager P) : Prop where
  connections : ∀ key p, p ∈ m.pendingFor key → p.connId ∈ m.subscribedConnections key
  models : ∀ key, (m.keyToConnections.get key).isSome = true → (m.states.get key).isSome = true
  distinct : ∀ key, ((m.pendingFor key).map (·.requestId)).Nodup
  single : ∀ key key' p p', p ∈ m.pendingFor key → p' ∈ m.pendingFor key' → p.requestId = p'.requestId → key = key'

theorem Wired.new : (RemoteDiffStateManager.new : RemoteDiffStateManager P).Wired where
  connections := fun _ _ h => absurd h List.not_mem_nil
  models := fun _ h => absurd h nofun
  distinct := fun _ => List.nodup_nil
  single := fun _ _ _ _ h => absurd h List.not_mem_nil

theorem Wired.model (h : m.Wired) {p : PendingDiffStateResponse} (hp : p ∈ m.pendingFor key) :
    (m.states.get key).isSome = true := by
  apply h.models
  have hconnection := h.connections key p hp
  rw [subscribedConnections] at hconnection
  cases hget : m.keyToConnections.get key with
  | none =>
    rw [hget] at hconnection
    exact absurd hconnection List.not_mem_nil
  | some connections => rfl

theorem subscribedConnections_subscribeConnection (m : RemoteDiffStateManager P) (key key' : DiffModelKey)
    (connId : ConnectionId) : (m.subscribeConnection key connId).subscribedConnections key' =
      if key' = key then
        (if connId ∈ m.subscribedConnections key then m.subscribedConnections key
          else m.subscribedConnections key ++ [connId])
      else m.subscribedConnections key' := by
  rw [subscribedConnections, subscribeConnection, AssocMap.get_insert]
  split
  · rfl
  · rfl

variable {key' : DiffModelKey}

theorem mem_subscribeConnection {c : ConnectionId} :
    c ∈ (m.subscribeConnection key connId).subscribedConnections key' ↔
      c ∈ m.subscribedConnections key' ∨ (key' = key ∧ c = connId) := by
  rw [subscribedConnections_subscribeConnection]
  split
  · rename_i heq
    subst heq
    split
    · rename_i hmem
      constructor
      · exact .inl
      · rintro (h | ⟨-, rfl⟩)
        · exact h
        · exact hmem
    · simp
  · rename_i hne
    simp [hne]

theorem pendingFor_retainPending (m : RemoteDiffStateManager P) (key key' : DiffModelKey) (connId : ConnectionId) :
    (m.retainPending key connId).pendingFor key' =
      if key' = key then (m.pendingFor key).filter fun p => p.connId ≠ connId else m.pendingFor key' := by
  rw [retainPending]
  cases hget : m.pendingResponses.get key with
  | none =>
    dsimp only
    split
    · rename_i heq
      rw [heq, pendingFor, hget]
      rfl
    · rfl
  | some pending =>
    dsimp only
    rw [pendingFor, AssocMap.get_insert]
    split
    · rw [pendingFor, hget]
      rfl
    · rfl

theorem retainPending_states (m : RemoteDiffStateManager P) (key : DiffModelKey) (connId : ConnectionId) :
    (m.retainPending key connId).states = m.states := by
  rw [retainPending]
  split <;> rfl

theorem retainPending_keyToConnections (m : RemoteDiffStateManager P) (key : DiffModelKey) (connId : ConnectionId) :
    (m.retainPending key connId).keyToConnections = m.keyToConnections := by
  rw [retainPending]
  split <;> rfl

structure Unsubscribed (m m' : RemoteDiffStateManager P) (key : DiffModelKey) (connId : ConnectionId) : Prop where
  pending : m'.pendingFor key = (m.pendingFor key).filter fun p => p.connId ≠ connId
  connections : m'.subscribedConnections key = (m.subscribedConnections key).filter fun c => c ≠ connId
  model : m'.states.get key = m.states.get key ∨ (m'.states.get key = none ∧ m'.keyToConnections.get key = none)
  live : (m'.keyToConnections.get key).isSome = true → (m.keyToConnections.get key).isSome = true

theorem unsubscribeConnection_self (h : m.Wired) (key : DiffModelKey) (connId : ConnectionId) :
    Unsubscribed m (m.unsubscribeConnection key connId) key connId := by
  have hpending := pendingFor_retainPending m key key connId
  rw [if_pos rfl] at hpending
  rw [unsubscribeConnection, retainPending_keyToConnections]
  cases hget : m.keyToConnections.get key with
  | none =>
    dsimp only
    refine ⟨hpending, ?_, .inl ?_, ?_⟩
    · rw [subscribedConnections, subscribedConnections, retainPending_keyToConnections, hget]
      rfl
    · rw [retainPending_states]
    · rw [retainPending_keyToConnections, hget]
      exact id
  | some connections =>
    dsimp only
    split
    · rename_i hempty
      refine ⟨?_, ?_, .inr ⟨?_, ?_⟩, fun _ => hget ▸ rfl⟩
      · -- the connection was the last one, so every response that waited was for it
        rw [pendingFor, removeModel, AssocMap.get_erase, if_pos rfl]
        refine (List.filter_eq_nil_iff.mpr fun p hp => ?_).symm
        have hconnection := h.connections key p hp
        rw [subscribedConnections, hget] at hconnection
        exact List.filter_eq_nil_iff.mp hempty p.connId hconnection
      · rw [subscribedConnections, removeModel, AssocMap.get_erase, if_pos rfl, subscribedConnections, hget]
        exact hempty.symm
      · rw [removeModel, AssocMap.get_erase, if_pos rfl]
      · rw [removeModel, AssocMap.get_erase, if_pos rfl]
    · refine ⟨hpending, ?_, .inl ?_, fun _ => hget ▸ rfl⟩
      · rw [subscribedConnections, AssocMap.get_insert, if_pos rfl, subscribedConnections, hget]
        rfl
      · exact congrArg (fun states => states.get key) (retainPending_states m key connId)

theorem unsubscribeConnection_other (m : RemoteDiffStateManager P) (connId : ConnectionId)
    (hne : key' ≠ key) :
    (m.unsubscribeConnection key connId).pendingFor key' = m.pendingFor key' ∧
    (m.unsubscribeConnection key connId).keyToConnections.get key' = m.keyToConnections.get key' ∧
    (m.unsubscribeConnection key connId).states.get key' = m.states.get key' := by
  have hpending := pendingFor_retainPending m key key' connId
  rw [if_neg hne] at hpending
  have hstates := congrArg (fun states => states.get key') (retainPending_states m key connId)
  rw [unsubscribeConnection, retainPending_keyToConnections]
  cases m.keyToConnections.get key with
  | none => exact ⟨hpending, by rw [retainPending_keyToConnections], hstates⟩
  | some connections =>
    dsimp only
    split
    · refine ⟨?_, ?_, ?_⟩
      · rw [pendingFor, removeModel, AssocMap.get_erase, if_neg hne]
        exact hpending
      · rw [removeModel, AssocMap.get_erase, if_neg hne, AssocMap.get_insert, if_neg hne]
      · rw [removeModel, AssocMap.get_erase, if_neg hne]
        exact hstates
    · refine ⟨hpending, ?_, hstates⟩
      rw [AssocMap.get_insert, if_neg hne]

theorem Wired.unsubscribeConnection (h : m.Wired) (key : DiffModelKey) (connId : ConnectionId) :
    (m.unsubscribeConnection key connId).Wired := by
  have hself := unsubscribeConnection_self h key connId
  have hpending : ∀ key', ((m.unsubscribeConnection key connId).pendingFor key').Sublist (m.pendingFor key') := by
    intro key'
    by_cases heq : key' = key
    · rw [heq, hself.pending]
      exact List.filter_sublist
    · rw [(unsubscribeConnection_other m connId heq).1]
  refine ⟨?_, ?_, fun key' => (h.distinct key').sublist ((hpending key').map _), ?_⟩
  · intro key' p hp
    by_cases heq : key' = key
    · subst heq
      rw [hself.pending] at hp
      obtain ⟨hmem, hconn⟩ := List.mem_filter.mp hp
      rw [hself.connections]
      exact List.mem_filter.mpr ⟨h.connections key' p hmem, hconn⟩
    · obtain ⟨hsame, hconnections, -⟩ := unsubscribeConnection_other m connId heq
      rw [hsame] at hp
      rw [subscribedConnections, hconnections]
      exact h.connections key' p hp
  · intro key' hlive
    by_cases heq : key' = key
    · subst heq
      cases hself.model with
      | inl hsame =>
        rw [hsame]
        exact h.models key' (hself.live hlive)
      | inr hgone =>
        rw [hgone.2] at hlive
        exact absurd hlive nofun
    · obtain ⟨-, hconnections, hstates⟩ := unsubscribeConnection_other m connId heq
      rw [hstates]
      exact h.models key' (hconnections ▸ hlive)
  · intro first second p p' hp hp'
    exact h.single first second p p' ((hpending first).subset hp) ((hpending second).subset hp')

theorem unsubscribeConnection_states (h : m.Wired) {model : LocalDiffStateModel P}
    (hmodel : (m.unsubscribeConnection key connId).states.get key' = some model) :
    m.states.get key' = some model := by
  by_cases heq : key' = key
  · subst heq
    cases (unsubscribeConnection_self h key' connId).model with
    | inl hsame => exact hsame ▸ hmodel
    | inr hgone => exact absurd (hgone.1.symm.trans hmodel) nofun
  · exact (unsubscribeConnection_other m connId heq).2.2 ▸ hmodel

theorem unsubscribeConnection_pendingFor (h : m.Wired) (key key' : DiffModelKey) (connId : ConnectionId) :
    (m.unsubscribeConnection key connId).pendingFor key' =
      if key' = key then (m.pendingFor key').filter fun p => p.connId ≠ connId else m.pendingFor key' := by
  split
  · rename_i heq
    rw [heq]
    exact (unsubscribeConnection_self h key connId).pending
  · rename_i hne
    exact (unsubscribeConnection_other m connId hne).1

theorem unsubscribeKeys (h : m.Wired) (keys : List DiffModelKey) (connId : ConnectionId) :
    (keys.foldl (fun m key => m.unsubscribeConnection key connId) m).Wired ∧
    (∀ key, (keys.foldl (fun m key => m.unsubscribeConnection key connId) m).pendingFor key =
      if key ∈ keys then (m.pendingFor key).filter fun p => p.connId ≠ connId else m.pendingFor key) ∧
    ∀ key model, (keys.foldl (fun m key => m.unsubscribeConnection key connId) m).states.get key = some model →
      m.states.get key = some model := by
  induction keys generalizing m with
  | nil => exact ⟨h, fun _ => rfl, fun _ _ h => h⟩
  | cons first keys ih =>
    obtain ⟨hwired, hpending, hstates⟩ := ih (h.unsubscribeConnection first connId)
    refine ⟨hwired, ?_, fun key model hmodel => unsubscribeConnection_states h (hstates key model hmodel)⟩
    intro key
    rw [List.foldl_cons, hpending, unsubscribeConnection_pendingFor h]
    by_cases hfirst : key = first
    · have hmem : key ∈ first :: keys := List.mem_cons.mpr (.inl hfirst)
      rw [if_pos hfirst, if_pos hmem]
      split
      · rw [List.filter_filter]
        simp only [Bool.and_self]
      · rfl
    · simp only [List.mem_cons, hfirst, false_or, if_false]

theorem removeConnection_pendingFor (h : m.Wired) (key : DiffModelKey) (connId : ConnectionId) :
    (m.removeConnection connId).pendingFor key = (m.pendingFor key).filter fun p => p.connId ≠ connId := by
  rw [removeConnection, (unsubscribeKeys h _ connId).2.1]
  split
  · rfl
  · rename_i hmem
    refine (List.filter_eq_self.mpr fun p hp => ?_).symm
    rw [decide_eq_true_iff]
    rintro rfl
    apply hmem
    have hconnection := h.connections key p hp
    rw [subscribedConnections] at hconnection
    cases hget : m.keyToConnections.get key with
    | none =>
      rw [hget] at hconnection
      exact absurd hconnection List.not_mem_nil
    | some connections =>
      rw [hget] at hconnection
      refine List.mem_map.mpr ⟨(key, connections), List.mem_filter.mpr ⟨AssocMap.get_eq_some_iff.mp hget, ?_⟩, rfl⟩
      exact decide_eq_true hconnection

theorem pendingFor_addPendingResponse (m : RemoteDiffStateManager P) (key key' : DiffModelKey) (requestId : RequestId)
    (connId : ConnectionId) : (m.addPendingResponse key requestId connId).pendingFor key' =
      if key' = key then m.pendingFor key ++ [⟨requestId, connId⟩] else m.pendingFor key' := by
  rw [pendingFor, addPendingResponse, AssocMap.get_insert]
  split <;> rfl

theorem pendingFor_drain (m : RemoteDiffStateManager P) (key key' : DiffModelKey) :
    (m.drainPendingResponses key).2.pendingFor key' = if key' = key then [] else m.pendingFor key' := by
  rw [pendingFor, drainPendingResponses, AssocMap.get_erase]
  split <;> rfl

variable {m' : RemoteDiffStateManager P}

theorem Wired.narrow (h : m.Wired) (hpending : ∀ key, (m'.pendingFor key).Sublist (m.pendingFor key))
    (hconnections : m'.keyToConnections = m.keyToConnections)
    (hstates : ∀ key, (m.states.get key).isSome = true → (m'.states.get key).isSome = true) : m'.Wired := by
  refine ⟨?_, ?_, fun key => (h.distinct key).sublist ((hpending key).map _), ?_⟩
  · intro key p hp
    rw [subscribedConnections, hconnections]
    exact h.connections key p ((hpending key).subset hp)
  · intro key hlive
    exact hstates key (h.models key (hconnections ▸ hlive))
  · intro first second p p' hp hp'
    exact h.single first second p p' ((hpending first).subset hp) ((hpending second).subset hp')

theorem Wired.subscribeConnection (h : m.Wired) (hmodel : (m.states.get key).isSome = true) (connId : ConnectionId) :
    (m.subscribeConnection key connId).Wired := by
  refine ⟨?_, ?_, h.distinct, h.single⟩
  · intro key' p hp
    exact mem_subscribeConnection.mpr (.inl (h.connections key' p hp))
  · intro key' hlive
    by_cases heq : key' = key
    · rw [heq]
      exact hmodel
    · rw [RemoteDiffStateManager.subscribeConnection, AssocMap.get_insert, if_neg heq] at hlive
      exact h.models key' hlive

theorem Wired.join (h : m.Wired) {requestId : RequestId}
    (hnew : ∀ key p, p ∈ m.pendingFor key → p.requestId ≠ requestId)
    (hpending : ∀ key', m'.pendingFor key' =
      if key' = key then m.pendingFor key ++ [⟨requestId, connId⟩] else m.pendingFor key')
    (hconnections : m'.keyToConnections = (m.subscribeConnection key connId).keyToConnections)
    (hstates : ∀ key', key' = key ∨ (m.states.get key').isSome = true → (m'.states.get key').isSome = true) :
    m'.Wired := by
  have hmem : ∀ {key' p}, p ∈ m'.pendingFor key' →
      p ∈ m.pendingFor key' ∨ (key' = key ∧ p = ⟨requestId, connId⟩) := by
    intro key' p hp
    rw [hpending] at hp
    split at hp
    · rename_i heq
      subst heq
      cases List.mem_append.mp hp with
      | inl hold => exact .inl hold
      | inr hadded => exact .inr ⟨rfl, List.mem_singleton.mp hadded⟩
    · exact .inl hp
  refine ⟨?_, ?_, ?_, ?_⟩
  · intro key' p hp
    rw [subscribedConnections, hconnections]
    apply mem_subscribeConnection.mpr
    cases hmem hp with
    | inl hold => exact .inl (h.connections key' p hold)
    | inr hadded =>
      obtain ⟨rfl, rfl⟩ := hadded
      exact .inr ⟨rfl, rfl⟩
  · intro key' hlive
    apply hstates
    by_cases heq : key' = key
    · exact .inl heq
    · rw [hconnections, RemoteDiffStateManager.subscribeConnection, AssocMap.get_insert, if_neg heq] at hlive
      exact .inr (h.models key' hlive)
  · intro key'
    rw [hpending]
    split
    · rw [List.map_append]
      refine List.Nodup.append (h.distinct key) (List.nodup_singleton _) fun id hid hid' => ?_
      obtain ⟨p, hp, rfl⟩ := List.mem_map.mp hid
      exact hnew key p hp (List.mem_singleton.mp hid')
    · exact h.distinct key'
  · intro first second p p' hp hp' hsame
    cases hmem hp with
    | inl hold =>
      cases hmem hp' with
      | inl hold' => exact h.single first second p p' hold hold' hsame
      | inr hadded' => exact absurd (hsame.trans (congrArg _ hadded'.2)) (hnew first p hold)
    | inr hadded =>
      cases hmem hp' with
      | inl hold' => exact absurd (hsame.symm.trans (congrArg _ hadded.2)) (hnew second p' hold')
      | inr hadded' => exact hadded.1.trans hadded'.1.symm

theorem eraseP_requestId {pending : List PendingDiffStateResponse} (h : (pending.map (·.requestId)).Nodup)
    (requestId : RequestId) :
    (pending.eraseP fun p => p.requestId = requestId) = pending.filter fun p => p.requestId ≠ requestId := by
  induction pending with
  | nil => rfl
  | cons p pending ih =>
    obtain ⟨hnew, hrest⟩ := List.nodup_cons.mp h
    by_cases heq : p.requestId = requestId
    · rw [List.eraseP_cons_of_pos (by simp [heq]), List.filter_cons_of_neg (by simp [heq])]
      refine (List.filter_eq_self.mpr fun p' hp' => ?_).symm
      rw [decide_eq_true_iff]
      rintro rfl
      exact hnew (List.mem_map.mpr ⟨p', hp', heq.symm⟩)
    · rw [List.eraseP_cons_of_neg (by simp [heq]), List.filter_cons_of_pos (by simp [heq]), ih hrest]

theorem abortPendingResponse_pendingFor (h : m.Wired) (key : DiffModelKey) (requestId : RequestId) :
    (m.abortPendingResponse requestId).1.pendingFor key =
      (m.pendingFor key).filter fun p => p.requestId ≠ requestId := by
  rw [abortPendingResponse]
  cases hfind : m.pendingResponses.entries.find? fun entry => entry.2.any fun p => p.requestId = requestId with
  | none =>
    refine (List.filter_eq_self.mpr fun p hp => ?_).symm
    rw [decide_eq_true_iff]
    rintro rfl
    rw [pendingFor] at hp
    cases hget : m.pendingResponses.get key with
    | none =>
      rw [hget] at hp
      exact absurd hp List.not_mem_nil
    | some pending =>
      rw [hget] at hp
      have hnone := List.find?_eq_none.mp hfind (key, pending) (AssocMap.get_eq_some_iff.mp hget)
      exact hnone (List.any_eq_true.mpr ⟨p, hp, decide_eq_true rfl⟩)
  | some entry =>
    obtain ⟨found, pending⟩ := entry
    have hget : m.pendingResponses.get found = some pending :=
      AssocMap.get_eq_some_iff.mpr (List.mem_of_find?_eq_some hfind)
    have hpending : m.pendingFor found = pending := by rw [pendingFor, hget]; rfl
    have hfound : (pending.any fun p => p.requestId = requestId) = true := by
      have hsome := List.find?_some hfind
      exact hsome
    obtain ⟨p, hp, hid⟩ := List.any_eq_true.mp hfound
    rw [decide_eq_true_iff] at hid
    dsimp only
    rw [pendingFor, AssocMap.get_insert]
    split
    · rename_i heq
      rw [Option.getD_some, heq, ← hpending, eraseP_requestId (h.distinct found)]
    · rename_i hne
      refine (List.filter_eq_self.mpr fun p' hp' => ?_).symm
      rw [decide_eq_true_iff]
      intro hid'
      exact hne (h.single key found p' p hp' (hpending ▸ hp) (hid'.trans hid.symm))

end RemoteDiffStateManager

end InfiniShell.RemoteServer
