import InfiniShell.Editor.AnchorOrder
import InfiniShell.Editor.Convergence
import Mathlib.Data.Finset.Order
import Mathlib.Data.Fintype.EquivFin

namespace InfiniShell.Editor

open Collections Crdt

def Anchor.observed (versions : Global) : Anchor → Bool
  | start => true
  | stop => true
  | middle insertionId _ _ => versions.observed insertionId

theorem mem_keys_replay {doc : Elements} {log : List Operation} {key : Key Lamport} (h : key ∈ keys (replay doc log)) :
    key ∈ keys doc ∨ ∃ op ∈ log, key.1 = op.lamportTimestamp := by
  induction log generalizing doc with
  | nil => exact .inl h
  | cons op log ih =>
    cases ih h with
    | inl hmem =>
      exact (mem_keys_applyTo hmem).imp_right fun hid => ⟨op, List.mem_cons_self, hid⟩
    | inr hnew =>
      obtain ⟨d, hd, hid⟩ := hnew
      exact .inr ⟨d, List.mem_cons_of_mem op hd, hid⟩

section Union

variable {base doc doc' : Elements} {operations log log' rest : List Operation} {versions versions' : Global}
variable (h : History base operations)
include h

theorem Observes.extend_all (ho : Observes base operations log versions doc) (hrest : ∀ op ∈ rest, op ∈ operations)
    (hnodup : rest.Nodup) (hnot : ∀ op ∈ rest, op ∉ log) (hcausal : Causal DependsOn rest)
    (hclosed : ∀ op ∈ rest, ∀ d ∈ operations, DependsOn op d → d ∈ log ∨ d ∈ rest) :
    ∃ versions', Observes base operations (log ++ rest) versions' (replay doc rest) := by
  induction rest generalizing log versions doc with
  | nil => exact ⟨versions, by rwa [List.append_nil]⟩
  | cons op rest ih =>
    obtain ⟨hop, hcausal⟩ := List.pairwise_cons.mp hcausal
    obtain ⟨hnew, hnodup⟩ := List.nodup_cons.mp hnodup
    have hdepends : ∀ d ∈ operations, DependsOn op d → d ∈ log := by
      intro d hd hdepends
      cases hclosed op List.mem_cons_self d hd hdepends with
      | inl hmem => exact hmem
      | inr hmem =>
        cases List.mem_cons.mp hmem with
        | inl heq =>
          subst heq
          exact absurd (Global.observed_iff.mp hdepends) (Nat.not_le.mpr (h.later d hd _))
        | inr hmem => exact absurd hdepends (hop d hmem)
    have hone := ho.extend h (hrest op List.mem_cons_self) (hnot op List.mem_cons_self) hdepends
    obtain ⟨versions', hall⟩ := ih hone (fun d hd => hrest d (List.mem_cons_of_mem op hd)) hnodup
      (fun d hd hmem => by
        cases List.mem_append.mp hmem with
        | inl hmem => exact hnot d (List.mem_cons_of_mem op hd) hmem
        | inr hmem => exact hnew (List.mem_singleton.mp hmem ▸ hd)) hcausal
      (fun d hd e he hdepends => by
        cases hclosed d (List.mem_cons_of_mem op hd) e he hdepends with
        | inl hmem => exact .inl (List.mem_append_left _ hmem)
        | inr hmem =>
          cases List.mem_cons.mp hmem with
          | inl heq => exact .inl (List.mem_append_right _ (List.mem_singleton.mpr heq))
          | inr hmem => exact .inr hmem)
    exact ⟨versions', by rwa [List.append_assoc] at hall⟩

theorem Observes.union (ho : Observes base operations log versions doc) (ho' : Observes base operations log' versions' doc') :
    ∃ versions'', Observes base operations (log ++ log'.filter (· ∉ log)) versions''
      (replay doc (log'.filter (· ∉ log))) ∧
      replay doc (log'.filter (· ∉ log)) = replay doc' ((log ++ log'.filter (· ∉ log)).filter (· ∉ log')) := by
  have hmem : ∀ op ∈ log'.filter (· ∉ log), op ∈ log' ∧ op ∉ log := fun op hop => by
    simpa using List.mem_filter.mp hop
  obtain ⟨versions'', hall⟩ := ho.extend_all h (fun op hop => ho'.sub op (hmem op hop).1) (ho'.nodup.filter _)
    (fun op hop => (hmem op hop).2) (ho'.causal.sublist List.filter_sublist) (fun op hop d hd hdepends => by
      by_cases hlog : d ∈ log
      · exact .inl hlog
      · exact .inr (List.mem_filter.mpr ⟨ho'.closed op (hmem op hop).1 d hd hdepends, decide_eq_true hlog⟩))
  refine ⟨versions'', hall, hall.replayed.trans ?_⟩
  rw [ho'.replayed]
  apply foldl_after h.concurrentCommute hall.nodup ho'.nodup _ hall.sub ho'.causal hall.causal
  · exact fun d hd e he hdepends => ho'.closed d hd e (hall.sub e he) hdepends
  · intro op hop
    by_cases hlog : op ∈ log
    · exact List.mem_append_left _ hlog
    · exact List.mem_append_right _ (List.mem_filter.mpr ⟨hop, decide_eq_true hlog⟩)

/-- Two replicas have a document in common with the characters of both, each in its order. -/
theorem Observes.exists_common (ho : Observes base operations log versions doc)
    (ho' : Observes base operations log' versions' doc') :
    ∃ common : Elements, (keys common).Nodup ∧ (keys doc).Sublist (keys common) ∧ (keys doc').Sublist (keys common) ∧
      ∀ key ∈ keys common, versions'.observed key.1 = true → key ∈ keys doc' := by
  obtain ⟨versions'', hall, heq⟩ := ho.union h ho'
  refine ⟨_, hall.docNodup, keys_replay_sublist _ _, heq ▸ keys_replay_sublist _ _, ?_⟩
  rw [heq]
  intro key hkey hobserved
  cases mem_keys_replay hkey with
  | inl hmem => exact hmem
  | inr hnew =>
    obtain ⟨op, hop, hid⟩ := hnew
    obtain ⟨hmem, hnot⟩ := List.mem_filter.mp hop
    rw [hid] at hobserved
    exact absurd ((ho'.observed op (hall.sub op hmem)).mp hobserved) (of_decide_eq_true hnot)

end Union

section Later

variable {base doc doc₀ : Elements} {operations log log₀ ops : List Operation} {clock clock' : Lamport}
variable {versions versions₀ : Global} {baseText : List Char} {w w' : Replicas}

theorem Observes.bounded (ho : Observes base operations log versions doc) :
    ∃ bound, ∀ replicaId, versions.get replicaId ≤ bound := by
  obtain ⟨bound, hbound⟩ := (log.toFinset.image fun op => op.lamportTimestamp.value).exists_le
  refine ⟨bound, fun replicaId => ?_⟩
  cases ho.exact replicaId with
  | inl hzero => omega
  | inr hexact =>
    obtain ⟨d, hd, hts⟩ := hexact
    have hle := hbound _ (Finset.mem_image_of_mem _ (List.mem_toFinset.mpr hd))
    rwa [hts] at hle

theorem Generated.observes (hg : Generated base operations log ops clock clock' versions doc)
    (ho : Observes base operations log₀ versions₀ doc₀) : Observes base (operations ++ ops) log₀ versions₀ doc₀ := by
  obtain ⟨bound, hbound⟩ := ho.bounded
  obtain ⟨id, hid⟩ := Infinite.exists_notMem_finset (insert clock.replicaId (operations.map Operation.replicaId).toFinset)
  rw [Finset.mem_insert, List.mem_toFinset, not_or] at hid
  have hk : Knows base operations log₀ ⟨id, bound⟩ versions₀ doc₀ :=
    ⟨ho, fun d hd hreplica => absurd (List.mem_map.mpr ⟨d, hd, hreplica⟩) hid.2, hbound⟩
  exact (hg.others _ _ _ _ hid.1 hk).toObserves

namespace Replicas

theorem Step.later (h : Step w w') (hw : w.Invariant base) :
    (∀ log versions doc, Observes base w.operations log versions doc → Observes base w'.operations log versions doc) ∧
      ∀ replicaId peer, (w.buffers replicaId).versions.get peer ≤ (w'.buffers replicaId).versions.get peer := by
  obtain ⟨move, hvalid, hnext⟩ := h
  cases move with
  | act actor act =>
    obtain ⟨⟨b, ops⟩, hperform, rfl⟩ := Option.map_eq_some_iff.mp hnext
    obtain ⟨log, hf, -⟩ := hw.replicas actor
    have hacted := hf.perform hw.history hvalid hperform
    refine ⟨fun _ _ _ ho => hacted.generated.observes ho, fun replicaId peer => ?_⟩
    dsimp only
    by_cases heq : replicaId = actor
    · subst heq
      rw [Function.update_self]
      exact hf.knows.le hacted.generated.knows.toObserves (fun d hd => List.mem_append_left _ hd) peer
    · rw [Function.update_of_ne heq]
  | deliver actor ops =>
    obtain ⟨b, hdeliver, rfl⟩ := Option.map_eq_some_iff.mp hnext
    obtain ⟨log, hf, hd⟩ := hw.replicas actor
    obtain ⟨b', log', happly, hgrown, hf', -⟩ := hf.applyOps_grown hw.history hd hvalid
    rw [hdeliver] at happly
    cases Option.some.inj happly
    refine ⟨fun _ _ _ ho => ho, fun replicaId peer => ?_⟩
    dsimp only
    by_cases heq : replicaId = actor
    · subst heq
      rw [Function.update_self]
      exact hf.knows.le hf'.knows.toObserves hgrown peer
    · rw [Function.update_of_ne heq]

theorem Invariant.later (hw : w.Invariant base) (h : Relation.ReflTransGen Step w w') :
    w'.Invariant base ∧
      (∀ log versions doc, Observes base w.operations log versions doc → Observes base w'.operations log versions doc) ∧
      ∀ replicaId peer, (w.buffers replicaId).versions.get peer ≤ (w'.buffers replicaId).versions.get peer := by
  induction h with
  | refl => exact ⟨hw, fun _ _ _ ho => ho, fun _ _ => Nat.le_refl _⟩
  | tail _ hstep ih =>
    obtain ⟨hw', hobserves, hgrown⟩ := ih
    obtain ⟨hobserves', hgrown'⟩ := hstep.later hw'
    exact ⟨hstep.invariant hw', fun _ _ _ ho => hobserves' _ _ _ (hobserves _ _ _ ho),
      fun replicaId peer => (hgrown replicaId peer).trans (hgrown' replicaId peer)⟩

theorem Invariant.exists_common (hw : w.Invariant base) (h : Relation.ReflTransGen Step w w') (replicaId peer : ReplicaId) :
    ∃ common : Elements, (keys common).Nodup ∧ (w.buffers replicaId).keys.Sublist (keys common) ∧
      (w'.buffers peer).keys.Sublist (keys common) ∧
      ∀ key ∈ keys common, (w'.buffers peer).versions.observed key.1 = true → key ∈ (w'.buffers peer).keys := by
  obtain ⟨hw', hobserves, -⟩ := hw.later h
  obtain ⟨log, hf, -⟩ := hw.replicas replicaId
  obtain ⟨log', hf', -⟩ := hw'.replicas peer
  exact (hobserves _ _ _ hf.knows.toObserves).exists_common hw'.history hf'.knows.toObserves

end Replicas

end Later

end InfiniShell.Editor
