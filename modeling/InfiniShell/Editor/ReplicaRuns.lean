import InfiniShell.Editor.Delivery
import InfiniShell.Editor.LocalMoves

namespace InfiniShell.Editor

open Collections Crdt

def baseElements (baseText : List Char) : Elements := runFrom (Lamport.new baseReplicaId) 0 baseText

section Start

variable (replicaId : ReplicaId) (baseText : List Char)

theorem baseFragmentId_eq : baseFragmentId = [8] := by decide

theorem elements_start : elements (Buffer.newWithReplicaId replicaId baseText).fragments = baseElements baseText := by
  have hsentinel : (sentinel baseText).elements = [] := Fragment.elements_eq_nil (Nat.le_refl 0)
  have hbase : (baseFragment baseText).elements = baseElements baseText := Fragment.elements_new _ _
  rw [Buffer.newWithReplicaId]
  dsimp only
  split
  next hnil =>
    rw [elements_cons, hsentinel, hnil]
    rfl
  next => rw [elements_cons, elements_cons, elements_nil, hsentinel, hbase, List.append_nil, List.nil_append]

theorem fragments_start : (Buffer.newWithReplicaId replicaId baseText).fragments =
    sentinel baseText :: if baseText = [] then [] else [baseFragment baseText] := by
  rw [Buffer.newWithReplicaId]
  dsimp only
  split
  next => rfl
  next => rfl

theorem ofInsertion_start (id : Lamport) : ofInsertion id (Buffer.newWithReplicaId replicaId baseText).fragments =
    if id = Lamport.new baseReplicaId then (Buffer.newWithReplicaId replicaId baseText).fragments else [] := by
  have hids : ∀ f ∈ (Buffer.newWithReplicaId replicaId baseText).fragments,
      f.insertion = baseInsertion baseText := by
    intro f hf
    rw [fragments_start] at hf
    cases List.mem_cons.mp hf with
    | inl heq =>
      rw [heq]
      rfl
    | inr hf =>
      split at hf
      next => exact absurd hf List.not_mem_nil
      next =>
        rw [List.mem_singleton.mp hf]
        rfl
  split
  next heq => exact List.filter_eq_self.mpr fun f hf => decide_eq_true (by rw [hids f hf, heq]; rfl)
  next hne =>
    refine List.filter_eq_nil_iff.mpr fun f hf heq => hne ?_
    rw [← of_decide_eq_true heq, hids f hf]
    rfl

theorem wellFormed_start :
    WellFormed (Buffer.newWithReplicaId replicaId baseText).fragments UndoHistory.new := by
  have hfresh : ∀ id : FragmentId, (Fragment.new id (baseInsertion baseText)).Fresh UndoHistory.new := fun id =>
    Fragment.fresh_new rfl
  have hsentinel : (sentinel baseText).Fresh UndoHistory.new := (hfresh FragmentId.minValue).congr rfl rfl rfl rfl
  refine ⟨?_, ?_, ?_, ?_⟩
  · rw [Ordered, fragments_start]
    split
    next => exact List.isChain_cons_cons.mpr ⟨Nat.zero_lt_succ _, List.isChain_singleton _⟩
    next =>
      have hfirst : FragmentId.Before FragmentId.minValue baseFragmentId := by
        rw [baseFragmentId_eq]
        exact Nat.zero_lt_succ _
      have hsecond : FragmentId.Before baseFragmentId FragmentId.maxValue := by
        rw [baseFragmentId_eq]
        exact Nat.le_of_ble_eq_true rfl
      exact List.isChain_cons_cons.mpr ⟨hfirst, List.isChain_cons_cons.mpr ⟨hsecond, List.isChain_singleton _⟩⟩
  · intro f hf
    rw [fragments_start] at hf
    cases List.mem_cons.mp hf with
    | inl heq =>
      rw [heq]
      exact FragmentId.isU16_singleton (Nat.zero_le _)
    | inr hf =>
      split at hf
      next => exact absurd hf List.not_mem_nil
      next =>
        have hid : (baseFragment baseText).id = [8] := baseFragmentId_eq
        rw [List.mem_singleton.mp hf, hid]
        exact FragmentId.isU16_singleton (Nat.le_of_ble_eq_true rfl)
  · intro id hne
    refine ⟨baseInsertion baseText, ?_⟩
    rw [ofInsertion_start] at hne ⊢
    split at hne
    next heq =>
      rw [if_pos heq, fragments_start]
      split
      next hnil =>
        subst hnil
        exact ⟨rfl, rfl, Nat.le_refl _, rfl⟩
      next => exact ⟨rfl, rfl, Nat.le_refl _, rfl, rfl, Nat.zero_le _, rfl⟩
    next => exact absurd rfl hne
  · intro f hf
    rw [fragments_start] at hf
    cases List.mem_cons.mp hf with
    | inl heq =>
      rw [heq]
      exact hsentinel
    | inr hf =>
      split at hf
      next => exact absurd hf List.not_mem_nil
      next =>
        rw [List.mem_singleton.mp hf]
        exact hfresh _

theorem coherent_start : (Buffer.newWithReplicaId replicaId baseText).Coherent := by
  have hhead : Headed (Buffer.newWithReplicaId replicaId baseText).fragments := by
    refine ⟨sentinel baseText, _, fragments_start replicaId baseText, rfl, rfl, rfl, rfl, ?_⟩
    intro f hf
    split at hf
    next => exact absurd hf List.not_mem_nil
    next hne =>
      rw [List.mem_singleton.mp hf]
      exact List.length_pos_of_ne_nil hne
  refine ⟨wellFormed_start replicaId baseText, hhead, ?_, fun _ => Nat.zero_le _, fun _ _ => rfl, ?_⟩
  · intro id
    have hsplits : (Buffer.newWithReplicaId replicaId baseText).insertionSplits = BTreeMap.empty.insert
        (Lamport.new baseReplicaId) ((Buffer.newWithReplicaId replicaId baseText).fragments.map Fragment.split) := rfl
    rw [hsplits, BTreeMap.get_insert, listing, ofInsertion_start]
    split
    next =>
      rw [if_neg]
      rw [fragments_start]
      exact List.cons_ne_nil _ _
    next => rfl
  · apply hhead.observed fun f hf => (wellFormed_start replicaId baseText).ends_le hf
    rw [elements_start]
    intro key hkey
    obtain ⟨e, he, rfl⟩ := List.mem_map.mp hkey
    have hid := (mem_runFrom he).1
    exact Global.observed_iff.mpr (by rw [Element.key, hid]; exact Nat.zero_le _)

theorem follows_start : Follows (baseElements baseText) [] [] replicaId (Buffer.newWithReplicaId replicaId baseText) := by
  have hdoc := elements_start replicaId baseText
  refine ⟨coherent_start replicaId baseText, ?_, rfl, ?_, ?_, fun _ hmem => absurd hmem List.not_mem_nil⟩
  · have hobserved := (coherent_start replicaId baseText).observed_keys
    have hnodup := (wellFormed_start replicaId baseText).nodup_keys
    refine ⟨⟨fun _ hmem => hmem, List.nodup_nil, List.Pairwise.nil, fun _ hmem => absurd hmem List.not_mem_nil,
      fun _ hmem => absurd hmem List.not_mem_nil, fun _ => .inl rfl, hdoc, hobserved, hnodup⟩,
      fun _ hmem => absurd hmem List.not_mem_nil, fun _ => Nat.zero_le _⟩
  · intro edit value
    constructor
    · intro hvalue
      exact absurd hvalue (Finset.notMem_empty value)
    · intro hundo
      obtain ⟨u, hu, -⟩ := hundo
      exact absurd hu List.not_mem_nil
  · intro entry hentry edit hedit
    rw [List.mem_singleton.mp hentry] at hedit
    exact absurd hedit List.not_mem_nil

end Start

structure Replicas.Invariant (base : Elements) (w : Replicas) : Prop where
  history : History base w.operations
  replicas : ∀ replicaId, ∃ log, Follows base w.operations log replicaId (w.buffers replicaId) ∧
    Defers w.operations log (w.delivered replicaId) (w.buffers replicaId)

section Runs

variable {base : Elements} {operations log log' ops delivered : List Operation} {replicaId peer : ReplicaId}
variable {b b' : Buffer} {baseText : List Char} {w w' : Replicas}

theorem Follows.other (hf : Follows base operations log' peer b) {clock clock' : Lamport} {versions' : Global}
    {doc' : Elements} (hgenerated : Generated base operations log ops clock clock' versions' doc')
    (hne : peer ≠ clock.replicaId) : Follows base (operations ++ ops) log' peer b :=
  ⟨hf.coherent, hgenerated.others _ _ _ _ (hf.clockReplica.trans_ne hne) hf.knows, hf.clockReplica, hf.undone, hf.stack,
    hf.batch⟩

theorem Defers.mono (hd : Defers operations log delivered b) : Defers (operations ++ ops) log delivered b := by
  refine ⟨fun op hop => List.mem_append_left _ (hd.sub op hop), hd.delivered, fun hne => ?_⟩
  obtain ⟨d, hmem, hmissing⟩ := hd.missing hne
  exact ⟨d, List.mem_append_left _ hmem, hmissing⟩

theorem Defers.acted (hd : Defers operations log delivered b) (hacted : Acted base operations log ops replicaId b b') :
    Defers (operations ++ ops) (log ++ ops) (delivered ++ ops) b' := by
  refine ⟨?_, ?_, ?_⟩
  · rw [hacted.deferredOps]
    exact fun op hop => List.mem_append_left _ (hd.sub op hop)
  · intro op hop
    rw [hacted.deferredOps]
    cases List.mem_append.mp hop with
    | inl hop => exact (hd.delivered op hop).imp_left fun hop => List.mem_append_left _ hop
    | inr hop => exact .inl (List.mem_append_right _ hop)
  · rw [hacted.deferredOps]
    intro hne
    obtain ⟨d, hmem, hlog, hdeferred⟩ := hd.missing hne
    refine ⟨d, List.mem_append_left _ hmem, fun hnew => ?_, hdeferred⟩
    cases List.mem_append.mp hnew with
    | inl hnew => exact hlog hnew
    | inr hnew => exact hacted.generated.fresh d hnew hmem

theorem Replicas.invariant_start : (Replicas.start baseText).Invariant (baseElements baseText) := by
  refine ⟨⟨?_, ?_, ?_, ?_, ?_, ?_, ?_⟩, fun replicaId => ⟨[], follows_start replicaId baseText, ?_, ?_, ?_⟩⟩
  · exact fun _ hmem => absurd hmem List.not_mem_nil
  · exact fun _ hmem => absurd hmem List.not_mem_nil
  · exact fun _ hmem => absurd hmem List.not_mem_nil
  · exact fun _ hmem => absurd hmem List.not_mem_nil
  · exact fun _ hmem => absurd hmem List.not_mem_nil
  · exact fun _ hmem => absurd hmem List.not_mem_nil
  · exact fun _ hmem => absurd hmem List.not_mem_nil
  · exact fun _ hmem => hmem
  · exact fun _ hmem => absurd hmem List.not_mem_nil
  · exact fun hne => absurd rfl hne

theorem Replicas.Step.invariant (h : Step w w') (hw : w.Invariant base) : w'.Invariant base := by
  obtain ⟨move, hvalid, hnext⟩ := h
  cases move with
  | act replicaId act =>
    obtain ⟨⟨b, ops⟩, hperform, rfl⟩ := Option.map_eq_some_iff.mp hnext
    obtain ⟨log, hf, hd⟩ := hw.replicas replicaId
    have hacted := hf.perform hw.history hvalid hperform
    refine ⟨hacted.generated.history, fun peer => ?_⟩
    dsimp only
    by_cases heq : peer = replicaId
    · subst heq
      rw [Function.update_self, Function.update_self]
      exact ⟨log ++ ops, hacted.follows, hd.acted hacted⟩
    · obtain ⟨log', hf', hd'⟩ := hw.replicas peer
      have hne : peer ≠ (w.buffers replicaId).lamportClock.replicaId := by rwa [hf.clockReplica]
      rw [Function.update_of_ne heq, Function.update_of_ne heq]
      exact ⟨log', hf'.other hacted.generated hne, hd'.mono⟩
  | deliver replicaId ops =>
    obtain ⟨b, hdeliver, rfl⟩ := Option.map_eq_some_iff.mp hnext
    obtain ⟨log, hf, hd⟩ := hw.replicas replicaId
    obtain ⟨b', log', happly, hf', hd'⟩ := hf.applyOps hw.history hd hvalid
    rw [hdeliver] at happly
    cases Option.some.inj happly
    refine ⟨hw.history, fun peer => ?_⟩
    dsimp only
    by_cases heq : peer = replicaId
    · subst heq
      rw [Function.update_self, Function.update_self]
      exact ⟨log', hf', hd'⟩
    · rw [Function.update_of_ne heq, Function.update_of_ne heq]
      exact hw.replicas peer

theorem Replicas.Reachable.invariant (h : Reachable baseText w) : w.Invariant (baseElements baseText) := by
  induction h with
  | refl => exact Replicas.invariant_start
  | tail _ hstep ih => exact hstep.invariant ih

end Runs

end InfiniShell.Editor
