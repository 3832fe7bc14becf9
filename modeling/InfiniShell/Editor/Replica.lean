import InfiniShell.Editor.History
import InfiniShell.Editor.RemoteEditResult

namespace InfiniShell.Editor

open Collections Crdt

def BatchState.editOperations : BatchState → List EditOperation
  | .inactive => []
  | .edits _ made _ _ => made

/-- The buffer of a replica that has applied the operations of `log`. -/
structure Follows (base : Elements) (operations log : List Operation) (replicaId : ReplicaId) (b : Buffer) :
    Prop where
  coherent : b.Coherent
  knows : Knows base operations log b.lamportClock b.versions (elements b.fragments)
  clockReplica : b.lamportClock.replicaId = replicaId
  undone : ∀ edit value, value ∈ b.undoHistory.undosOf edit ↔
    ∃ u, .undo u ∈ log ∧ u.lamportTimestamp = ⟨edit.replicaId, value⟩ ∧ edit.value ∈ u.operations
  stack : ∀ entry ∈ b.localUndoStack.stack, ∀ edit ∈ entry.ops, edit ≤ b.versions.get replicaId
  batch : ∀ op ∈ b.batchState.editOperations, op.lamportTimestamp.value ≤ b.versions.get replicaId

/-- The operations that are deferred; nothing is but for an operation that has not arrived. -/
structure Defers (operations log delivered : List Operation) (b : Buffer) : Prop where
  sub : ∀ op ∈ b.deferredOps.operations, op ∈ operations
  delivered : ∀ op ∈ delivered, op ∈ log ∨ op ∈ b.deferredOps.operations
  missing : b.deferredOps.operations ≠ [] → ∃ d ∈ operations, d ∉ log ∧ d ∉ b.deferredOps.operations

section Apply

variable {base : Elements} {operations log : List Operation} {replicaId : ReplicaId} {b b' : Buffer} {op : Operation}
variable {e : EditOperation} {u : UndoOperation} {undoHistory : UndoHistory}

section

variable (h : ∀ edit value, value ∈ undoHistory.undosOf edit ↔ ∃ u, .undo u ∈ log ∧ u.lamportTimestamp = ⟨edit.replicaId, value⟩ ∧ edit.value ∈ u.operations)
include h

theorem undone_edit (edit : Lamport) (value : LamportValue) : value ∈ undoHistory.undosOf edit ↔
      ∃ u, .undo u ∈ log ++ [.edit e] ∧ u.lamportTimestamp = ⟨edit.replicaId, value⟩ ∧ edit.value ∈ u.operations := by
  rw [h]
  simp

theorem undone_undo (edit : Lamport) (value : LamportValue) :
    value ∈ (undoHistory.undoAll u.lamportTimestamp u.operations).undosOf edit ↔
      ∃ u', .undo u' ∈ log ++ [.undo u] ∧ u'.lamportTimestamp = ⟨edit.replicaId, value⟩ ∧
        edit.value ∈ u'.operations := by
  have hnew : (∃ u', Operation.undo u' ∈ log ++ [.undo u] ∧ u'.lamportTimestamp = ⟨edit.replicaId, value⟩ ∧
      edit.value ∈ u'.operations) ↔
      value ∈ undoHistory.undosOf edit ∨ u.lamportTimestamp = ⟨edit.replicaId, value⟩ ∧ edit.value ∈ u.operations := by
    rw [h]
    simp only [List.mem_append, List.mem_singleton, Operation.undo.injEq, or_and_right, exists_or, exists_eq_left]
  rw [hnew, UndoHistory.undosOf_undoAll]
  split
  next hin =>
    rw [Finset.mem_insert, or_comm]
    apply or_congr_right
    constructor
    · intro hvalue
      exact ⟨by rw [hvalue, hin.1], hin.2⟩
    · intro hts
      rw [hts.1]
  next hnot =>
    refine (or_iff_left_of_imp fun hts => absurd ⟨?_, hts.2⟩ hnot).symm
    rw [hts.1]

end

variable (h : History base operations)
include h

variable (hf : Follows base operations log replicaId b)
include hf

theorem Follows.validEdit (hop : .edit e ∈ operations) (hnot : .edit e ∉ log)
    (hle : ∀ replicaId, e.versions.get replicaId ≤ b.versions.get replicaId) : ∃ A M R, ValidEdit b e A M R := by
  have hdepends : ∀ d ∈ operations, DependsOn (.edit e) d → d ∈ log := fun d hd hdepends =>
    (hf.knows.observed d hd).mp (Global.observed_iff.mpr ((Global.observed_iff.mp hdepends).trans (hle _)))
  obtain ⟨A, M, R, hdoc, hstart, hstop⟩ := hf.knows.exists_anchors h hop hdepends
  obtain ⟨past, A₀, M₀, R₀, hmade⟩ := h.edits e hop
  have hlt : ∀ {id : Lamport}, e.versions.observed id = true → id < e.lamportTimestamp := fun {id} hid =>
    Lamport.lt_of_value_lt ((Global.observed_iff.mp hid).trans_lt (h.later _ hop id.replicaId))
  refine ⟨A, M, R, hdoc, hstart, hstop, hmade.startBase, hmade.stopBase, hlt hmade.startObserved,
    hlt hmade.stopObserved, ?_, ?_⟩
  · rw [ofInsertion_eq_nil]
    intro f hf' heq
    have hobserved := hf.coherent.observed f hf'
    rw [heq] at hobserved
    exact hnot ((hf.knows.observed _ hop).mp hobserved)
  · rw [Finset.eq_empty_iff_forall_notMem]
    intro value hvalue
    obtain ⟨u, hu, hts, hedit⟩ := (hf.undone _ _).mp hvalue
    have hu' := hf.knows.sub _ hu
    have hle := h.undos u hu' _ hedit
    rw [hts] at hle
    exact hnot (hf.knows.closed _ hu _ hop (Global.observed_iff.mpr hle))

theorem Follows.applyEdit (hop : .edit e ∈ operations) (hnot : .edit e ∉ log)
    (hle : ∀ replicaId, e.versions.get replicaId ≤ b.versions.get replicaId) :
    ∃ b', b.applyEdit e = some b' ∧ b'.deferredOps = b.deferredOps ∧
      Follows base operations (log ++ [.edit e]) replicaId (b'.acknowledge e.lamportTimestamp) := by
  obtain ⟨A, M, R, hvalid⟩ := hf.validEdit h hop hnot hle
  obtain ⟨fragments, insertionSplits, happly, hwell, hhead, hlisted, helements⟩ := hf.coherent.applyEdit hvalid
  have hknows := hf.knows.receive h hop hnot hle
  have hacknowledged := hf.coherent.acknowledge e.lamportTimestamp
  have hgrown : ∀ replicaId, b.versions.get replicaId ≤ (b.versions.observe e.lamportTimestamp).get replicaId :=
    fun replicaId => Global.le_get_observe _ _ _
  have hdoc : elements fragments = (Operation.edit e).applyTo (elements b.fragments) := helements
  have hobserved : ∀ f ∈ fragments, (b.versions.observe e.lamportTimestamp).observed f.insertion.id = true := by
    apply hhead.observed fun f hf => hwell.ends_le hf
    rw [hdoc]
    exact hknows.docObserved
  refine ⟨_, happly, rfl, ?_, ?_, hf.clockReplica, undone_edit hf.undone, ?_, ?_⟩
  · exact ⟨hwell, hhead, hlisted, hacknowledged.bounded, hacknowledged.undos, hobserved⟩
  · change Knows _ _ _ _ _ (elements fragments)
    rw [hdoc]
    exact hknows
  · exact fun entry hentry edit hedit => (hf.stack entry hentry edit hedit).trans (hgrown _)
  · exact fun op hmem => (hf.batch op hmem).trans (hgrown _)

theorem Follows.undoOrRedo (hop : .undo u ∈ operations) (hnot : .undo u ∉ log)
    (hle : ∀ replicaId, u.versions.get replicaId ≤ b.versions.get replicaId) :
    Follows base operations (log ++ [.undo u]) replicaId
      ((b.undoOrRedo u.lamportTimestamp u.operations).acknowledge u.lamportTimestamp) := by
  have hedits : ∀ edit ∈ u.operations, edit ≤ b.lamportClock.value := fun edit hedit =>
    (h.undos u hop edit hedit).trans ((hle _).trans (hf.coherent.bounded _))
  obtain ⟨hcoherent, helements⟩ := hf.coherent.undoOrRedo u.lamportTimestamp hedits
  have hknows := hf.knows.receive h hop hnot hle
  have hgrown : ∀ replicaId, b.versions.get replicaId ≤ (b.versions.observe u.lamportTimestamp).get replicaId :=
    fun replicaId => Global.le_get_observe _ _ _
  refine ⟨hcoherent.acknowledge _, ?_, hf.clockReplica, undone_undo hf.undone, ?_, ?_⟩
  · change Knows _ _ _ _ _ (elements (b.undoOrRedo u.lamportTimestamp u.operations).fragments)
    rw [helements]
    exact hknows
  · exact fun entry hentry edit hedit => (hf.stack entry hentry edit hedit).trans (hgrown _)
  · exact fun op hmem => (hf.batch op hmem).trans (hgrown _)

theorem Follows.applyOp
    (hop : op ∈ operations) (hle : ∀ replicaId, op.versions.get replicaId ≤ b.versions.get replicaId) :
    ∃ b' log', b.applyOp op = some b' ∧ b'.deferredOps = b.deferredOps ∧ (∀ d, d ∈ log' ↔ d ∈ log ∨ d = op) ∧
      Follows base operations log' replicaId b' := by
  unfold Buffer.applyOp
  by_cases hmem : op ∈ log
  · rw [if_pos ((hf.knows.observed op hop).mpr hmem)]
    refine ⟨b, log, rfl, rfl, fun d => (or_iff_left_of_imp fun heq => ?_).symm, hf⟩
    rw [heq]
    exact hmem
  · rw [if_neg (fun hobserved => hmem ((hf.knows.observed op hop).mp hobserved))]
    have hlog : ∀ d, d ∈ log ++ [op] ↔ d ∈ log ∨ d = op := fun d => by rw [List.mem_append, List.mem_singleton]
    cases op with
    | edit e =>
      obtain ⟨b', happly, hdeferred, hf'⟩ := hf.applyEdit h hop hmem hle
      refine ⟨_, _, ?_, ?_, hlog, hf'⟩
      · dsimp only
        rw [happly, Option.map_some]
      · exact hdeferred
    | undo u => exact ⟨_, _, rfl, rfl, hlog, hf.undoOrRedo h hop hmem hle⟩

end Apply

end InfiniShell.Editor
