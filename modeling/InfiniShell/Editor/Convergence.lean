import InfiniShell.Editor.AnchorPlaces
import InfiniShell.Editor.ReplicaRuns

namespace InfiniShell.Editor

open Collections Collections.ListCursor Crdt

/-- The trees of the buffer list the same fragments, which are in order and tile the insertions, and the summaries
describe the visible text. -/
structure Buffer.Consistent (b : Buffer) : Prop where
  increasing : (b.fragments.map Fragment.id).Pairwise (· < ·)
  listed : Listed b.fragments b.insertionSplits
  tiled : ∀ id, Tiled id b.fragments
  isVisible : ∀ f ∈ b.fragments, f.isVisible = f.isVisibleIn b.undoHistory
  text : b.text = (b.fragments.filter Fragment.isVisible).flatMap Fragment.text
  len : b.len = b.text.length

/-- What the code does not refuse: edits of sorted ranges in a batch, and the rest of its own in no other batch. -/
def LocalAct.Accepted (b : Buffer) : LocalAct → Prop
  | edit oldRanges _ _ => b.batchState ≠ .inactive ∧ validRanges oldRanges = true
  | recordEdits _ _ => b.batchState ≠ .inactive
  | endBatch _ => b.batchState ≠ .inactive
  | updateStyles _ _ => True
  | startBatch _ _ => b.batchState = .inactive
  | changeSelections => b.batchState = .inactive
  | undo => b.batchState = .inactive
  | redo => b.batchState = .inactive

section Buffer

variable {b : Buffer} {base : Elements} {operations log : List Operation} {replicaId : ReplicaId}

theorem seen_eq_flatMap {fragments : List Fragment} {undoHistory : UndoHistory}
    (h : ∀ f ∈ fragments, f.isVisible = f.isVisibleIn undoHistory) :
    seen undoHistory.isEditUndone (elements fragments) =
      (fragments.filter Fragment.isVisible).flatMap Fragment.text := by
  induction fragments with
  | nil => rfl
  | cons f fragments ih =>
    have ih := ih fun g hg => h g (List.mem_cons_of_mem f hg)
    rw [elements_cons, seen_append, Fragment.seen_elements, ← h f List.mem_cons_self, ih, List.filter_cons]
    split
    next => rw [List.flatMap_cons]
    next => rfl

theorem Buffer.Coherent.consistent (h : b.Coherent) : b.Consistent := by
  have hvisible := fun f hf => (h.wellFormed.fresh f hf).isVisible
  have htext := Buffer.text_eq h.wellFormed h.headed
  have hlen : b.len = b.text.length := by
    rw [htext]
    exact total_chars h.wellFormed.fresh h.ends_le
  exact ⟨h.wellFormed.ordered.pairwise, h.listed, h.wellFormed.tiled, hvisible, htext.trans (seen_eq_flatMap hvisible),
    hlen⟩

variable {b' : Buffer} {log' : List Operation} {peer : ReplicaId}

theorem Follows.undosOf_eq
    (hf : Follows base operations log replicaId b) (hf' : Follows base operations log' peer b')
    (hsame : ∀ d, d ∈ log ↔ d ∈ log') (edit : Lamport) : b.undoHistory.undosOf edit = b'.undoHistory.undosOf edit := by
  ext value
  rw [hf.undone, hf'.undone]
  simp only [hsame]

theorem Follows.text_eq (h : History base operations)
    (hf : Follows base operations log replicaId b) (hf' : Follows base operations log' peer b')
    (hsame : ∀ d, d ∈ log ↔ d ∈ log') : b.text = b'.text := by
  rw [Buffer.text_eq hf.coherent.wellFormed hf.coherent.headed,
    Buffer.text_eq hf'.coherent.wellFormed hf'.coherent.headed,
    hf.knows.doc_eq h hf'.knows.toObserves hsame]
  apply seen_congr
  have hundone : ∀ edit, b.undoHistory.isEditUndone edit = b'.undoHistory.isEditUndone edit := by
    intro edit
    rw [UndoHistory.isEditUndone, UndoHistory.isEditUndone, hf.undosOf_eq hf' hsame]
  exact fun e _ => ⟨hundone e.id, fun d _ => hundone d⟩

theorem Defers.complete {delivered : List Operation} (hd : Defers operations log delivered b)
    (hall : ∀ op ∈ operations, op ∈ delivered) :
    b.deferredOps.operations = [] ∧ ∀ op ∈ operations, op ∈ log := by
  have hnil : b.deferredOps.operations = [] := by
    by_contra hne
    obtain ⟨d, hmem, hlog, hdeferred⟩ := hd.missing hne
    cases hd.delivered d (hall d hmem) with
    | inl hmem => exact hlog hmem
    | inr hmem => exact hdeferred hmem
  refine ⟨hnil, fun op hop => (hd.delivered op (hall op hop)).resolve_right ?_⟩
  rw [hnil]
  exact List.not_mem_nil

theorem Buffer.Coherent.exists_between (h : b.Coherent) {before after : List Fragment} {f : Fragment}
    (heq : b.fragments = before ++ f :: after) :
    ∃ id, FragmentId.between f.id (nextId after) = some id ∧ f.id < id ∧ id < nextId after := by
  have hwell := h.wellFormed
  have hlast : (before ++ [f]).getLast? = some f := List.getLast?_concat
  have heq' : b.fragments = (before ++ [f]) ++ after := by
    rw [heq, List.append_assoc]
    rfl
  rw [heq'] at hwell
  obtain ⟨id, hid, hleft, hright, -⟩ := FragmentId.exists_between (hwell.ordered.before hlast)
    (isU16_last hwell.isU16 hlast) (isU16_nextId hwell.isU16)
  exact ⟨id, hid, FragmentId.lt_of_before hleft, FragmentId.lt_of_before hright⟩

theorem Follows.accepted (h : History base operations) (hf : Follows base operations log replicaId b) {act : LocalAct}
    (hvalid : act.Valid b) (haccepted : act.Accepted b) : ∃ b' ops, b.perform act = some (b', ops) := by
  have hsome : ∀ {o : Option (Buffer × List Operation)}, o ≠ none → ∃ b' ops, o = some (b', ops) := by
    intro o hne
    obtain ⟨result, rfl⟩ := Option.ne_none_iff_exists'.mp hne
    exact ⟨result.1, result.2, rfl⟩
  cases act with
  | edit oldRanges newText textStyle =>
    obtain ⟨b', ops, hedit, -⟩ := hf.edit newText textStyle h hvalid haccepted.2 haccepted.1
    exact ⟨b', ops.map .edit, by rw [Buffer.perform, hedit, Option.map_some]⟩
  | updateStyles oldRanges textStyleOperation =>
    obtain ⟨b', hstyles, -⟩ := hf.updateStyles textStyleOperation hvalid
    exact ⟨b', [], by rw [Buffer.perform, hstyles, Option.map_some]⟩
  | startBatch action skipUndo =>
    have hinactive : b.batchState = .inactive := haccepted
    apply hsome
    rw [Buffer.perform, Buffer.startEditsAndSelectionChangesBatch, hinactive]
    exact Option.some_ne_none _
  | changeSelections =>
    have hinactive : b.batchState = .inactive := haccepted
    apply hsome
    rw [Buffer.perform, Buffer.changeSelections, hinactive]
    exact Option.some_ne_none _
  | recordEdits action now =>
    apply hsome
    rw [Buffer.perform, Buffer.recordEdits]
    cases hstate : b.batchState with
    | inactive => exact absurd hstate haccepted
    | edits => exact Option.some_ne_none _
  | endBatch now =>
    apply hsome
    rw [Buffer.perform, Buffer.endBatch]
    cases hstate : b.batchState with
    | inactive => exact absurd hstate haccepted
    | edits => exact Option.some_ne_none _
  | undo =>
    have hinactive : b.batchState = .inactive := haccepted
    apply hsome
    rw [Buffer.perform, Buffer.undo, hinactive]
    cases b.localUndoStack.undo with
    | none => exact Option.some_ne_none _
    | some result => exact Option.some_ne_none _
  | redo =>
    have hinactive : b.batchState = .inactive := haccepted
    apply hsome
    rw [Buffer.perform, Buffer.redo, hinactive]
    cases b.localUndoStack.redo with
    | none => exact Option.some_ne_none _
    | some result => exact Option.some_ne_none _

end Buffer

def Move.Accepted (w : Replicas) : Move → Prop
  | .act replicaId localAct => localAct.Accepted (w.buffers replicaId)
  | .deliver _ _ => True

namespace Replicas

variable {baseText : List Char} {w : Replicas}

def typed : Option Replicas := do
  let started ← (start ['x']).next (.act "a" (.startBatch .insertChar false))
  let edited ← started.next (.act "a" (.edit [⟨1, 1⟩] ['y'] none))
  edited.next (.deliver "b" edited.operations)

theorem reachable_typed : ∃ w, typed = some w ∧ Reachable ['x'] w := by
  have hstarted : ((start ['x']).next (.act "a" (.startBatch .insertChar false))).isSome = true := by decide +kernel
  obtain ⟨started, hstart⟩ := Option.isSome_iff_exists.mp hstarted
  have hfirst : Step (start ['x']) started := ⟨.act "a" (.startBatch .insertChar false), trivial, hstart⟩
  have hedited : (((start ['x']).next (.act "a" (.startBatch .insertChar false))).bind fun w =>
      w.next (.act "a" (.edit [⟨1, 1⟩] ['y'] none))).isSome = true := by decide +kernel
  rw [hstart, Option.bind_some] at hedited
  obtain ⟨edited, hedit⟩ := Option.isSome_iff_exists.mp hedited
  have hlen : (((start ['x']).next (.act "a" (.startBatch .insertChar false))).map fun w =>
      (w.buffers "a").len) = some 1 := by decide +kernel
  rw [hstart, Option.map_some, Option.some_inj] at hlen
  have hsecond : Step started edited := by
    refine ⟨.act "a" (.edit [⟨1, 1⟩] ['y'] none), ?_, hedit⟩
    intro range hrange
    rw [List.mem_singleton.mp hrange, hlen]
  have hdelivered : typed.isSome = true := by decide +kernel
  obtain ⟨w, hw⟩ := Option.isSome_iff_exists.mp hdelivered
  have hdeliver := hw
  rw [typed, hstart] at hdeliver
  change (started.next (.act "a" (.edit [⟨1, 1⟩] ['y'] none))).bind _ = some w at hdeliver
  rw [hedit, Option.bind_some] at hdeliver
  have hthird : Step edited w := ⟨.deliver "b" edited.operations, fun _ hop => hop, hdeliver⟩
  exact ⟨w, hw, ((Relation.ReflTransGen.single hfirst).tail hsecond).tail hthird⟩

end Replicas

end InfiniShell.Editor
