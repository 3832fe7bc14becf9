import InfiniShell.Editor.Replica
import Mathlib.Logic.Function.Basic
import Mathlib.Logic.Relation

namespace InfiniShell.Editor

open Collections Collections.ListCursor Crdt

inductive LocalAct where
  | startBatch (action : PlainTextEditorViewAction) (skipUndo : Bool)
  | edit (oldRanges : List Range) (newText : List Char) (textStyle : Option TextStyle)
  | recordEdits (action : PlainTextEditorViewAction) (now : Nat)
  | endBatch (now : Nat)
  | changeSelections
  | undo
  | redo
  | updateStyles (oldRanges : List Range) (textStyleOperation : TextStyleOperation)

/-- The ranges of an edit are within the text, those of styles do not overlap. -/
def LocalAct.Valid (b : Buffer) : LocalAct → Prop
  | edit oldRanges _ _ => ∀ range ∈ oldRanges, range.stop ≤ b.len
  | updateStyles oldRanges _ => Disjoint oldRanges
  | _ => True

def Buffer.perform (b : Buffer) : LocalAct → Option (Buffer × List Operation)
  | .startBatch action skipUndo => (b.startEditsAndSelectionChangesBatch action skipUndo).map fun b => (b, [])
  | .edit oldRanges newText textStyle =>
    (b.edit oldRanges newText textStyle).map fun result => (result.1, result.2.map .edit)
  | .recordEdits action now => (b.recordEdits action now).map fun b => (b, [])
  | .endBatch now => (b.endBatch now).map fun result => (result.1, [])
  | .changeSelections => b.changeSelections.map fun b => (b, [])
  | .undo => b.undo.map fun result => (result.1, (result.2.map .undo).toList)
  | .redo => b.redo.map fun result => (result.1, (result.2.map .undo).toList)
  | .updateStyles oldRanges textStyleOperation => (b.updateStyles oldRanges textStyleOperation).map fun b => (b, [])

/-- The buffers, the operations made, and which of them each replica has. -/
structure Replicas where
  buffers : ReplicaId → Buffer
  operations : List Operation
  delivered : ReplicaId → List Operation

/-- Any operations may be delivered, in any order and any number of times. -/
inductive Move where
  | act (replicaId : ReplicaId) (localAct : LocalAct)
  | deliver (replicaId : ReplicaId) (ops : List Operation)

def Move.Valid (w : Replicas) : Move → Prop
  | .act replicaId localAct => localAct.Valid (w.buffers replicaId)
  | .deliver _ ops => ∀ op ∈ ops, op ∈ w.operations

namespace Replicas

def start (baseText : List Char) : Replicas :=
  { buffers := fun replicaId => Buffer.newWithReplicaId replicaId baseText, operations := [], delivered := fun _ => [] }

def next (w : Replicas) : Move → Option Replicas
  | .act replicaId localAct =>
    ((w.buffers replicaId).perform localAct).map fun result =>
      { buffers := Function.update w.buffers replicaId result.1
        operations := w.operations ++ result.2
        delivered := Function.update w.delivered replicaId (w.delivered replicaId ++ result.2) }
  | .deliver replicaId ops =>
    ((w.buffers replicaId).applyOps ops).map fun b =>
      { w with
        buffers := Function.update w.buffers replicaId b
        delivered := Function.update w.delivered replicaId (w.delivered replicaId ++ ops) }

def Step (w w' : Replicas) : Prop := ∃ move : Move, move.Valid w ∧ w.next move = some w'

def Reachable (baseText : List Char) (w : Replicas) : Prop := Relation.ReflTransGen Step (start baseText) w

end Replicas

section Stack

variable {s s' : LocalUndoStack} {action : PlainTextEditorViewAction} {operations edits : List LamportValue} {now : Nat}
variable {p : LamportValue → Prop}

def LocalUndoStack.All (p : LamportValue → Prop) (s : LocalUndoStack) : Prop := ∀ entry ∈ s.stack, ∀ op ∈ entry.ops, p op

theorem mem_pushBack {capacity : Nat} {stack : List UndoStackEntry} {entry e : UndoStackEntry}
    (h : e ∈ LocalUndoStack.pushBack capacity stack entry) : e ∈ stack ∨ e = entry := by
  rw [LocalUndoStack.pushBack] at h
  split at h
  next => simpa using h
  next =>
    split at h
    next => exact .inl h
    next => exact (List.mem_append.mp h).imp List.mem_of_mem_tail List.mem_singleton.mp

theorem mem_modify {α : Type} {f : α → α} {l : List α} {i : Nat} {a : α} (h : a ∈ l.modify i f) :
    a ∈ l ∨ ∃ d ∈ l, a = f d := by
  induction l generalizing i with
  | nil =>
    rw [List.modify_nil] at h
    exact .inl h
  | cons d l ih =>
    cases i with
    | zero =>
      rw [List.modify_zero_cons] at h
      cases List.mem_cons.mp h with
      | inl heq => exact .inr ⟨d, List.mem_cons_self, heq⟩
      | inr hmem => exact .inl (List.mem_cons_of_mem d hmem)
    | succ i =>
      rw [List.modify_succ_cons] at h
      cases List.mem_cons.mp h with
      | inl heq => exact .inl (List.mem_cons.mpr (.inl heq))
      | inr hmem =>
        cases ih hmem with
        | inl hmem => exact .inl (List.mem_cons_of_mem d hmem)
        | inr hmem =>
          obtain ⟨c, hc, heq⟩ := hmem
          exact .inr ⟨c, List.mem_cons_of_mem d hc, heq⟩

theorem LocalUndoStack.All.recordEdit (h : s.All p) (hops : ∀ op ∈ operations, p op) :
    (s.recordEdit action operations now).All p := by
  have hold : ∀ entry ∈ s.stack.take (s.currentIndex + 1), ∀ op ∈ entry.ops, p op :=
    fun entry hentry => h entry (List.mem_of_mem_take hentry)
  intro entry hentry
  rw [LocalUndoStack.recordEdit] at hentry
  dsimp only at hentry
  split at hentry
  next =>
    cases mem_pushBack hentry with
    | inl hentry => exact hold entry hentry
    | inr heq =>
      rw [heq]
      exact hops
  next =>
    cases mem_modify hentry with
    | inl hentry => exact hold entry hentry
    | inr hentry =>
      obtain ⟨d, hd, rfl⟩ := hentry
      intro op hop
      cases List.mem_append.mp hop with
      | inl hop => exact hold d hd op hop
      | inr hop => exact hops op hop

theorem LocalUndoStack.All.recordSelectionChange (h : s.All p) : s.recordSelectionChange.All p := by
  intro entry hentry
  cases mem_modify hentry with
  | inl hentry => exact h entry hentry
  | inr hentry =>
    obtain ⟨d, hd, rfl⟩ := hentry
    exact h d hd

theorem LocalUndoStack.All.undo (h : s.All p) (hundo : s.undo = some (edits, s')) :
    (∀ op ∈ edits, p op) ∧ s'.All p := by
  rw [LocalUndoStack.undo] at hundo
  split at hundo
  next => exact absurd hundo.symm (Option.some_ne_none _)
  next =>
    obtain ⟨entry, hentry, heq⟩ := Option.bind_eq_some_iff.mp hundo
    cases Option.some.inj heq
    exact ⟨h entry (List.mem_of_getElem? hentry), h⟩

theorem LocalUndoStack.All.redo (h : s.All p) (hredo : s.redo = some (edits, s')) :
    (∀ op ∈ edits, p op) ∧ s'.All p := by
  rw [LocalUndoStack.redo] at hredo
  split at hredo
  next => exact absurd hredo.symm (Option.some_ne_none _)
  next =>
    obtain ⟨entry, hentry, heq⟩ := Option.bind_eq_some_iff.mp hredo
    cases Option.some.inj heq
    exact ⟨h entry (List.mem_of_getElem? hentry), h⟩

end Stack

section Steps

variable {base : Elements} {operations log : List Operation} {undoHistory : UndoHistory} {newText : Option (List Char)}
variable {p p₀ : Progress} {range : Range} {ranges : List Range} {op : EditOperation} {ops : List EditOperation}
variable {A M R : Elements}

theorem place_of_forall_lt {ts : Lamport} {run l : Elements} (h : ∀ e ∈ l, e.id < ts) : place ts run l = run ++ l := by
  cases l with
  | nil => exact (List.append_nil run).symm
  | cons e l => rw [place, if_pos (h e List.mem_cons_self)]

variable {p' : Progress}

theorem LocalStep.applyTo (h : LocalStep undoHistory newText p range op p' A M R)
    (hk : Knows base operations log p.clock p.versions p.doc) : (Operation.edit op).applyTo p.doc = p'.doc := by
  have hobserved : ∀ e ∈ A ++ M ++ R, p.versions.observed e.id = true := by
    intro e he
    rw [← h.doc] at he
    exact hk.docObserved e.key (List.mem_map_of_mem he)
  have hlt : ∀ e ∈ A ++ M ++ R, e.id < op.lamportTimestamp := by
    intro e he
    rw [h.timestamp]
    apply Lamport.lt_of_value_lt
    exact Nat.lt_succ_of_le ((Global.observed_iff.mp (hobserved e he)).trans (hk.bounded _))
  have hmark : M.map (op.replacement.markIf .within) = M.map (Element.mark p.clock.tick) := by
    apply List.map_congr_left
    intro e he
    have hversions : op.versions.observed e.id = true := by
      rw [Global.observed_congr h.versions]
      exact hobserved e (by simp [he])
    rw [← h.timestamp]
    exact if_pos ⟨rfl, hversions⟩
  have hrun : op.replacement.run = newRun p.clock.tick newText := by
    rw [newRun, ← h.text, ← h.timestamp]
    rfl
  have hsplit : op.replacement.apply p.doc = A ++ place op.lamportTimestamp op.replacement.run
      (M.map (op.replacement.markIf .within) ++ R) := by
    rw [h.doc]
    apply Replacement.apply_split _ h.start h.stop
    rw [← h.doc]
    exact hk.docNodup
  have hbehind : ∀ e ∈ M.map (op.replacement.markIf .within) ++ R, e.id < op.lamportTimestamp := by
    intro e he
    cases List.mem_append.mp he with
    | inl he =>
      obtain ⟨d, hd, rfl⟩ := List.mem_map.mp he
      rw [Replacement.markIf_id]
      exact hlt d (by simp [hd])
    | inr he => exact hlt e (by simp [he])
  change op.replacement.apply p.doc = p'.doc
  rw [hsplit, place_of_forall_lt hbehind, hrun, hmark, h.doc']
  simp only [List.append_assoc]

theorem LocalStep.made (h : LocalStep undoHistory newText p range op p' A M R) :
    Made operations p.clock p.versions p.doc (.edit op) := by
  refine ⟨h.timestamp, h.versions, ?_, fun u hu => absurd hu Operation.noConfusion⟩
  intro e he
  cases he
  exact ⟨A, M, R, h.doc, h.start, h.stop, h.startBase, h.stopBase, h.startObserved, h.stopObserved⟩

structure Generated (base : Elements) (operations log ops : List Operation) (clock clock' : Lamport) (versions' : Global)
    (doc' : Elements) : Prop where
  history : History base (operations ++ ops)
  knows : Knows base (operations ++ ops) (log ++ ops) clock' versions' doc'
  replicaId : clock'.replicaId = clock.replicaId
  own : ∀ op ∈ ops, op.replicaId = clock.replicaId
  fresh : ∀ op ∈ ops, op ∉ operations
  others : ∀ log' clock' versions' doc', clock'.replicaId ≠ clock.replicaId →
    Knows base operations log' clock' versions' doc' → Knows base (operations ++ ops) log' clock' versions' doc'

theorem Generated.nil {clock : Lamport} {versions : Global} {doc : Elements} (h : History base operations)
    (hk : Knows base operations log clock versions doc) :
    Generated base operations log [] clock clock versions doc := by
  refine ⟨?_, ?_, rfl, fun _ hmem => absurd hmem List.not_mem_nil, fun _ hmem => absurd hmem List.not_mem_nil, ?_⟩
  · rwa [List.append_nil]
  · rwa [List.append_nil, List.append_nil]
  · intro log' clock' versions' doc' _ hk'
    rwa [List.append_nil]

theorem Generated.snoc {clock clock' : Lamport} {versions' : Global} {doc' : Elements} {ops : List Operation}
    {op : Operation} (h : Generated base operations log ops clock clock' versions' doc')
    (hop : Made (operations ++ ops) clock' versions' doc' op) :
    Generated base operations log (ops ++ [op]) clock clock'.tick (versions'.observe clock'.tick) (op.applyTo doc') := by
  have hlt := hop.lt h.knows
  refine ⟨?_, ?_, h.replicaId, ?_, ?_, ?_⟩
  · rw [← List.append_assoc]
    exact h.history.generate h.knows hop
  · rw [← List.append_assoc, ← List.append_assoc]
    exact h.knows.generate h.history hop
  · intro d hd
    cases List.mem_append.mp hd with
    | inl hd => exact h.own d hd
    | inr hd =>
      rw [List.mem_singleton.mp hd, hop.replicaId]
      exact h.replicaId
  · intro d hd
    cases List.mem_append.mp hd with
    | inl hd => exact h.fresh d hd
    | inr hd =>
      rw [List.mem_singleton.mp hd]
      exact fun hmem => not_mem_of_fresh hlt (List.mem_append_left ops hmem)
  · intro log' clock₁ versions₁ doc₁ hne hk
    rw [← List.append_assoc]
    apply (h.others log' clock₁ versions₁ doc₁ hne hk).other hlt hop.pos h.history
    rw [hop.replicaId, h.replicaId]
    exact hne.symm

theorem LocalSteps.generated (h : History base operations) (hk : Knows base operations log p₀.clock p₀.versions p₀.doc)
    (hsteps : LocalSteps undoHistory newText p₀ ranges ops p) :
    Generated base operations log (ops.map .edit) p₀.clock p.clock p.versions p.doc := by
  induction hsteps with
  | nil => exact Generated.nil h hk
  | snoc hsteps hstep ih =>
    have hsnoc := ih.snoc hstep.made
    rw [hstep.applyTo ih.knows, ← hstep.versions', ← hstep.clock'] at hsnoc
    rw [List.map_append]
    exact hsnoc

end Steps

structure Acted (base : Elements) (operations log ops : List Operation) (replicaId : ReplicaId) (b b' : Buffer) :
    Prop where
  generated : Generated base operations log ops b.lamportClock b'.lamportClock b'.versions (elements b'.fragments)
  follows : Follows base (operations ++ ops) (log ++ ops) replicaId b'
  deferredOps : b'.deferredOps = b.deferredOps

section Acts

variable {base : Elements} {operations log : List Operation} {replicaId : ReplicaId} {b b' : Buffer}
variable {oldRanges : List Range} {newText : List Char} {textStyle : Option TextStyle} {now : Nat}
variable {action : PlainTextEditorViewAction} {edits : List LamportValue}

theorem Follows.acted (h : History base operations) (hf : Follows base operations log replicaId b')
    (hclock : b'.lamportClock = b.lamportClock) (hdeferred : b'.deferredOps = b.deferredOps) :
    Acted base operations log [] replicaId b b' := by
  have hgenerated := Generated.nil h hf.knows
  rw [hclock] at hgenerated
  refine ⟨hclock ▸ hgenerated, ?_, hdeferred⟩
  rwa [List.append_nil, List.append_nil]

theorem Follows.setBatch (hf : Follows base operations log replicaId b) (batchState : BatchState)
    (localUndoStack : LocalUndoStack)
    (hbatch : ∀ op ∈ batchState.editOperations, op.lamportTimestamp.value ≤ b.versions.get replicaId)
    (hstack : localUndoStack.All (· ≤ b.versions.get replicaId)) :
    Follows base operations log replicaId { b with batchState, localUndoStack } := by
  have hc := hf.coherent
  exact ⟨⟨hc.wellFormed, hc.headed, hc.listed, hc.bounded, hc.undos, hc.observed⟩, hf.knows, hf.clockReplica, hf.undone,
    hstack, hbatch⟩

variable {skipUndo : Bool}

section

variable (hf : Follows base operations log replicaId b)
include hf

theorem Follows.startBatch (hact : b.startEditsAndSelectionChangesBatch action skipUndo = some b') :
    Follows base operations log replicaId b' ∧ b'.lamportClock = b.lamportClock ∧ b'.deferredOps = b.deferredOps := by
  unfold Buffer.startEditsAndSelectionChangesBatch at hact
  split at hact
  next =>
    rw [← Option.some.inj hact]
    exact ⟨hf.setBatch _ _ (fun _ hmem => absurd hmem List.not_mem_nil) hf.stack, rfl, rfl⟩
  next => exact absurd hact.symm (Option.some_ne_none b')

theorem Follows.recorded {batchAction : PlainTextEditorViewAction}
    {made : List EditOperation} {recorded : Nat}
    (hbatch : b.batchState = .edits batchAction made recorded skipUndo) :
    (b.localUndoStack.recordEdit action ((made.drop recorded).map fun op => op.lamportTimestamp.value) now).All
      (· ≤ b.versions.get replicaId) := by
  apply LocalUndoStack.All.recordEdit hf.stack
  intro value hvalue
  obtain ⟨op, hop, rfl⟩ := List.mem_map.mp hvalue
  apply hf.batch
  rw [hbatch]
  exact List.mem_of_mem_drop hop

theorem Follows.recordEdits (hact : b.recordEdits action now = some b') :
    Follows base operations log replicaId b' ∧ b'.lamportClock = b.lamportClock ∧ b'.deferredOps = b.deferredOps := by
  unfold Buffer.recordEdits at hact
  split at hact
  next => exact absurd hact.symm (Option.some_ne_none b')
  next hbatch =>
    rw [← Option.some.inj hact]
    have hmade := hf.batch
    rw [hbatch] at hmade
    exact ⟨hf.setBatch _ _ hmade (hf.recorded hbatch), rfl, rfl⟩

theorem Follows.endBatch {fanned : List Operation} (hact : b.endBatch now = some (b', fanned)) :
    Follows base operations log replicaId b' ∧ b'.lamportClock = b.lamportClock ∧ b'.deferredOps = b.deferredOps := by
  unfold Buffer.endBatch at hact
  split at hact
  next => exact absurd hact.symm (Option.some_ne_none _)
  next hbatch =>
    cases Option.some.inj hact
    refine ⟨hf.setBatch _ _ (fun _ hmem => absurd hmem List.not_mem_nil) ?_, rfl, rfl⟩
    split
    next => exact hf.recorded hbatch
    next => exact hf.stack

theorem Follows.changeSelections (hact : b.changeSelections = some b') :
    Follows base operations log replicaId b' ∧ b'.lamportClock = b.lamportClock ∧ b'.deferredOps = b.deferredOps := by
  unfold Buffer.changeSelections at hact
  split at hact
  next =>
    rw [← Option.some.inj hact]
    exact ⟨hf.setBatch _ _ hf.batch (LocalUndoStack.All.recordSelectionChange hf.stack), rfl, rfl⟩
  next => exact absurd hact.symm (Option.some_ne_none b')

theorem Follows.updateStyles (textStyleOperation : TextStyleOperation)
    (hvalid : Disjoint oldRanges) : ∃ b', b.updateStyles oldRanges textStyleOperation = some b' ∧
      Follows base operations log replicaId b' ∧ b'.lamportClock = b.lamportClock ∧ b'.deferredOps = b.deferredOps := by
  obtain ⟨fragments, insertionSplits, hstyles, hcoherent, helements, -⟩ := hf.coherent.updateFragmentStyles
    textStyleOperation (hvalid.filter fun oldRange => decide (oldRange.stop > oldRange.start))
  refine ⟨_, hstyles, ⟨hcoherent, ?_, hf.clockReplica, hf.undone, hf.stack, hf.batch⟩, rfl, rfl⟩
  dsimp only
  rw [helements]
  exact hf.knows

end

theorem Follows.localUndoOrRedo (h : History base operations) (hf : Follows base operations log replicaId b)
    (hedits : ∀ edit ∈ edits, edit ≤ b.versions.get replicaId) :
    Acted base operations log [.undo (b.localUndoOrRedo edits).2] replicaId b (b.localUndoOrRedo edits).1 := by
  have hclock : ∀ edit ∈ edits, edit ≤ b.tick.2.lamportClock.value := fun edit hedit =>
    ((hedits edit hedit).trans (hf.coherent.bounded _)).trans (Nat.le_succ _)
  obtain ⟨hcoherent, helements⟩ := hf.coherent.tick.undoOrRedo b.lamportClock.tick hclock
  have hmade : Made (operations ++ []) b.lamportClock b.versions (elements b.fragments)
      (.undo (b.localUndoOrRedo edits).2) := by
    refine ⟨rfl, fun _ => rfl, fun e he => absurd he Operation.noConfusion, ?_⟩
    intro u hu edit hedit
    cases hu
    rw [hf.clockReplica]
    exact hedits edit hedit
  have hgenerated := (Generated.nil h hf.knows).snoc hmade
  rw [List.nil_append] at hgenerated
  have hgrown : ∀ replicaId, b.versions.get replicaId ≤ (b.versions.observe b.lamportClock.tick).get replicaId :=
    fun replicaId => Global.le_get_observe _ _ _
  have hdoc : elements (b.localUndoOrRedo edits).1.fragments = elements b.fragments := helements
  have hgenerated' : Generated base operations log [.undo (b.localUndoOrRedo edits).2] b.lamportClock
      (b.localUndoOrRedo edits).1.lamportClock (b.localUndoOrRedo edits).1.versions
      (elements (b.localUndoOrRedo edits).1.fragments) := by
    rw [hdoc]
    exact hgenerated
  refine ⟨hgenerated', ⟨hcoherent, hgenerated'.knows, hf.clockReplica, ?_, ?_, ?_⟩, rfl⟩
  · exact undone_undo (u := (b.localUndoOrRedo edits).2) hf.undone
  · exact fun entry hentry edit hedit => (hf.stack entry hentry edit hedit).trans (hgrown _)
  · exact fun op hop => (hf.batch op hop).trans (hgrown _)

theorem Global.get_observe_observed {versions : Global} {timestamp : Lamport} (h : versions.observed timestamp = true)
    (replicaId : ReplicaId) : (versions.observe timestamp).get replicaId = versions.get replicaId := by
  have hle := Global.observed_iff.mp h
  rw [Global.get_observe]
  split
  next heq =>
    rw [heq]
    exact Nat.max_eq_left hle
  next => rfl

variable (newText textStyle) in
theorem Follows.edit (h : History base operations) (hf : Follows base operations log replicaId b)
    (hlen : ∀ range ∈ oldRanges, range.stop ≤ b.len) (hvalid : validRanges oldRanges = true)
    (hbatch : b.batchState ≠ .inactive) :
    ∃ b' ops, b.edit oldRanges newText textStyle = some (b', ops) ∧
      Acted base operations log (ops.map .edit) replicaId b b' := by
  have htext : ∀ text ∈ (if newText = [] then none else some newText : Option (List Char)), text ≠ [] := by
    intro text htext
    split at htext
    next => exact absurd htext (Option.not_mem_none text)
    next hne => rwa [← Option.some.inj htext]
  obtain ⟨b₁, ops, p, hupdate, hsteps, hto⟩ := hf.coherent.updateFragmentsForEdit textStyle hvalid hlen htext
  have hgenerated := hsteps.generated h hf.knows
  cases hstate : b.batchState with
  | inactive => exact absurd hstate hbatch
  | edits action made recorded skipUndo =>
    obtain ⟨versions, hedit, hlast⟩ : ∃ versions, b.edit oldRanges newText textStyle =
        some ({ b₁ with versions, batchState := .edits action (made ++ ops) recorded skipUndo }, ops) ∧
          ∀ replicaId, versions.get replicaId = p.versions.get replicaId := by
      unfold Buffer.edit
      rw [hstate]
      dsimp only
      rw [if_pos hvalid, hupdate, Option.map_some]
      refine ⟨_, rfl, fun replicaId => ?_⟩
      rw [← hto.versions]
      split
      next => rfl
      next op hop =>
        apply Global.get_observe_observed
        have hmem : Operation.edit op ∈ ops.map .edit := List.mem_map_of_mem (List.mem_of_getLast? hop)
        rw [Global.observed_congr hto.versions]
        exact (hgenerated.knows.observed _ (List.mem_append_right _ hmem)).mpr (List.mem_append_right _ hmem)
    have hknows := hgenerated.knows.congr hlast
    have hgrown := hf.knows.le hknows.toObserves fun d hd => List.mem_append_left _ hd
    have hversions : ∀ replicaId, versions.get replicaId = b₁.versions.get replicaId := fun replicaId =>
      (hlast replicaId).trans (hto.versions replicaId).symm
    rw [← hto.lamportClock, ← hto.doc] at hknows hgenerated
    refine ⟨_, ops, hedit, ⟨?_, ?_, hto.deferredOps⟩⟩
    · exact ⟨hgenerated.history, hknows, hgenerated.replicaId, hgenerated.own, hgenerated.fresh, hgenerated.others⟩
    · refine ⟨hto.coherent.setVersions hversions _, hknows, ?_, ?_, ?_, ?_⟩
      · exact hgenerated.replicaId.trans hf.clockReplica
      · intro edit value
        dsimp only
        rw [hto.undoHistory, hf.undone]
        simp
      · intro entry hentry edit hedit
        dsimp only at hentry
        rw [hto.localUndoStack] at hentry
        exact (hf.stack entry hentry edit hedit).trans (hgrown _)
      · intro op hop
        cases List.mem_append.mp hop with
        | inl hop =>
          apply (hf.batch op _).trans (hgrown _)
          rw [hstate]
          exact hop
        | inr hop =>
          have hmem : Operation.edit op ∈ ops.map .edit := List.mem_map_of_mem hop
          have hobserved := (hknows.observed _ (List.mem_append_right _ hmem)).mpr (List.mem_append_right _ hmem)
          have hle := Global.observed_iff.mp hobserved
          have hown : op.lamportTimestamp.replicaId = replicaId := (hgenerated.own _ hmem).trans hf.clockReplica
          change op.lamportTimestamp.value ≤ versions.get op.lamportTimestamp.replicaId at hle
          rwa [hown] at hle

theorem Follows.perform (h : History base operations) (hf : Follows base operations log replicaId b) {act : LocalAct}
    (hvalid : act.Valid b) {ops : List Operation} (hperform : b.perform act = some (b', ops)) :
    Acted base operations log ops replicaId b b' := by
  cases act with
  | startBatch action skipUndo =>
    obtain ⟨b₁, hact, heq⟩ := Option.map_eq_some_iff.mp hperform
    cases heq
    obtain ⟨hf', hclock, hdeferred⟩ := hf.startBatch hact
    exact hf'.acted h hclock hdeferred
  | edit oldRanges newText textStyle =>
    obtain ⟨result, hact, heq⟩ := Option.map_eq_some_iff.mp hperform
    cases heq
    have hactive : b.batchState ≠ .inactive := by
      intro hinactive
      unfold Buffer.edit at hact
      rw [hinactive] at hact
      exact Option.some_ne_none _ hact.symm
    have hranges : validRanges oldRanges = true := by
      by_contra hranges
      unfold Buffer.edit at hact
      split at hact
      next => exact Option.some_ne_none _ hact.symm
      next =>
        rw [if_neg hranges] at hact
        exact Option.some_ne_none _ hact.symm
    obtain ⟨b₁, made, hedit, hacted⟩ := hf.edit _ _ h hvalid hranges hactive
    rw [hedit] at hact
    cases Option.some.inj hact
    exact hacted
  | recordEdits action now =>
    obtain ⟨b₁, hact, heq⟩ := Option.map_eq_some_iff.mp hperform
    cases heq
    obtain ⟨hf', hclock, hdeferred⟩ := hf.recordEdits hact
    exact hf'.acted h hclock hdeferred
  | endBatch now =>
    obtain ⟨result, hact, heq⟩ := Option.map_eq_some_iff.mp hperform
    cases heq
    obtain ⟨hf', hclock, hdeferred⟩ := hf.endBatch hact
    exact hf'.acted h hclock hdeferred
  | changeSelections =>
    obtain ⟨b₁, hact, heq⟩ := Option.map_eq_some_iff.mp hperform
    cases heq
    obtain ⟨hf', hclock, hdeferred⟩ := hf.changeSelections hact
    exact hf'.acted h hclock hdeferred
  | undo =>
    obtain ⟨result, hact, heq⟩ := Option.map_eq_some_iff.mp hperform
    cases heq
    unfold Buffer.undo at hact
    split at hact
    next => exact absurd hact.symm (Option.some_ne_none _)
    next =>
      split at hact
      next =>
        cases Option.some.inj hact
        exact hf.acted h rfl rfl
      next edits stack hundo =>
        cases Option.some.inj hact
        obtain ⟨hedits, hstack⟩ := LocalUndoStack.All.undo hf.stack hundo
        have hacted := (hf.setBatch b.batchState stack hf.batch hstack).localUndoOrRedo h hedits
        exact ⟨hacted.generated, hacted.follows, hacted.deferredOps⟩
  | redo =>
    obtain ⟨result, hact, heq⟩ := Option.map_eq_some_iff.mp hperform
    cases heq
    unfold Buffer.redo at hact
    split at hact
    next => exact absurd hact.symm (Option.some_ne_none _)
    next =>
      split at hact
      next =>
        cases Option.some.inj hact
        exact hf.acted h rfl rfl
      next edits stack hredo =>
        cases Option.some.inj hact
        obtain ⟨hedits, hstack⟩ := LocalUndoStack.All.redo hf.stack hredo
        have hacted := (hf.setBatch b.batchState stack hf.batch hstack).localUndoOrRedo h hedits
        exact ⟨hacted.generated, hacted.follows, hacted.deferredOps⟩
  | updateStyles oldRanges textStyleOperation =>
    obtain ⟨b₁, hact, heq⟩ := Option.map_eq_some_iff.mp hperform
    cases heq
    obtain ⟨b₂, hstyles, hf', hclock, hdeferred⟩ := hf.updateStyles textStyleOperation hvalid
    rw [hstyles] at hact
    cases Option.some.inj hact
    exact hf'.acted h hclock hdeferred

end Acts

end InfiniShell.Editor
