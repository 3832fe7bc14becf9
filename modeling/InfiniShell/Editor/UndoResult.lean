import InfiniShell.Editor.Operations
import InfiniShell.Editor.StyleResult

namespace InfiniShell.Editor

open Collections Collections.ListCursor Crdt

structure SameText (f g : Fragment) : Prop where
  id : g.id = f.id
  insertion : g.insertion = f.insertion
  start : g.startCharacterOffset = f.startCharacterOffset
  stop : g.endCharacterOffset = f.endCharacterOffset
  deletions : g.deletions = f.deletions

section Fragment

variable {f : Fragment} {undoTs : Lamport} {edits : List LamportValue} {undoHistory undoHistory' : UndoHistory}
variable {undoneEdits : List Lamport}

theorem Fragment.undoOrRedo_same (f : Fragment) (undoTs : Lamport) (undoneEdits : List Lamport)
    (undoHistory : UndoHistory) : SameText f (f.undoOrRedo undoTs undoneEdits undoHistory) := by
  rw [Fragment.undoOrRedo]
  split
  next => exact ⟨rfl, rfl, rfl, rfl, rfl⟩
  next => exact ⟨rfl, rfl, rfl, rfl, rfl⟩

theorem isVisibleIn_congr (hinsertion : undoHistory'.undosOf f.insertion.id = undoHistory.undosOf f.insertion.id)
    (hdeletions : ∀ d ∈ f.deletions, undoHistory'.undosOf d = undoHistory.undosOf d) :
    f.isVisibleIn undoHistory' = f.isVisibleIn undoHistory := by
  have hundone : ∀ {edit}, undoHistory'.undosOf edit = undoHistory.undosOf edit →
      undoHistory'.isEditUndone edit = undoHistory.isEditUndone edit := by
    intro edit hedit
    rw [UndoHistory.isEditUndone, hedit, UndoHistory.isEditUndone]
  have hall : (∀ d ∈ f.deletions, undoHistory'.isEditUndone d = true) ↔
      ∀ d ∈ f.deletions, undoHistory.isEditUndone d = true :=
    forall₂_congr fun d hd => by rw [hundone (hdeletions d hd)]
  simp only [Fragment.isVisibleIn, hundone hinsertion, hall]

theorem Fragment.Fresh.undoOrRedo (h : f.Fresh undoHistory) :
    (f.undoOrRedo undoTs (edits.map fun edit => ⟨undoTs.replicaId, edit⟩) (undoHistory.undoAll undoTs edits)).Fresh
      (undoHistory.undoAll undoTs edits) := by
  have hundone : ∀ edit : Lamport, edit ∈ edits.map (fun edit => (⟨undoTs.replicaId, edit⟩ : Lamport)) ↔
      edit.replicaId = undoTs.replicaId ∧ edit.value ∈ edits := by
    intro edit
    rw [List.mem_map]
    constructor
    · intro hmem
      obtain ⟨value, hvalue, rfl⟩ := hmem
      exact ⟨rfl, hvalue⟩
    · intro hmem
      exact ⟨edit.value, hmem.2, by rw [← hmem.1]⟩
  rw [Fragment.undoOrRedo]
  split
  next hmatch =>
    constructor
    · rfl
    · intro edit hedit undo hundo
      change undo ≤ (f.maxUndoTs.observe undoTs).get edit.replicaId
      rw [UndoHistory.undosOf_undoAll] at hundo
      rw [Global.get_observe]
      split at hundo
      next hin =>
        rw [if_pos hin.1]
        cases Finset.mem_insert.mp hundo with
        | inl heq =>
          rw [heq]
          exact Nat.le_max_right _ _
        | inr hmem => exact (h.maxUndoTs edit hedit undo hmem).trans (Nat.le_max_left _ _)
      next =>
        have hle := h.maxUndoTs edit hedit undo hundo
        split
        next => exact hle.trans (Nat.le_max_left _ _)
        next => exact hle
  next hmatch =>
    have hsame : ∀ edit, edit = f.insertion.id ∨ edit ∈ f.deletions →
        (undoHistory.undoAll undoTs edits).undosOf edit = undoHistory.undosOf edit := by
      intro edit hedit
      rw [UndoHistory.undosOf_undoAll, if_neg]
      intro hin
      apply hmatch
      cases hedit with
      | inl heq => exact .inl (heq ▸ (hundone edit).mpr hin)
      | inr hmem => exact .inr ⟨edit, hmem, (hundone edit).mpr hin⟩
    constructor
    · rw [h.isVisible, isVisibleIn_congr (hsame _ (.inl rfl)) fun d hd => hsame d (.inr hd)]
    · intro edit hedit undo hundo
      rw [hsame edit hedit] at hundo
      exact h.maxUndoTs edit hedit undo hundo

end Fragment

section Map

variable {fragments : List Fragment} {change : Fragment → Fragment}

theorem elements_map (h : ∀ f, SameText f (change f)) : elements (fragments.map change) = elements fragments := by
  induction fragments with
  | nil => rfl
  | cons f fragments ih =>
    have hf := h f
    have htext : (change f).text = f.text := by
      rw [Fragment.text, Fragment.text, Fragment.len, Fragment.len, hf.insertion, hf.start, hf.stop]
    have helements : (change f).elements = f.elements := by
      rw [Fragment.elements, Fragment.elements, htext, hf.insertion, hf.start, hf.deletions]
    rw [List.map_cons, elements_cons, elements_cons, ih, helements]

theorem ofInsertion_map (h : ∀ f, SameText f (change f)) (id : Lamport) :
    ofInsertion id (fragments.map change) = (ofInsertion id fragments).map change := by
  induction fragments with
  | nil => rfl
  | cons f fragments ih =>
    by_cases hid : f.insertion.id = id
    · rw [List.map_cons, ofInsertion_cons_of_eq (by rw [(h f).insertion, hid]), ofInsertion_cons_of_eq hid, ih,
        List.map_cons]
    · rw [List.map_cons, ofInsertion_cons_of_ne (by rwa [(h f).insertion]), ofInsertion_cons_of_ne hid, ih]

theorem covers_map (h : ∀ f, SameText f (change f)) {insertion : Insertion} {start stop : Nat}
    (hcovers : Covers insertion start stop fragments) : Covers insertion start stop (fragments.map change) := by
  induction fragments generalizing start with
  | nil => exact hcovers
  | cons f fragments ih =>
    obtain ⟨hinsertion, hstart, hle, hrest⟩ := hcovers
    have hf := h f
    refine ⟨hf.insertion.trans hinsertion, hf.start.trans hstart, ?_, ?_⟩
    · rw [hf.stop]
      exact hle
    · rw [hf.stop]
      exact ih hrest

theorem WellFormed.map {undoHistory undoHistory' : UndoHistory} (hwell : WellFormed fragments undoHistory)
    (h : ∀ f, SameText f (change f)) (hfresh : ∀ f ∈ fragments, (change f).Fresh undoHistory') :
    WellFormed (fragments.map change) undoHistory' := by
  refine ⟨hwell.ordered.congr ?_, ?_, ?_, ?_⟩
  · rw [List.map_map]
    exact List.map_congr_left fun f _ => (h f).id
  · intro g hg
    obtain ⟨f, hf, rfl⟩ := List.mem_map.mp hg
    rw [(h f).id]
    exact hwell.isU16 f hf
  · intro id hne
    rw [ofInsertion_map h] at hne ⊢
    obtain ⟨insertion, hcovers⟩ := hwell.tiled id (mt (fun hnil => by rw [hnil]; rfl) hne)
    exact ⟨insertion, covers_map h hcovers⟩
  · intro g hg
    obtain ⟨f, hf, rfl⟩ := List.mem_map.mp hg
    exact hfresh f hf

theorem Listed.map {splits : InsertionSplits} (hlisted : Listed fragments splits) (h : ∀ f, SameText f (change f)) :
    Listed (fragments.map change) splits := by
  intro id
  have hsplit : ∀ f, (change f).split = f.split := by
    intro f
    rw [Fragment.split, Fragment.split, Fragment.len, Fragment.len, (h f).id, (h f).start, (h f).stop]
  rw [hlisted, listing, listing, ofInsertion_map h, List.map_map, List.map_congr_left fun f _ => (hsplit f).symm]
  simp only [List.map_eq_nil_iff]
  rfl

theorem Headed.map (hhead : Headed fragments) (h : ∀ f, SameText f (change f)) : Headed (fragments.map change) := by
  obtain ⟨first, rest, rfl, hid, hinsertion, hstart, hstop, hlt⟩ := hhead
  have hfirst := h first
  refine ⟨change first, rest.map change, rfl, hfirst.id.trans hid, ?_, hfirst.start.trans hstart,
    hfirst.stop.trans hstop, ?_⟩
  · rw [hfirst.insertion, hinsertion]
  · intro g hg
    obtain ⟨f, hf, rfl⟩ := List.mem_map.mp hg
    rw [(h f).start, (h f).stop]
    exact hlt f hf

end Map

namespace Buffer.Coherent

variable {b : Buffer} {undoTs : Lamport} {edits : List LamportValue}

variable (undoTs) in
theorem undoOrRedo (h : b.Coherent) (hedits : ∀ edit ∈ edits, edit ≤ b.lamportClock.value) :
    (b.undoOrRedo undoTs edits).Coherent ∧ elements (b.undoOrRedo undoTs edits).fragments = elements b.fragments := by
  have hdrop : b.fragments.dropWhile (·.id < FragmentId.minValue) = b.fragments := by
    obtain ⟨first, rest, heq, hid, -⟩ := h.headed
    rw [heq, List.dropWhile_cons_of_neg]
    rw [hid]
    exact fun hlt => lt_irrefl _ (of_decide_eq_true hlt)
  have hsame := fun f : Fragment => f.undoOrRedo_same undoTs
    (edits.map fun edit => (⟨undoTs.replicaId, edit⟩ : Lamport)) (b.undoHistory.undoAll undoTs edits)
  rw [Buffer.undoOrRedo]
  dsimp only
  rw [hdrop]
  refine ⟨⟨?_, h.headed.map hsame, h.listed.map hsame, h.bounded, ?_, ?_⟩, elements_map hsame⟩
  · exact h.wellFormed.map hsame fun f hf => (h.wellFormed.fresh f hf).undoOrRedo
  · intro edit hlt
    dsimp only at hlt ⊢
    rw [UndoHistory.undosOf_undoAll, if_neg, h.undos edit hlt]
    intro hin
    exact absurd (hedits edit.value hin.2) (Nat.not_le.mpr hlt)
  · intro g hg
    obtain ⟨f, hf, rfl⟩ := List.mem_map.mp hg
    rw [(hsame f).insertion]
    exact h.observed f hf

theorem setVersions (h : b.Coherent) {versions : Global}
    (hversions : ∀ replicaId, versions.get replicaId = b.versions.get replicaId) (batchState : BatchState) :
    ({ b with versions, batchState } : Buffer).Coherent := by
  refine ⟨h.wellFormed, h.headed, h.listed, ?_, h.undos, ?_⟩
  · intro replicaId
    exact (hversions replicaId).trans_le (h.bounded replicaId)
  · intro f hf
    have hobserved := Global.observed_iff.mp (h.observed f hf)
    rw [← hversions] at hobserved
    exact Global.observed_iff.mpr hobserved

theorem acknowledge (h : b.Coherent) (ts : Lamport) : (b.acknowledge ts).Coherent := by
  refine ⟨h.wellFormed, h.headed, h.listed, ?_, ?_, ?_⟩
  · intro replicaId
    have hle := h.bounded replicaId
    change (b.versions.observe ts).get replicaId ≤ max b.lamportClock.value ts.value + 1
    rw [Global.get_observe]
    split
    next => omega
    next => omega
  · intro edit hlt
    apply h.undos
    change max b.lamportClock.value ts.value + 1 < edit.value at hlt
    omega
  · exact fun f hf => Global.observed_observe (h.observed f hf)

theorem tick (h : b.Coherent) : b.tick.2.Coherent := by
  refine ⟨h.wellFormed, h.headed, h.listed, ?_, ?_, ?_⟩
  · intro replicaId
    have hle := h.bounded replicaId
    change (b.versions.observe b.lamportClock.tick).get replicaId ≤ b.lamportClock.value + 1
    rw [Global.get_observe]
    split
    next =>
      change max _ (b.lamportClock.value + 1) ≤ _
      omega
    next => omega
  · intro edit hlt
    apply h.undos
    change b.lamportClock.value + 1 < edit.value at hlt
    omega
  · exact fun f hf => Global.observed_observe (h.observed f hf)

end Buffer.Coherent

end InfiniShell.Editor
