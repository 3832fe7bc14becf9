import InfiniShell.Editor.Cuts

namespace InfiniShell.Editor

open Collections Collections.ListCursor Crdt

/-- Between two operations of an edit; `shift` is how far the offsets of the text have moved. -/
structure Progress where
  clock : Lamport
  versions : Global
  doc : Elements
  shift : Int

def visibleCount (undoHistory : UndoHistory) (l : Elements) : Nat := (seen undoHistory.isEditUndone l).length

def newRun (ts : Lamport) (newText : Option (List Char)) : Elements := runFrom ts 0 (newText.getD [])

/-- What an operation of a local edit says and what it makes of the characters, `M` being those in the range. -/
structure LocalStep (undoHistory : UndoHistory) (newText : Option (List Char)) (p : Progress) (range : Range)
    (op : EditOperation) (p' : Progress) (A M R : Elements) : Prop where
  doc : p.doc = A ++ M ++ R
  timestamp : op.lamportTimestamp = p.clock.tick
  versions : ∀ replicaId, op.versions.get replicaId = p.versions.get replicaId
  start : anchorFor op.startId op.startCharacterOffset = anchorOf A
  stop : anchorFor op.endId op.endCharacterOffset = anchorOf (A ++ M)
  startBase : op.startCharacterOffset = 0 → op.startId = Lamport.new baseReplicaId
  stopBase : op.endCharacterOffset = 0 → op.endId = Lamport.new baseReplicaId
  startObserved : p.versions.observed op.startId = true
  stopObserved : p.versions.observed op.endId = true
  text : op.newText = newText.getD []
  countA : (visibleCount undoHistory A : Int) = range.start + p.shift
  countM : range.start + visibleCount undoHistory M = range.stop
  clock' : p'.clock = p.clock.tick
  versions' : p'.versions = p.versions.observe p.clock.tick
  doc' : p'.doc = A ++ newRun p.clock.tick newText ++ M.map (Element.mark p.clock.tick) ++ R
  shift' : p'.shift = p.shift + (newText.getD []).length - (range.stop - range.start)

inductive LocalSteps (undoHistory : UndoHistory) (newText : Option (List Char)) (p : Progress) :
    List Range → List EditOperation → Progress → Prop where
  | nil : LocalSteps undoHistory newText p [] [] p
  | snoc {ranges range ops op p' p'' A M R} : LocalSteps undoHistory newText p ranges ops p' →
      LocalStep undoHistory newText p' range op p'' A M R →
      LocalSteps undoHistory newText p (ranges ++ [range]) (ops ++ [op]) p''

/-- The versions do not run ahead of the clock, and no edit the clock has not seen is undone. -/
structure Progress.Sound (p : Progress) (undoHistory : UndoHistory) : Prop where
  bounded : ∀ replicaId, p.versions.get replicaId ≤ p.clock.value
  undos : ∀ edit : Lamport, p.clock.value < edit.value → undoHistory.undosOf edit = ∅

structure Scanned (undoHistory : UndoHistory) (p : Progress) (new ahead : List Fragment) : Prop where
  sound : p.Sound undoHistory
  wellFormed : WellFormed (new ++ ahead) undoHistory
  headed : Headed (new ++ ahead)
  started : new ≠ []
  aheadObserved : ∀ f ∈ ahead, p.versions.observed f.insertion.id = true

/-- No operation is under way: the fragments are those that the operations so far have led to. -/
structure Between (undoHistory : UndoHistory) (p : Progress) (new ahead : List Fragment) (pos : Nat) : Prop
    extends Scanned undoHistory p new ahead where
  newObserved : ∀ f ∈ new, p.versions.observed f.insertion.id = true
  doc : p.doc = elements (new ++ ahead)
  count : (visibleCount undoHistory (elements new) : Int) = pos + p.shift

/-- The operation under way has started: `A` is before its range, `M` the part of the range scanned so far. -/
structure Opened (undoHistory : UndoHistory) (newText : Option (List Char)) (p : Progress)
    (new ahead : List Fragment) (pos : Nat) (range : Range) (A M : Elements) : Prop
    extends Scanned undoHistory p new ahead where
  newObserved : ∀ f ∈ new, f.insertion.id = p.clock.tick ∨ p.versions.observed f.insertion.id = true
  elementsNew : elements new = A ++ newRun p.clock.tick newText ++ M.map (Element.mark p.clock.tick)
  doc : p.doc = A ++ M ++ elements ahead
  countA : (visibleCount undoHistory A : Int) = range.start + p.shift
  countM : range.start + visibleCount undoHistory M = pos

/-- The clock and the versions while the operation after `p` is under way. -/
structure Ticked (p : Progress) (s : EditScan) : Prop where
  lamportClock : s.lamportClock = p.clock.tick
  versions : s.versions = p.versions.observe p.clock.tick
  version : s.version = p.versions

structure ArgsFor (newText : Option (List Char)) (p : Progress) (args : OperationEditArgs) : Prop where
  versionInRange : ∀ replicaId, args.versionInRange.get replicaId = p.versions.get replicaId
  newText : args.newText = newText.getD []
  lamportTimestamp : args.lamportTimestamp = p.clock.tick

def StartsAt (p : Progress) (args : OperationEditArgs) (A : Elements) : Prop :=
  ∃ id offset, args.startId = some id ∧ args.startCharacterOffset = some offset ∧ anchorFor id offset = anchorOf A ∧
    p.versions.observed id = true ∧ (offset = 0 → id = Lamport.new baseReplicaId)

def EndsAt (p : Progress) (args : OperationEditArgs) (A : Elements) : Prop :=
  ∃ id offset, args.endId = some id ∧ args.endCharacterOffset = some offset ∧ anchorFor id offset = anchorOf A ∧
    p.versions.observed id = true ∧ (offset = 0 → id = Lamport.new baseReplicaId)

section Counting

variable {undoHistory : UndoHistory}

@[simp] theorem visibleCount_nil : visibleCount undoHistory [] = 0 := rfl

@[simp] theorem visibleCount_append (l r : Elements) :
    visibleCount undoHistory (l ++ r) = visibleCount undoHistory l + visibleCount undoHistory r := by
  rw [visibleCount, seen_append, List.length_append]
  rfl

variable (undoHistory) in
theorem visibleCount_fragment {f : Fragment} (h : f.endCharacterOffset ≤ f.insertion.text.length) :
    visibleCount undoHistory f.elements = f.visibleLen undoHistory := by
  rw [visibleCount, Fragment.seen_elements, Fragment.visibleLen]
  cases f.isVisibleIn undoHistory with
  | true => exact Fragment.length_text h
  | false => rfl

variable {ts : Lamport}

theorem visibleCount_run (hts : undoHistory.undosOf ts = ∅) (newText : Option (List Char)) :
    visibleCount undoHistory (newRun ts newText) = (newText.getD []).length := by
  have hvisible : ∀ e ∈ newRun ts newText, e.visible undoHistory.isEditUndone = true := by
    intro e he
    obtain ⟨hid, hdeletions⟩ := mem_runFrom he
    rw [Element.visible, hid, hdeletions, isEditUndone_of_empty hts]
    rfl
  rw [visibleCount, seen, List.filter_eq_self.mpr hvisible]
  exact congrArg List.length (map_value_runFrom ts 0 (newText.getD []))

theorem visibleCount_mark (hts : undoHistory.undosOf ts = ∅) (l : Elements) :
    visibleCount undoHistory (l.map (Element.mark ts)) = 0 := by
  have hinvisible : ∀ e ∈ l.map (Element.mark ts), ¬e.visible undoHistory.isEditUndone = true := by
    intro e he hvisible
    obtain ⟨d, -, rfl⟩ := List.mem_map.mp he
    simp only [Element.visible, Bool.and_eq_true, decide_eq_true_eq] at hvisible
    have hundone := hvisible.2 ts (Finset.mem_insert_self ts d.deletions)
    rw [isEditUndone_of_empty hts] at hundone
    exact Bool.false_ne_true hundone
  rw [visibleCount, seen, List.filter_eq_nil_iff.mpr hinvisible]
  rfl

end Counting

namespace Progress

variable {p : Progress} {undoHistory : UndoHistory}

theorem Sound.undos_tick (h : p.Sound undoHistory) : undoHistory.undosOf p.clock.tick = ∅ :=
  h.undos p.clock.tick (Nat.lt_succ_self _)

theorem Sound.not_observed_tick (h : p.Sound undoHistory) : p.versions.observed p.clock.tick = false := by
  have hle := h.bounded p.clock.replicaId
  refine decide_eq_false ?_
  change ¬p.versions.get p.clock.replicaId ≥ p.clock.value + 1
  omega

theorem Sound.next (h : p.Sound undoHistory) {p' : Progress} (hclock : p'.clock = p.clock.tick)
    (hversions : p'.versions = p.versions.observe p.clock.tick) : p'.Sound undoHistory := by
  constructor
  · intro replicaId
    have hle := h.bounded replicaId
    rw [hversions, hclock, Global.get_observe]
    change _ ≤ p.clock.value + 1
    split
    next =>
      change max _ (p.clock.value + 1) ≤ _
      omega
    next => omega
  · intro edit hedit
    rw [hclock] at hedit
    exact h.undos edit ((Nat.lt_succ_self _).trans hedit)

end Progress

end InfiniShell.Editor
