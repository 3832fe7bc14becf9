import InfiniShell.Editor.FragmentId
import InfiniShell.Editor.Undo
import InfiniShell.Collections.ListCursor
import Mathlib.Data.Nat.Notation

namespace InfiniShell.Editor

open Collections Collections.ListCursor

structure ColorU where
  r : UInt8
  g : UInt8
  b : UInt8
  a : UInt8

structure TextBorder where
  color : ColorU
  radius : UInt8
  width : UInt8
  lineHeightRatioOverride : Option UInt8

structure TextStyle where
  foregroundColor : Option ColorU := none
  syntaxColor : Option ColorU := none
  backgroundColor : Option ColorU := none
  border : Option TextBorder := none
  errorUnderlineColor : Option ColorU := none
  showStrikethrough : Bool := false
  underlineColor : Option ColorU := none
  hyperlinkId : Option Int32 := none

/-- The syntax color is not inherited. -/
def TextStyle.filterInheritableStyles (style : TextStyle) : TextStyle :=
  { foregroundColor := style.foregroundColor, backgroundColor := style.backgroundColor }

inductive StyleOperation where
  | none
  | clear
  | style (color : ColorU)

def StyleOperation.getResultColor : StyleOperation → Option ColorU → Option ColorU
  | style color, _ => some color
  | clear, _ => Option.none
  | none, currentColor => currentColor

structure TextStyleOperation where
  foregroundColor : StyleOperation := .none
  syntaxColor : StyleOperation := .none
  backgroundColor : StyleOperation := .none
  errorUnderlineColor : StyleOperation := .none

def TextStyleOperation.applyTextStyleOperation (textStyle : TextStyle) (operation : TextStyleOperation) : TextStyle :=
  { textStyle with
    foregroundColor := operation.foregroundColor.getResultColor textStyle.foregroundColor
    syntaxColor := operation.syntaxColor.getResultColor textStyle.syntaxColor
    backgroundColor := operation.backgroundColor.getResultColor textStyle.backgroundColor
    errorUnderlineColor := operation.errorUnderlineColor.getResultColor textStyle.errorUnderlineColor }

structure Range where
  start : Nat
  stop : Nat

structure Insertion where
  id : Lamport
  text : List Char
  textStyle : Option TextStyle

/-- The text of a fragment is the slice of the insertion's text between its two offsets. -/
structure Fragment where
  id : FragmentId
  insertion : Insertion
  startCharacterOffset : Nat
  endCharacterOffset : Nat
  textStyle : Option TextStyle
  textStyleInheritedAfterDeletion : Bool
  deletions : Finset Lamport
  isVisible : Bool
  maxUndoTs : Global

structure InsertionSplit where
  extent : Nat
  fragmentId : FragmentId

abbrev InsertionSplits := BTreeMap Lamport (List InsertionSplit)

namespace Fragment

def new (id : FragmentId) (insertion : Insertion) : Fragment :=
  { id, insertion, startCharacterOffset := 0, endCharacterOffset := insertion.text.length
    textStyle := insertion.textStyle, textStyleInheritedAfterDeletion := false
    deletions := ∅, isVisible := true, maxUndoTs := Global.new }

def len (f : Fragment) : Nat := f.endCharacterOffset - f.startCharacterOffset

def text (f : Fragment) : List Char := (f.insertion.text.drop f.startCharacterOffset).take f.len

/-- The method `is_visible`: the freshest state, not the cached one. -/
def isVisibleIn (f : Fragment) (undoHistory : UndoHistory) : Bool :=
  !undoHistory.isEditUndone f.insertion.id &&
    decide (∀ deletion ∈ f.deletions, undoHistory.isEditUndone deletion = true)

def wasVisible (f : Fragment) (version : Global) (undoHistory : UndoHistory) : Bool :=
  version.observed f.insertion.id && !undoHistory.wasEditUndone f.insertion.id version &&
    decide (∀ d ∈ f.deletions, version.observed d = false ∨ undoHistory.wasEditUndone d version = true)

def visibleLen (f : Fragment) (undoHistory : UndoHistory) : Nat := if f.isVisibleIn undoHistory then f.len else 0

def recomputeVisibility (f : Fragment) (undoHistory : UndoHistory) : Fragment :=
  { f with isVisible := f.isVisibleIn undoHistory }

def markDeletion (f : Fragment) (deletion : Lamport) (undoHistory : UndoHistory) : Fragment :=
  { f with deletions := insert deletion f.deletions }.recomputeVisibility undoHistory

def setTextStyle (f : Fragment) (textStyle : TextStyle) : Fragment := { f with textStyle := some textStyle }

/-- The slice of the insertion's text, cut off at its end; the fragment keeps its style. -/
def slice (f : Fragment) (start stop : Nat) : Fragment :=
  { f with
    startCharacterOffset := min start f.insertion.text.length
    endCharacterOffset := min stop f.insertion.text.length }

def setStartOffset (f : Fragment) (offset : Nat) : Fragment := f.slice offset f.endCharacterOffset

def setEndCharacterOffset (f : Fragment) (offset : Nat) : Fragment := f.slice f.startCharacterOffset offset

def chars (f : Fragment) : Nat := if f.isVisible then f.len else 0

def maxVersion (f : Fragment) : Global :=
  ((f.deletions.sort (· ≤ ·)).foldl Global.observe (Global.new.observe f.insertion.id)).observeAll f.maxUndoTs

def split (f : Fragment) : InsertionSplit := ⟨f.len, f.id⟩

end Fragment

structure EditOperation where
  lamportTimestamp : Lamport
  versions : Global
  startId : Lamport
  startCharacterOffset : Nat
  endId : Lamport
  endCharacterOffset : Nat
  newText : List Char
deriving DecidableEq

structure UndoOperation where
  lamportTimestamp : Lamport
  versions : Global
  operations : List LamportValue
deriving DecidableEq

inductive Operation where
  | edit (op : EditOperation)
  | undo (op : UndoOperation)
deriving DecidableEq

def Operation.lamportTimestamp : Operation → Lamport
  | edit op => op.lamportTimestamp
  | undo op => op.lamportTimestamp

def Operation.replicaId (op : Operation) : ReplicaId := op.lamportTimestamp.replicaId

structure DeferredOperations where
  replicaIds : List ReplicaId
  operations : List Operation

namespace DeferredOperations

def new : DeferredOperations := ⟨[], []⟩

def drain (deferred : DeferredOperations) : List Operation × DeferredOperations := (deferred.operations, new)

def extend (deferred : DeferredOperations) (operations : List Operation) : DeferredOperations :=
  { replicaIds := deferred.replicaIds ++ operations.map Operation.replicaId
    operations := (deferred.operations ++ operations).insertionSort
      fun a b => a.lamportTimestamp ≤ b.lamportTimestamp }

def replicaDeferred (deferred : DeferredOperations) (replicaId : ReplicaId) : Bool :=
  deferred.replicaIds.contains replicaId

end DeferredOperations

inductive BatchState where
  | inactive
  | edits (action : PlainTextEditorViewAction) (edits : List EditOperation) (numEditsAlreadyRecorded : Nat)
      (skipUndo : Bool)
deriving DecidableEq

structure Buffer where
  lamportClock : Lamport
  versions : Global
  fragments : List Fragment
  insertionSplits : InsertionSplits
  deferredOps : DeferredOperations
  batchState : BatchState
  localUndoStack : LocalUndoStack
  undoHistory : UndoHistory

def baseInsertion (baseText : List Char) : Insertion := ⟨Lamport.new baseReplicaId, baseText, none⟩

def sentinel (baseText : List Char) : Fragment :=
  { Fragment.new FragmentId.minValue (baseInsertion baseText) with endCharacterOffset := 0 }

def baseFragmentId : FragmentId := (FragmentId.between FragmentId.minValue FragmentId.maxValue).get rfl

def baseFragment (baseText : List Char) : Fragment := Fragment.new baseFragmentId (baseInsertion baseText)

namespace Buffer

def newWithReplicaId (replicaId : ReplicaId) (baseText : List Char) : Buffer :=
  let fragments := if baseText = [] then [sentinel baseText] else [sentinel baseText, baseFragment baseText]
  { lamportClock := Lamport.new replicaId
    versions := Global.new
    fragments
    insertionSplits := BTreeMap.empty.insert (Lamport.new baseReplicaId) (fragments.map Fragment.split)
    deferredOps := DeferredOperations.new
    batchState := .inactive
    localUndoStack := LocalUndoStack.new
    undoHistory := UndoHistory.new }

def replicaId (b : Buffer) : ReplicaId := b.lamportClock.replicaId

def len (b : Buffer) : Nat := total Fragment.chars b.fragments

def charsAfter (undoHistory : UndoHistory) : List Fragment → List Char
  | [] => []
  | f :: fragments =>
    if f.isVisibleIn undoHistory then
      if f.text = [] then [] else f.text ++ charsAfter undoHistory fragments
    else charsAfter undoHistory fragments

def text (b : Buffer) : List Char :=
  match (slice Fragment.chars .right 0 0 b.fragments).2 with
  | [] => []
  | f :: fragments => f.text ++ charsAfter b.undoHistory fragments

def tick (b : Buffer) : Global × Buffer :=
  (b.versions, { b with
    lamportClock := b.lamportClock.tick
    versions := b.versions.observe b.lamportClock.tick })

end Buffer

structure Edit where
  oldRange : Range
  newRange : Range

section Edits

variable (since : Global) (undoHistory : UndoHistory)

/-- The change it goes on with and what `delta` grows by; nothing if the change ends before the fragment. -/
def editOver (f : Fragment) (newOffset : Nat) (delta : Int) (change : Option Edit) : Option (Option Edit × Int) :=
  let oldOffset := (newOffset - delta).toNat
  if !f.wasVisible since undoHistory && f.isVisibleIn undoHistory then
    match change with
    | none => some (some ⟨⟨oldOffset, oldOffset⟩, ⟨newOffset, newOffset + f.len⟩⟩, f.len)
    | some change =>
      if change.newRange.stop = newOffset then
        some (some { change with newRange := ⟨change.newRange.start, change.newRange.stop + f.len⟩ }, f.len)
      else none
  else if f.wasVisible since undoHistory && !f.isVisibleIn undoHistory then
    match change with
    | none => some (some ⟨⟨oldOffset, oldOffset + f.len⟩, ⟨newOffset, newOffset⟩⟩, -f.len)
    | some change =>
      if change.newRange.stop = newOffset then
        some (some { change with oldRange := ⟨change.oldRange.start, change.oldRange.stop + f.len⟩ }, -f.len)
      else none
  else some (change, 0)

/-- One call of `next`: the cursor, at `newOffset`, and `delta` go on as far as the change. -/
def nextEdit (change : Option Edit) : Nat → Int → List Fragment → Option Edit × Nat × Int × List Fragment
  | newOffset, delta, [] => (change, newOffset, delta, [])
  | newOffset, delta, f :: fragments =>
    if f.maxVersion.changedSince since then
      match editOver since undoHistory f newOffset delta change with
      | none => (change, newOffset, delta, f :: fragments)
      | some (change, grown) => nextEdit change (newOffset + f.chars) (delta + grown) fragments
    else nextEdit change (newOffset + f.chars) delta fragments

/-- The edits up to the first call that gives none; a call that gives one goes past a fragment. -/
def collectEdits : Nat → Nat → Int → List Fragment → List Edit
  | 0, _, _, _ => []
  | calls + 1, newOffset, delta, fragments =>
    let next := nextEdit since undoHistory none newOffset delta fragments
    match next.1 with
    | none => []
    | some edit => edit :: collectEdits calls next.2.1 next.2.2.1 next.2.2.2

end Edits

/-- Read through a cursor that is filtered by the versions of the summaries. -/
def Buffer.editsSince (b : Buffer) (since : Global) : List Edit :=
  collectEdits since b.undoHistory (b.fragments.length + 1) 0 0 b.fragments

end InfiniShell.Editor
