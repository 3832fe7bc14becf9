import InfiniShell.Editor.LocalEdit

namespace InfiniShell.Editor

open Collections Collections.ListCursor

/-- A fragment cut by a range: before it, within it and after it. -/
structure SplitParts where
  beforeRange : Option Fragment
  withinRange : Option Fragment
  afterRange : Option Fragment

/-- The suffix from `offset` on keeps the fragment's id, the prefix gets one between `prevFragment` and it. -/
def cutFragment (prevFragment fragment : Fragment) (offset : Nat) : Option (Fragment × Fragment) :=
  let suffix := fragment.setStartOffset offset
  (FragmentId.between prevFragment.id suffix.id).map fun id =>
    ({ fragment.setEndCharacterOffset offset with id }, suffix)

def cutFragmentIf (cut : Bool) (prevFragment fragment : Fragment) (offset : Nat) :
    Option (Fragment × Option Fragment) :=
  if cut then (cutFragment prevFragment fragment offset).map fun cut => (cut.1, some cut.2) else some (fragment, none)

def splitParts (prevFragment fragment : Fragment) (range : Range) : Option SplitParts :=
  (cutFragmentIf (range.stop < fragment.endCharacterOffset) prevFragment fragment range.stop).bind fun cutAfter =>
    (cutFragmentIf (range.start ≠ range.stop) prevFragment cutAfter.1 range.start).map fun cutWithin =>
      { afterRange := cutAfter.2
        withinRange := cutWithin.2
        beforeRange := if range.start > fragment.startCharacterOffset then some cutWithin.1 else none }

def SplitParts.splits (parts : SplitParts) (range : Range) : List InsertionSplit :=
  (parts.beforeRange.map fun f => ⟨range.start - f.startCharacterOffset, f.id⟩).toList ++
    (parts.withinRange.map fun f => ⟨range.stop - range.start, f.id⟩).toList ++
    (parts.afterRange.map fun f => ⟨f.endCharacterOffset - range.stop, f.id⟩).toList

/-- `None` when the insertion has no split tree. -/
def splitFragment (prevFragment fragment : Fragment) (range : Range) (insertionSplits : InsertionSplits) :
    Option (SplitParts × InsertionSplits) :=
  if range.stop = fragment.startCharacterOffset then some (⟨none, none, some fragment⟩, insertionSplits)
  else if range.start = fragment.endCharacterOffset then some (⟨some fragment, none, none⟩, insertionSplits)
  else if range.start = fragment.startCharacterOffset ∧ range.stop = fragment.endCharacterOffset then
    some (⟨none, some fragment, none⟩, insertionSplits)
  else
    (splitParts prevFragment fragment range).bind fun parts =>
      (insertionSplits.get fragment.insertion.id).map fun oldSplitTree =>
        let around := splitsAround fragment oldSplitTree
        (parts, insertionSplits.insert fragment.insertion.id (around.1 ++ parts.splits range ++ around.2))

structure ApplyScan where
  newFragments : List Fragment
  insertionSplits : InsertionSplits
  newText : Option (List Char)

section Loop

variable (op : EditOperation) (undoHistory : UndoHistory) (startFragmentId endFragmentId : FragmentId)

def ApplyScan.insertText (s : ApplyScan) (prevFragment : Fragment) (nextFragment : Option Fragment) :
    Option ApplyScan :=
  match s.newText with
  | none => some s
  | some text =>
    (buildFragmentToInsert prevFragment nextFragment text none op.lamportTimestamp s.insertionSplits).map
      fun inserted =>
        { newFragments := s.newFragments ++ [inserted.1], insertionSplits := inserted.2, newText := none }

def ApplyScan.push (s : ApplyScan) (fragments : List Fragment) : ApplyScan :=
  { s with newFragments := s.newFragments ++ fragments }

def markObserved (fragment : Fragment) : Fragment :=
  if op.versions.observed fragment.insertion.id then fragment.markDeletion op.lamportTimestamp undoHistory
  else fragment

def splitRange (fragment : Fragment) : Range :=
  { start := if startFragmentId = fragment.id then op.startCharacterOffset else fragment.startCharacterOffset
    stop := if endFragmentId = fragment.id then op.endCharacterOffset else fragment.endCharacterOffset }

def applyToFragment (prevFragment : Option Fragment) (fragment : Fragment) (s : ApplyScan) : Option ApplyScan :=
  if fragment.id = startFragmentId ∨ fragment.id = endFragmentId then
    prevFragment.bind fun prevFragment =>
      (splitFragment prevFragment fragment (splitRange op startFragmentId endFragmentId fragment)
        s.insertionSplits).bind fun result =>
          let parts := result.1
          let s := { s with insertionSplits := result.2 }.push parts.beforeRange.toList
          (s.insertText op (parts.beforeRange.getD prevFragment) (parts.withinRange.or parts.afterRange)).map fun s =>
            (s.push (parts.withinRange.map (markObserved op undoHistory)).toList).push parts.afterRange.toList
  else
    (if s.newText.isSome ∧ op.lamportTimestamp > fragment.insertion.id then
      prevFragment.bind fun prevFragment => s.insertText op prevFragment (some fragment)
    else some s).map fun s =>
      s.push [if fragment.id < endFragmentId then markObserved op undoHistory fragment else fragment]

/-- The result has the last fragment the cursor went past and those ahead of it. -/
def applyToFragments : Option Fragment → List Fragment → ApplyScan →
    Option (Option Fragment × List Fragment × ApplyScan)
  | prevFragment, [], s => some (prevFragment, [], s)
  | prevFragment, fragment :: rest, s =>
    if s.newText = none ∧ fragment.id > endFragmentId then some (prevFragment, fragment :: rest, s)
    else
      (applyToFragment op undoHistory startFragmentId endFragmentId prevFragment fragment s).bind fun s =>
        applyToFragments (some fragment) rest s

/-- Text that found no place before goes to the end. -/
def insertRemaining (prevFragment : Option Fragment) (s : ApplyScan) : Option ApplyScan :=
  if s.newText.isSome then prevFragment.bind fun prevFragment => s.insertText op prevFragment none else some s

end Loop

namespace Buffer

def resolveFragmentId (b : Buffer) (editId : Lamport) (characterOffset : Nat) : Option FragmentId :=
  (b.insertionSplits.get editId).bind fun splitTree =>
    (slice InsertionSplit.extent .left characterOffset 0 splitTree).2.head?.map InsertionSplit.fragmentId

def skipStart (op : EditOperation) (before : List Fragment) :
    List Fragment → Option (List Fragment × List Fragment)
  | [] => none
  | fragment :: rest =>
    if op.startCharacterOffset = fragment.endCharacterOffset then some (before ++ [fragment], rest)
    else some (before, fragment :: rest)

def applyEdit (b : Buffer) (op : EditOperation) : Option Buffer := do
  let startFragmentId ← b.resolveFragmentId op.startId op.startCharacterOffset
  let endFragmentId ← b.resolveFragmentId op.endId op.endCharacterOffset
  let last ← b.fragments.getLast?
  let cursor ← skipStart op (b.fragments.takeWhile (·.id < startFragmentId))
    (b.fragments.dropWhile (·.id < startFragmentId))
  let newText := if op.newText = [] then none else some op.newText
  let applied ← applyToFragments op b.undoHistory startFragmentId endFragmentId cursor.1.getLast? cursor.2
    ⟨cursor.1, b.insertionSplits, newText⟩
  let s ← insertRemaining op applied.1 applied.2.2
  pure { b with
    fragments := s.newFragments ++ applied.2.1.takeWhile (·.id ≤ last.id)
    insertionSplits := s.insertionSplits }

end Buffer

/-- The step of `undo_or_redo` on one fragment. -/
def Fragment.undoOrRedo (f : Fragment) (undoTs : Lamport) (undoneEdits : List Lamport) (undoHistory : UndoHistory) :
    Fragment :=
  if f.insertion.id ∈ undoneEdits ∨ ∃ deletion ∈ f.deletions, deletion ∈ undoneEdits then
    { f.recomputeVisibility undoHistory with maxUndoTs := f.maxUndoTs.observe undoTs }
  else f

namespace Buffer

def undoOrRedo (b : Buffer) (undoTs : Lamport) (edits : List LamportValue) : Buffer :=
  let undoneEdits := edits.map fun edit => (⟨undoTs.replicaId, edit⟩ : Lamport)
  let undoHistory := b.undoHistory.undoAll undoTs edits
  { b with
    undoHistory
    fragments := (b.fragments.dropWhile (·.id < FragmentId.minValue)).map
      fun f => f.undoOrRedo undoTs undoneEdits undoHistory }

def acknowledge (b : Buffer) (timestamp : Lamport) : Buffer :=
  { b with lamportClock := b.lamportClock.observe timestamp, versions := b.versions.observe timestamp }

def applyOp (b : Buffer) (op : Operation) : Option Buffer :=
  if b.versions.observed op.lamportTimestamp then some b
  else
    match op with
    | .edit op => (b.applyEdit op).map fun b => b.acknowledge op.lamportTimestamp
    | .undo op => some ((b.undoOrRedo op.lamportTimestamp op.operations).acknowledge op.lamportTimestamp)

def canApplyOp (b : Buffer) (op : Operation) : Bool :=
  if b.deferredOps.replicaDeferred op.replicaId then false
  else
    match op with
    | .edit op => b.versions.observed op.startId && b.versions.observed op.endId && op.versions.le b.versions
    | .undo op => op.versions.le b.versions

def applyOrDefer : List Operation → Buffer → List Operation → Option (Buffer × List Operation)
  | [], b, deferred => some (b, deferred)
  | op :: ops, b, deferred =>
    if b.canApplyOp op then (b.applyOp op).bind fun b => applyOrDefer ops b deferred
    else applyOrDefer ops b (deferred ++ [op])

def defer (b : Buffer) (ops : List Operation) : Buffer := { b with deferredOps := b.deferredOps.extend ops }

def flushDeferredOps (b : Buffer) : Option Buffer :=
  let drained := b.deferredOps.drain
  (applyOrDefer drained.1 { b with deferredOps := drained.2 } []).map fun result => result.1.defer result.2

def applyOps (b : Buffer) (ops : List Operation) : Option Buffer :=
  (applyOrDefer ops b []).bind fun result => (result.1.defer result.2).flushDeferredOps

def localUndoOrRedo (b : Buffer) (edits : List LamportValue) : Buffer × UndoOperation :=
  let ticked := b.tick
  let timestamp := ticked.2.lamportClock
  (ticked.2.undoOrRedo timestamp edits, ⟨timestamp, ticked.1, edits⟩)

/-- In a batch of its own; `None` while another one is active. -/
def undo (b : Buffer) : Option (Buffer × Option UndoOperation) :=
  match b.batchState with
  | .edits .. => none
  | .inactive =>
    match b.localUndoStack.undo with
    | none => some (b, none)
    | some (edits, stack) =>
      let result := { b with localUndoStack := stack }.localUndoOrRedo edits
      some (result.1, some result.2)

def redo (b : Buffer) : Option (Buffer × Option UndoOperation) :=
  match b.batchState with
  | .edits .. => none
  | .inactive =>
    match b.localUndoStack.redo with
    | none => some (b, none)
    | some (edits, stack) =>
      let result := { b with localUndoStack := stack }.localUndoOrRedo edits
      some (result.1, some result.2)

def startEditsAndSelectionChangesBatch (b : Buffer) (action : PlainTextEditorViewAction) (skipUndo : Bool) :
    Option Buffer :=
  match b.batchState with
  | .inactive => some { b with batchState := .edits action [] 0 skipUndo }
  | .edits .. => none

def recordEdits (b : Buffer) (action : PlainTextEditorViewAction) (now : Nat) : Option Buffer :=
  match b.batchState with
  | .inactive => none
  | .edits batchAction edits numEditsAlreadyRecorded skipUndo =>
    let lamportValues := (edits.drop numEditsAlreadyRecorded).map fun op => op.lamportTimestamp.value
    some { b with
      localUndoStack := b.localUndoStack.recordEdit action lamportValues now
      batchState := .edits batchAction edits edits.length skipUndo }

def endBatch (b : Buffer) (now : Nat) : Option (Buffer × List Operation) :=
  match b.batchState with
  | .inactive => none
  | .edits action edits numEditsAlreadyRecorded skipUndo =>
    let lamportValues := (edits.drop numEditsAlreadyRecorded).map fun op => op.lamportTimestamp.value
    let stack :=
      if edits ≠ [] ∧ skipUndo = false then b.localUndoStack.recordEdit action lamportValues now
      else b.localUndoStack
    some ({ b with batchState := .inactive, localUndoStack := stack }, edits.map .edit)

/-- A batch of selection changes, for what it does to the undo stack. -/
def changeSelections (b : Buffer) : Option Buffer :=
  match b.batchState with
  | .inactive => some { b with localUndoStack := b.localUndoStack.recordSelectionChange }
  | .edits .. => none

end Buffer

end InfiniShell.Editor
