import InfiniShell.Editor.Fragments

namespace InfiniShell.Editor

open Collections Collections.ListCursor

structure OperationEditArgs where
  startId : Option Lamport
  startCharacterOffset : Option Nat
  endId : Option Lamport
  endCharacterOffset : Option Nat
  versionInRange : Global
  newText : List Char
  lamportTimestamp : Lamport

namespace OperationEditArgs

def new (newText : Option (List Char)) (lamportTimestamp : Lamport) (versionInRange : Global) : OperationEditArgs :=
  { startId := none, startCharacterOffset := none, endId := none, endCharacterOffset := none
    versionInRange, newText := newText.getD [], lamportTimestamp }

def updateEnd (args : OperationEditArgs) (endId : Lamport) (endOffset : Nat) : OperationEditArgs :=
  { args with endId := some endId, endCharacterOffset := some endOffset }

def updateStart (args : OperationEditArgs) (startId : Lamport) (startOffset : Nat) : OperationEditArgs :=
  { args with startId := some startId, startCharacterOffset := some startOffset }

def observe (args : OperationEditArgs) (insertionId : Lamport) : OperationEditArgs :=
  { args with versionInRange := args.versionInRange.observe insertionId }

def tryInto (args : OperationEditArgs) : Option EditOperation := do
  let startId ← args.startId
  let endId ← args.endId
  let startCharacterOffset ← args.startCharacterOffset
  let endCharacterOffset ← args.endCharacterOffset
  pure { startId, startCharacterOffset, endId, endCharacterOffset, versions := args.versionInRange,
         newText := args.newText, lamportTimestamp := args.lamportTimestamp }

end OperationEditArgs

/-- Splices `currentFragment` at `charOffset`: the spliced prefix, and what `currentFragment` becomes. -/
def spliceFragmentAtCharOffset (currentFragment lastFragment : Fragment)
    (charsToFragmentStart charOffset : Nat) : Option (Fragment × Fragment) :=
  let spliced := currentFragment.setEndCharacterOffset
    (currentFragment.startCharacterOffset + (charOffset - charsToFragmentStart))
  (FragmentId.between lastFragment.id currentFragment.id).map fun id =>
    ({ spliced with id }, currentFragment.setStartOffset spliced.endCharacterOffset)

def buildFragmentToInsert (prevFragment : Fragment) (nextFragment : Option Fragment) (text : List Char)
    (textStyle : Option TextStyle) (lamportTimestamp : Lamport) (insertionSplits : InsertionSplits) :
    Option (Fragment × InsertionSplits) :=
  (FragmentId.between prevFragment.id ((nextFragment.map Fragment.id).getD FragmentId.maxValue)).map
    fun newFragmentId =>
      (Fragment.new newFragmentId ⟨lamportTimestamp, text, textStyle⟩,
        insertionSplits.insert lamportTimestamp [⟨text.length, newFragmentId⟩])

section Styles

variable (undoHistory : UndoHistory)

/-- Up to the first visible fragment, the first of those that were deleted last. -/
def mostRecentlyDeleted : List Fragment → WithBot Lamport → Option Fragment → Option Fragment
  | [], _, lastDeletedFragment => lastDeletedFragment
  | item :: items, timestamp, lastDeletedFragment =>
    if item.isVisibleIn undoHistory then lastDeletedFragment
    else if item.deletions.max > timestamp then mostRecentlyDeleted items item.deletions.max (some item)
    else mostRecentlyDeleted items timestamp lastDeletedFragment

def lastDeletedFragmentAtBufferEnd (newFragments : List Fragment) : Option Fragment :=
  let items := (slice Fragment.chars .left (total Fragment.chars newFragments) 0 newFragments).2
  mostRecentlyDeleted undoHistory (if items.head?.any (·.isVisibleIn undoHistory) then items.tail else items) ⊥ none

def previousVisibleFragmentStyle (newFragments : List Fragment) : Option TextStyle :=
  let sought := slice Fragment.chars .left (total Fragment.chars newFragments) 0 newFragments
  sought.2.head?.bind fun item =>
    ((item :: sought.1.reverse).find? (·.isVisibleIn undoHistory)).bind fun fragment =>
      fragment.textStyle.map TextStyle.filterInheritableStyles

/-- The result has the fragments, of which the one whose style is inherited after its deletion is noted as such. -/
def styleFromLeftVisibleOrRecentlyDeletedFragment (newFragments : List Fragment) :
    List Fragment × Option TextStyle :=
  match (lastDeletedFragmentAtBufferEnd undoHistory newFragments).filter (!·.textStyleInheritedAfterDeletion) with
  | none => (newFragments, previousVisibleFragmentStyle undoHistory newFragments)
  | some lastDeletedFragment =>
    (newFragments.takeWhile (·.id < lastDeletedFragment.id) ++
        { lastDeletedFragment with textStyleInheritedAfterDeletion := true } ::
          (newFragments.dropWhile (·.id < lastDeletedFragment.id)).tail,
      lastDeletedFragment.textStyle.map TextStyle.filterInheritableStyles)

def fallbackTextStyleWith (textStyle : Option TextStyle) (newFragments : List Fragment)
    (fallback : List Fragment → List Fragment × Option TextStyle) : List Fragment × Option TextStyle :=
  match textStyle with
  | some style => (newFragments, some style)
  | none => fallback newFragments

end Styles

structure Splice where
  newFragments : List Fragment
  currentFragment : Fragment
  newSplitTree : List InsertionSplit
  charsToFragmentStart : Nat

def Splice.pushSpliced (p : Splice) (spliced currentFragment : Fragment) (charOffset : Nat) : Splice :=
  { currentFragment
    charsToFragmentStart := charOffset
    newSplitTree := p.newSplitTree ++ [spliced.split]
    newFragments := p.newFragments ++ [spliced] }

def maybeSpliceFragment (range : Range) (p : Splice) : Option Splice :=
  if range.start > p.charsToFragmentStart then
    p.newFragments.getLast?.bind fun lastFragment =>
      (spliceFragmentAtCharOffset p.currentFragment lastFragment p.charsToFragmentStart range.start).map fun spliced =>
        p.pushSpliced spliced.1 spliced.2 range.start
  else some p

/-- The variables of `update_fragments_for_edit` that outlive a fragment, and the fields of the buffer that
it writes. -/
structure EditScan where
  newFragments : List Fragment
  insertionSplits : InsertionSplits
  lamportClock : Lamport
  versions : Global
  version : Global
  operationEditArgs : OperationEditArgs
  ops : List EditOperation

structure FragmentScan extends EditScan where
  currentFragment : Fragment
  newSplitTree : List InsertionSplit
  charsToFragmentStart : Nat

def FragmentScan.splice (f : FragmentScan) : Splice :=
  ⟨f.newFragments, f.currentFragment, f.newSplitTree, f.charsToFragmentStart⟩

def FragmentScan.withSplice (f : FragmentScan) (p : Splice) : FragmentScan :=
  { f with
    newFragments := p.newFragments
    currentFragment := p.currentFragment
    newSplitTree := p.newSplitTree
    charsToFragmentStart := p.charsToFragmentStart }

section Ranges

variable (newText : Option (List Char)) (textStyle : Option TextStyle) (undoHistory : UndoHistory)

def EditScan.tick (s : EditScan) : EditScan :=
  { s with
    version := s.versions
    lamportClock := s.lamportClock.tick
    versions := s.versions.observe s.lamportClock.tick }

def EditScan.newArgs (s : EditScan) : EditScan :=
  { s with operationEditArgs := OperationEditArgs.new newText s.lamportClock s.version }

def EditScan.pushOp (s : EditScan) : Option EditScan :=
  s.operationEditArgs.tryInto.map fun op => { s with ops := s.ops ++ [op] }

/-- Onto the next range, `ranges` being what `old_ranges` still has to give. -/
def EditScan.nextRange (ranges : List Range) (s : EditScan) : EditScan :=
  (if ranges = [] then s else s.tick).newArgs newText

def FragmentScan.withScan (f : FragmentScan) (s : EditScan) : FragmentScan := { f with toEditScan := s }

def FragmentScan.updateArgs (f : FragmentScan) (update : OperationEditArgs → OperationEditArgs) : FragmentScan :=
  { f with operationEditArgs := update f.operationEditArgs }

def updateEndAtBoundary (range : Range) (charsToFragmentEnd : Nat) (f : FragmentScan) : Option FragmentScan :=
  if range.stop = f.charsToFragmentStart then
    f.newFragments.getLast?.map fun lastFragment =>
      f.updateArgs (·.updateEnd lastFragment.insertion.id lastFragment.endCharacterOffset)
  else if range.stop = charsToFragmentEnd then
    some (f.updateArgs (·.updateEnd f.currentFragment.insertion.id f.currentFragment.endCharacterOffset))
  else some f

def FragmentScan.insertText (range : Range) (f : FragmentScan) : Option FragmentScan :=
  match newText with
  | none => some f
  | some text =>
    let styled := fallbackTextStyleWith textStyle f.newFragments fun newFragments =>
      if f.charsToFragmentStart = range.stop then
        styleFromLeftVisibleOrRecentlyDeletedFragment undoHistory newFragments
      else (newFragments, f.currentFragment.textStyle.map TextStyle.filterInheritableStyles)
    styled.1.getLast?.bind fun lastFragment =>
      (buildFragmentToInsert lastFragment (some f.currentFragment) text styled.2 f.lamportClock f.insertionSplits).map
        fun inserted => { f with newFragments := styled.1 ++ [inserted.1], insertionSplits := inserted.2 }

def insertAtBoundary (range : Range) (f : FragmentScan) : Option FragmentScan :=
  if range.start = f.charsToFragmentStart then
    f.newFragments.getLast?.bind fun lastFragment =>
      (f.updateArgs (·.updateStart lastFragment.insertion.id lastFragment.endCharacterOffset)).insertText newText
        textStyle undoHistory range
  else some f

def maybeMarkFragmentAsDeleted (range : Range) (charsToFragmentEnd : Nat) (lastFragment : Fragment)
    (f : FragmentScan) : Option FragmentScan :=
  if range.stop < charsToFragmentEnd then
    if range.stop > f.charsToFragmentStart then
      (spliceFragmentAtCharOffset f.currentFragment lastFragment f.charsToFragmentStart range.stop).map fun spliced =>
        let spliced' := spliced.1.markDeletion f.lamportClock undoHistory
        (f.withSplice (f.splice.pushSpliced spliced' spliced.2 range.stop)).updateArgs fun args =>
          (args.updateEnd spliced.2.insertion.id spliced.2.startCharacterOffset).observe spliced.2.insertion.id
    else some f
  else
    some { f with
      operationEditArgs := f.operationEditArgs.observe f.currentFragment.insertion.id
      currentFragment := f.currentFragment.markDeletion f.lamportClock undoHistory }

/-- The body of the inner loop, up to the step to the next range. -/
def scanRange (range : Range) (charsToFragmentEnd : Nat) (f : FragmentScan) : Option FragmentScan :=
  ((maybeSpliceFragment range f.splice).map f.withSplice).bind fun f =>
    (updateEndAtBoundary range charsToFragmentEnd f).bind fun f =>
      (insertAtBoundary newText textStyle undoHistory range f).bind fun f =>
        f.newFragments.getLast?.bind fun lastFragment =>
          maybeMarkFragmentAsDeleted undoHistory range charsToFragmentEnd lastFragment f

/-- The inner loop over the ranges that start before the end of the fragment; the result has those left. -/
def scanRanges (charsToFragmentEnd : Nat) : List Range → FragmentScan → Option (FragmentScan × List Range)
  | [], f => some (f, [])
  | range :: ranges, f =>
    if range.start < charsToFragmentEnd then
      (scanRange newText textStyle undoHistory range charsToFragmentEnd f).bind fun f =>
        if range.stop ≤ charsToFragmentEnd then
          f.toEditScan.pushOp.bind fun s =>
            scanRanges charsToFragmentEnd ranges (f.withScan (s.nextRange newText ranges))
        else some (f, range :: ranges)
    else some (f, range :: ranges)

/-- The cursor of `mark_fragments_as_deleted` and the bounds of the fragment it looked at last. -/
structure DeletionScan extends EditScan where
  rest : List Fragment
  cursorStart : Nat
  fragmentEnd : Nat

def markFragmentsAsDeleted (range : Range) (s : EditScan) (cursorStart fragmentEnd : Nat) :
    List Fragment → Bool × DeletionScan
  | [] => (false, { s with rest := [], cursorStart, fragmentEnd })
  | fragment :: rest =>
    let fragmentEnd := cursorStart + fragment.visibleLen undoHistory
    if range.start < cursorStart ∧ range.stop ≥ fragmentEnd then
      let s := { s with
        newFragments := s.newFragments ++ [fragment.markDeletion s.operationEditArgs.lamportTimestamp undoHistory]
        operationEditArgs := s.operationEditArgs.observe fragment.insertion.id }
      if range.stop = fragmentEnd then
        let args := s.operationEditArgs.updateEnd fragment.insertion.id fragment.endCharacterOffset
        (true, { s with operationEditArgs := args, rest, cursorStart := cursorStart + fragment.chars, fragmentEnd })
      else markFragmentsAsDeleted range s (cursorStart + fragment.chars) fragmentEnd rest
    else (false, { s with rest := fragment :: rest, cursorStart, fragmentEnd })

def splitsAround (fragment : Fragment) (oldSplitTree : List InsertionSplit) :
    List InsertionSplit × List InsertionSplit :=
  let before := slice InsertionSplit.extent .right fragment.startCharacterOffset 0 oldSplitTree
  let passed := total InsertionSplit.extent (before.1 ++ before.2.take 1)
  (before.1, (slice InsertionSplit.extent .right (total InsertionSplit.extent oldSplitTree) passed
    (before.2.drop 1)).1)

/-- The cursor's slice up to the start of `range`, pushed to the new fragments. -/
def EditScan.pushSlice (s : EditScan) (range : Range) (cursorStart : Nat) (rest : List Fragment) :
    EditScan × Nat × List Fragment :=
  let sliced := slice Fragment.chars .right range.start cursorStart rest
  ({ s with newFragments := s.newFragments ++ sliced.1 }, cursorStart + total Fragment.chars sliced.1, sliced.2)

/-- After a fragment: the fragments that the range contains, and on to the next range if it ends there. -/
def scanCovered (s : EditScan) (cursorStart fragmentEnd : Nat) (rest : List Fragment) :
    List Range → Option (EditScan × Nat × List Fragment × List Range)
  | [] => some (s, cursorStart, rest, [])
  | range :: ranges =>
    let marked := markFragmentsAsDeleted undoHistory range s cursorStart fragmentEnd rest
    let d := marked.2
    (if marked.1 then d.pushOp.map fun s => (s.nextRange newText ranges, ranges)
      else some (d.toEditScan, range :: ranges)).map fun next =>
        match next.2 with
        | [] => (next.1, d.cursorStart, d.rest, [])
        | range :: ranges =>
          if range.start > d.fragmentEnd then
            let sliced := next.1.pushSlice range d.cursorStart d.rest
            (sliced.1, sliced.2.1, sliced.2.2, range :: ranges)
          else (next.1, d.cursorStart, d.rest, range :: ranges)

def scanFragment (fragment : Fragment) (s : EditScan) (cursorStart : Nat) (rest : List Fragment)
    (ranges : List Range) : Option (EditScan × Nat × List Fragment × List Range) :=
  (s.insertionSplits.get fragment.insertion.id).bind fun oldSplitTree =>
    let charsToFragmentEnd := cursorStart + fragment.visibleLen undoHistory
    let around := splitsAround fragment oldSplitTree
    (scanRanges newText textStyle undoHistory charsToFragmentEnd ranges
      { s with currentFragment := fragment, newSplitTree := around.1, charsToFragmentStart := cursorStart }).bind
      fun scanned =>
        let f := scanned.1
        scanCovered newText undoHistory
          { f.toEditScan with
            insertionSplits := f.insertionSplits.insert f.currentFragment.insertion.id
              (f.newSplitTree ++ [f.currentFragment.split] ++ around.2)
            newFragments := f.newFragments ++ [f.currentFragment] }
          (cursorStart + fragment.chars) charsToFragmentEnd rest scanned.2

def scanFragments : Nat → EditScan → Nat → List Fragment → List Range →
    Option (EditScan × Nat × List Fragment × List Range)
  | 0, s, cursorStart, rest, ranges => some (s, cursorStart, rest, ranges)
  | fuel + 1, s, cursorStart, rest, ranges =>
    match ranges, rest with
    | [], _ => some (s, cursorStart, rest, ranges)
    | _, [] => some (s, cursorStart, rest, ranges)
    | range :: ranges, fragment :: rest =>
      (scanFragment newText textStyle undoHistory fragment s cursorStart rest (range :: ranges)).bind fun next =>
        scanFragments fuel next.1 next.2.1 next.2.2.1 next.2.2.2

def finishScan (s : EditScan) (cursorStart : Nat) (rest : List Fragment) (extent : Nat) :
    List Range → Option EditScan
  | [] => some { s with newFragments := s.newFragments ++ (slice Fragment.chars .right extent cursorStart rest).1 }
  | _ :: _ =>
    s.newFragments.getLast?.bind fun lastFragment =>
      let s := s.newArgs newText
      let s := { s with
        operationEditArgs :=
          (s.operationEditArgs.updateStart lastFragment.insertion.id lastFragment.endCharacterOffset).updateEnd
            lastFragment.insertion.id lastFragment.endCharacterOffset }
      s.pushOp.bind fun s =>
        match newText with
        | none => some s
        | some text =>
          let styled := fallbackTextStyleWith textStyle s.newFragments
            (styleFromLeftVisibleOrRecentlyDeletedFragment undoHistory)
          styled.1.getLast?.bind fun lastFragment =>
            (buildFragmentToInsert lastFragment none text styled.2 s.lamportClock s.insertionSplits).map fun inserted =>
              { s with newFragments := styled.1 ++ [inserted.1], insertionSplits := inserted.2 }

end Ranges

def validRanges (ranges : List Range) : Bool :=
  ranges.all (fun r => decide (r.start ≤ r.stop)) &&
    (ranges.zip ranges.tail).all fun w => decide (w.1.start < w.2.start ∧ w.1.stop < w.2.start)

def keepRange (newText : Option (List Char)) (range : Range) : Bool :=
  if newText.isSome then decide (range.start ≤ range.stop) else decide (range.start < range.stop)

namespace Buffer

def updateFragmentsForEdit (b : Buffer) (oldRanges : List Range) (newText : Option (List Char))
    (textStyle : Option TextStyle) : Option (Buffer × List EditOperation) :=
  match oldRanges.filter (keepRange newText) with
  | [] => some (b, [])
  | range :: ranges =>
    let sliced := slice Fragment.chars .right range.start 0 b.fragments
    let s : EditScan :=
      { newFragments := sliced.1, insertionSplits := b.insertionSplits, lamportClock := b.lamportClock
        versions := b.versions, version := b.versions
        operationEditArgs := OperationEditArgs.new newText b.lamportClock b.versions, ops := [] }
    (scanFragments newText textStyle b.undoHistory sliced.2.length (s.tick.newArgs newText) (total Fragment.chars sliced.1)
      sliced.2 (range :: ranges)).bind fun scanned =>
      (finishScan newText textStyle b.undoHistory scanned.1 scanned.2.1 scanned.2.2.1 b.len scanned.2.2.2).map fun s =>
        ({ b with
          fragments := s.newFragments
          insertionSplits := s.insertionSplits
          lamportClock := s.lamportClock
          versions := s.versions }, s.ops)

/-- `None` outside a batch of edits and when the assertion about the ranges fails. The result has the operations
that were made. -/
def edit (b : Buffer) (oldRanges : List Range) (newText : List Char) (textStyle : Option TextStyle) :
    Option (Buffer × List EditOperation) :=
  match b.batchState with
  | .inactive => none
  | .edits action edits numEditsAlreadyRecorded skipUndo =>
    if validRanges oldRanges then
      (b.updateFragmentsForEdit oldRanges (if newText = [] then none else some newText) textStyle).map fun result =>
        let versions := match result.2.getLast? with
          | none => result.1.versions
          | some op => result.1.versions.observe op.lamportTimestamp
        ({ result.1 with
          versions
          batchState := .edits action (edits ++ result.2) numEditsAlreadyRecorded skipUndo }, result.2)
    else none

end Buffer

end InfiniShell.Editor
