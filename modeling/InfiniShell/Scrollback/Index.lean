import InfiniShell.Scrollback.Content

namespace InfiniShell.Scrollback

open Collections Terminal

structure Point where
  row : Nat
  col : Nat
deriving DecidableEq

structure GraphemeRun where
  count : Nat
  info : GraphemeInfo
deriving DecidableEq

namespace GraphemeRun

def cols (run : GraphemeRun) : Nat := run.count * run.info.cellWidth

/-- The callers have checked what is asserted here, that the offset is one of the run's. -/
def cellTypeAtOffset (run : GraphemeRun) (offset : Nat) : CellType :=
  if run.info.cellWidth = 1 then .regularChar
  else if offset % 2 = 0 then .wideChar
  else .wideCharSpacer

end GraphemeRun

inductive GraphemeSizing where
  | uniform (run : GraphemeRun)
  | nonUniform
  | emptyRow
deriving DecidableEq

structure Entry where
  contentOffset : Nat
  graphemeSizing : GraphemeSizing
  hasTrailingNewline : Bool
  endsWithLeadingWideCharSpacer : Bool

/-- Non-uniform rows have their runs under their offset. -/
structure Index where
  rows : List Entry
  columns : Nat
  contentLen : Nat
  graphemeSizing : BTreeMap Nat (List GraphemeRun)

structure EntryBuilder where
  numCells : Nat := 0
  incrContentOffset : Nat := 0
  hasTrailingNewline : Bool := false
  endsWithLeadingWideCharSpacer : Bool := false
  graphemeRuns : List GraphemeRun := []

inductive ContentOffsetToPointError where
  | rowOutOfBounds (row maxRow : Nat)
  | missingGraphemeSizing (contentOffset : Nat)
  | nonZeroColumnInEmptyRow (row col : Nat)
  | columnExceedsContent (row col : Nat)

inductive PointFromContentOffsetError where
  | offsetBeforeFirstRow (offset firstRowOffset : Nat)
  | rowOutOfBounds (row : Nat)
  | missingGraphemeSizing (contentOffset : Nat)
  | offsetDoesNotMapToCellInRow (row offset : Nat)

/-- Counts the grapheme in the last run, or in a new one; `none` where the run's `u16` overflows. -/
def pushRun (runs : List GraphemeRun) (info : GraphemeInfo) : Option (List GraphemeRun) :=
  match runs.getLast? with
  | some last =>
    if last.info = info then
      if last.count + 1 < 65536 then some (runs.dropLast ++ [{ last with count := last.count + 1 }]) else none
    else some (runs ++ [⟨1, info⟩])
  | none => some [⟨1, info⟩]

namespace EntryBuilder

def processGraphemeInfoUnchecked (b : EntryBuilder) (info : GraphemeInfo) : Option EntryBuilder := do
  let graphemeRuns ← pushRun b.graphemeRuns info
  some { b with incrContentOffset := b.incrContentOffset + info.utf8Bytes, graphemeRuns }

def addTrailingNewline (b : EntryBuilder) : EntryBuilder :=
  { b with incrContentOffset := b.incrContentOffset + '\n'.utf8Size, hasTrailingNewline := true }

def addLeadingWideCharSpacer (b : EntryBuilder) : EntryBuilder := { b with endsWithLeadingWideCharSpacer := true }

def appendToIndex (b : EntryBuilder) (index : Index) : Index :=
  let contentOffset := index.contentLen
  let (graphemeSizing, sizings) := match b.graphemeRuns with
    | [run] => (GraphemeSizing.uniform run, index.graphemeSizing)
    | [] => (GraphemeSizing.emptyRow, index.graphemeSizing)
    | runs => (GraphemeSizing.nonUniform, index.graphemeSizing.insert contentOffset runs)
  let entry : Entry :=
    { contentOffset, graphemeSizing, hasTrailingNewline := b.hasTrailingNewline
      endsWithLeadingWideCharSpacer := b.endsWithLeadingWideCharSpacer }
  { index with
    rows := index.rows ++ [entry]
    contentLen := contentOffset + b.incrContentOffset
    graphemeSizing := sizings }

def isEmpty (b : EntryBuilder) : Bool :=
  b.incrContentOffset = 0 && !b.hasTrailingNewline && !b.endsWithLeadingWideCharSpacer && b.graphemeRuns.isEmpty

def appendToIndexIfNonempty (b : EntryBuilder) (index : Index) : Index :=
  if b.isEmpty then index else b.appendToIndex index

def processGraphemeInfo (b : EntryBuilder) (info : GraphemeInfo) (index : Index) : Option (EntryBuilder × Index) := do
  if info.cellWidth = 0 then
    some (b, index)
  else
    let (b, index) :=
      if index.columns < b.numCells + info.cellWidth then
        let b := if 1 < info.cellWidth ∧ b.numCells ≠ index.columns then b.addLeadingWideCharSpacer else b
        ({}, b.appendToIndex index)
      else (b, index)
    let b ← processGraphemeInfoUnchecked { b with numCells := b.numCells + info.cellWidth } info
    some (b, index)

def processNewline (b : EntryBuilder) (index : Index) : EntryBuilder × Index :=
  ({}, b.addTrailingNewline.appendToIndex index)

end EntryBuilder

namespace Index

def new (columns : Nat) : Index := ⟨[], columns, 0, .empty⟩

def len (index : Index) : Nat := index.rows.length

def getEntry (index : Index) (row : Nat) : Option Entry := index.rows[row]?

def contentOffsetForRow (index : Index) (row : Nat) : Option Nat := index.rows[row]?.map Entry.contentOffset

def contentRangeForRow (index : Index) (row : Nat) : Option (Nat × Nat) := do
  let start ← index.contentOffsetForRow row
  some (start, (index.contentOffsetForRow (row + 1)).getD index.contentLen)

def runsOfEntry (index : Index) (entry : Entry) : Option (List GraphemeRun) :=
  match entry.graphemeSizing with
  | .uniform run => some [run]
  | .nonUniform => index.graphemeSizing.get entry.contentOffset
  | .emptyRow => some []

def graphemeRunsForRow (index : Index) (row : Nat) : Option (List GraphemeRun) :=
  index.getEntry row >>= index.runsOfEntry

def expand (runs : List GraphemeRun) : List GraphemeInfo := runs.flatMap fun run => List.replicate run.count run.info

def graphemeInfosForRow (index : Index) (row : Nat) : Option (List GraphemeInfo) :=
  (index.graphemeRunsForRow row).map expand

def rebuildRow (old : Index) (row : Nat) (entry : Entry) (s : EntryBuilder × Index) :
    Option (EntryBuilder × Index) := do
  let s ← ((old.graphemeInfosForRow row).getD []).foldlM (fun s info => s.1.processGraphemeInfo info s.2) s
  some (if entry.hasTrailingNewline then s.1.processNewline s.2 else s)

def rebuild (old : Index) (columns : Nat) : Option Index := do
  let index := { new columns with contentLen := (old.rows.head?.map Entry.contentOffset).getD old.contentLen }
  let s ← old.rows.zipIdx.foldlM (fun s e => old.rebuildRow e.2 e.1 s) ({}, index)
  some (s.1.appendToIndexIfNonempty s.2)

def truncate (index : Index) (newLen : Nat) : Index × Nat :=
  match index.contentOffsetForRow newLen with
  | none => (index, index.contentLen)
  | some newContentLen =>
    ({ index with
        rows := index.rows.take newLen
        graphemeSizing := index.graphemeSizing.below newContentLen
        contentLen := newContentLen }, newContentLen)

def truncateFront (index : Index) (count : Nat) : Index × Nat :=
  let newStartOffset := (index.contentOffsetForRow count).getD index.contentLen
  ({ index with
      rows := index.rows.drop count
      graphemeSizing := index.graphemeSizing.atLeast newStartOffset }, newStartOffset)

def walkColumns : List GraphemeRun → Nat → Nat → Nat × Nat
  | [], offset, colsRemaining => (offset, colsRemaining)
  | run :: runs, offset, colsRemaining =>
    if colsRemaining = 0 then (offset, colsRemaining)
    else
      let colsFromRun := min run.cols colsRemaining
      let graphemesFromRun := colsFromRun / run.info.cellWidth
      walkColumns runs (offset + graphemesFromRun * run.info.utf8Bytes) (colsRemaining - colsFromRun)

def contentOffsetAtPoint (index : Index) (point : Point) : Except ContentOffsetToPointError Nat :=
  match index.rows[point.row]? with
  | none => .error (.rowOutOfBounds point.row (index.rows.length - 1))
  | some entry =>
    if entry.graphemeSizing = .emptyRow then
      if point.col = 0 then .ok entry.contentOffset else .error (.nonZeroColumnInEmptyRow point.row point.col)
    else
      match index.runsOfEntry entry with
      | none => .error (.missingGraphemeSizing entry.contentOffset)
      | some runs =>
        let (offset, colsRemaining) := walkColumns runs entry.contentOffset point.col
        if colsRemaining = 0 then .ok offset else .error (.columnExceedsContent point.row point.col)

/-- The column at which the offset is used up, after at least one run. -/
def walkBytes : List GraphemeRun → Nat → Nat → Option Nat
  | [], _, _ => none
  | run :: runs, column, remainingOffset =>
    let graphemesInRun := run.cols / run.info.cellWidth
    let contentInRun := graphemesInRun * run.info.utf8Bytes
    let remainingOffsetInRun := min remainingOffset contentInRun
    let remainingGraphemesInRun := remainingOffsetInRun / run.info.utf8Bytes
    let column := column + remainingGraphemesInRun * run.info.cellWidth
    let remainingOffset := remainingOffset - remainingOffsetInRun
    if remainingOffset = 0 then some column else walkBytes runs column remainingOffset

/-- The number of rows that start at or before the offset: what `partition_point` finds in ordered rows. -/
def partitionPoint (index : Index) (offset : Nat) : Nat :=
  (index.rows.takeWhile fun entry => entry.contentOffset ≤ offset).length

/-- `none` is a panic. -/
def contentOffsetToPoint (index : Index) (offset : Nat) : Option (Except PointFromContentOffsetError Point) :=
  match index.partitionPoint offset with
  | 0 => some (.error (.offsetBeforeFirstRow offset ((index.rows.head?.map Entry.contentOffset).getD 0)))
  | row + 1 =>
    match index.getEntry row with
    | none => some (.error (.rowOutOfBounds row))
    | some entry =>
      if entry.graphemeSizing = .emptyRow then
        if offset = entry.contentOffset then some (.ok ⟨row, 0⟩) else none
      else
        match index.runsOfEntry entry with
        | none => some (.error (.missingGraphemeSizing entry.contentOffset))
        | some runs =>
          match walkBytes runs 0 (offset - entry.contentOffset) with
          | some column => some (.ok ⟨row, column⟩)
          | none => some (.error (.offsetDoesNotMapToCellInRow row offset))

def cellTypeInRuns : List GraphemeRun → Nat → Nat → CellType
  | [], _, _ => .regularChar
  | run :: runs, startCol, col =>
    let runEndCol := startCol + run.cols
    if col < runEndCol then run.cellTypeAtOffset (col - startCol) else cellTypeInRuns runs runEndCol col

def cellType (index : Index) (row col : Nat) : Option CellType := do
  let entry ← index.getEntry row
  if entry.endsWithLeadingWideCharSpacer ∧ col = index.columns - 1 then
    some .leadingWideCharSpacer
  else
    match entry.graphemeSizing with
    | .uniform run => if run.cols ≤ col then some .regularChar else some (run.cellTypeAtOffset col)
    | .nonUniform => (index.graphemeSizing.get entry.contentOffset).map fun runs => cellTypeInRuns runs 0 col
    | .emptyRow => some .regularChar

end Index

end InfiniShell.Scrollback
