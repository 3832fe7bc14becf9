import InfiniShell.Scrollback.Storage

namespace InfiniShell.Terminal.GridStorage

/-- `none` also where the storage would panic. -/
def get (grid : GridStorage) (index : Nat) : Option Row := if index < grid.raw.len then grid.raw.get index else none

def rowWraps (grid : GridStorage) (rowIdx : Nat) : Bool :=
  match (grid.get rowIdx).bind fun row => row.inner.getLast? with
  | none => false
  | some cell => cell.flags.wrapline

end InfiniShell.Terminal.GridStorage

namespace InfiniShell.Scrollback

open Collections Terminal

def FlatStorage.rowWraps (s : FlatStorage) (row : Nat) : Bool :=
  match s.index.getEntry row with
  | none => false
  | some entry => !entry.hasTrailingNewline

inductive StorageRow where
  | gridStorage (index : Nat)
  | flatStorage (index : Nat)

/-- The rows of a grid: the scrollback, then the visible ones. -/
structure GridRows where
  grid : GridStorage
  flatStorage : FlatStorage

namespace GridRows

def totalRows (g : GridRows) : Nat := g.grid.rows + g.flatStorage.totalRows

def columns (g : GridRows) : Nat := g.grid.columns

def storageRow (g : GridRows) (rowIdx : Nat) : Option StorageRow :=
  if rowIdx ≥ g.totalRows then none
  else if rowIdx ≥ g.flatStorage.totalRows then some (.gridStorage (rowIdx - g.flatStorage.totalRows))
  else some (.flatStorage rowIdx)

/-- `none` also where the row cannot be made from the scrollback. -/
def row (g : GridRows) (index : Nat) : Option Row := do
  match ← g.storageRow index with
  | .gridStorage index => g.grid.get index
  | .flatStorage index =>
    let (row, _) ← (RowIterator.new g.flatStorage index).next.join
    some row

def rowWraps (g : GridRows) (rowIdx : Nat) : Bool :=
  match g.storageRow rowIdx with
  | some (.gridStorage rowIdx) => g.grid.rowWraps rowIdx
  | some (.flatStorage rowIdx) => g.flatStorage.rowWraps rowIdx
  | none => false

def cellType (g : GridRows) (point : Point) : Option CellType := do
  match ← g.storageRow point.row with
  | .gridStorage rowIdx => (← g.grid.get rowIdx).inner[point.col]?.map CellType.ofCell
  | .flatStorage rowIdx => g.flatStorage.cellType rowIdx point.col

def cell (g : GridRows) (point : Point) : Option Cell := (g.row point.row).bind fun row => row.inner[point.col]?

def lineStart (g : GridRows) : Nat → Nat
  | 0 => 0
  | row + 1 => if g.rowWraps row then g.lineStart row else row + 1

def lineSearchLeft (g : GridRows) (point : Point) : Point := ⟨g.lineStart point.row, 0⟩

def lineEnd (g : GridRows) : Nat → Nat → Nat
  | 0, row => row
  | fuel + 1, row => if g.rowWraps row then g.lineEnd fuel (row + 1) else row

def lineSearchRight (g : GridRows) (point : Point) : Point :=
  ⟨g.lineEnd (g.totalRows - point.row) point.row, g.columns - 1⟩

def unwrapRows (g : GridRows) : Nat → Nat → Nat
  | 0, unwrapped => unwrapped
  | row + 1, unwrapped => g.unwrapRows row (if g.rowWraps row then unwrapped - 1 else unwrapped)

def gridAgnosticPoint (g : GridRows) (point : Point) : Point :=
  let start := g.lineSearchLeft point
  ⟨g.unwrapRows start.row start.row, point.col + g.columns * (point.row - start.row)⟩

def findRow (g : GridRows) (target : Nat) : Nat → Nat → Nat → Nat
  | 0, row, _ => row
  | fuel + 1, row, numUnwrappedRowsSoFar =>
    if target = numUnwrappedRowsSoFar then row
    else g.findRow target fuel (row + 1) (if g.rowWraps row then numUnwrappedRowsSoFar else numUnwrappedRowsSoFar + 1)

def fitColumn (g : GridRows) : Nat → Nat → Nat → Point
  | 0, row, col => ⟨row, col⟩
  | fuel + 1, row, col =>
    if col ≥ g.columns ∧ g.rowWraps row then g.fitColumn fuel (row + 1) (col - g.columns) else ⟨row, col⟩

def compatiblePoint (g : GridRows) (point : Point) : Point :=
  let row := g.findRow point.row g.totalRows 0 0
  g.fitColumn (g.totalRows - row) row point.col

end GridRows

namespace Point

def wrappingAdd (p : Point) (numCols distance : Nat) : Point :=
  ⟨p.row + (distance + p.col) / numCols, (p.col + distance) % numCols⟩

def wrappingSub (p : Point) (numCols distance : Nat) : Point :=
  let lineChanges := (distance + numCols - 1 - p.col) / numCols
  if p.row ≥ lineChanges then ⟨p.row - lineChanges, (numCols + p.col - distance % numCols) % numCols⟩ else ⟨0, 0⟩

end Point

inductive Wrap where
  | none | soft | all
deriving DecidableEq

inductive CursorDirection where
  | left | right
deriving DecidableEq

inductive CursorState where
  | valid
  | exhausted (direction : CursorDirection)
  | invalid

structure GraphemeCursor where
  grid : GridRows
  cur : Point
  cursorState : CursorState
  wrap : Wrap
  cachedRowIdx : Nat
  cachedRow : Option Row

structure GraphemeCursorItem where
  cell : Cell
  point : Point
deriving DecidableEq

namespace GraphemeCursor

def currentPointValid (c : GraphemeCursor) : Bool := c.cur.row < c.grid.totalRows && c.cur.col < c.grid.columns

def isAtStartOfRow (c : GraphemeCursor) : Bool := c.cur.col = 0

def isAtEndOfRow (c : GraphemeCursor) : Bool := c.cur.col = c.grid.columns - 1

def isAtStartOfLine (c : GraphemeCursor) : Bool :=
  c.isAtStartOfRow && (c.cur.row = 0 || !c.grid.rowWraps (c.cur.row - 1))

def isAtEndOfLine (c : GraphemeCursor) : Bool :=
  c.isAtEndOfRow && (c.cur.row = c.grid.totalRows - 1 || !c.grid.rowWraps c.cur.row)

def hasNext (c : GraphemeCursor) : Bool :=
  if !c.currentPointValid then false
  else if c.wrap = .none && c.isAtEndOfRow || c.wrap = .soft && c.isAtEndOfLine then false
  else !c.isAtEndOfRow || c.cur.row < c.grid.totalRows - 1

def hasPrev (c : GraphemeCursor) : Bool :=
  if !c.currentPointValid then false
  else if c.wrap = .none && c.isAtStartOfRow || c.wrap = .soft && c.isAtStartOfLine then false
  else !c.isAtStartOfRow || 0 < c.cur.row

def updateCachedRow (c : GraphemeCursor) : GraphemeCursor :=
  { c with cachedRowIdx := c.cur.row, cachedRow := c.grid.row c.cur.row }

def moveTo (c : GraphemeCursor) (cur : Point) : GraphemeCursor := { c with cur }

def onSpacer (c : GraphemeCursor) : Bool :=
  match c.grid.cellType c.cur with
  | some .wideCharSpacer | some .leadingWideCharSpacer => true
  | _ => false

/-- A step to the next cell; `again` is the recursive call. -/
def stepTo (c : GraphemeCursor) (cur : Point) (again : GraphemeCursor → GraphemeCursor) : GraphemeCursor :=
  let moved := c.moveTo cur
  let moved := if moved.onSpacer then again moved else moved
  if moved.cur.row ≠ c.cur.row then moved.updateCachedRow else moved

def forwardBy (again : GraphemeCursor → GraphemeCursor) (c : GraphemeCursor) : GraphemeCursor :=
  match c.cursorState with
  | .valid =>
    if c.hasNext then c.stepTo (c.cur.wrappingAdd c.grid.columns 1) again
    else { c with cursorState := .exhausted .right }
  | .exhausted .left => { c with cursorState := .valid }
  | _ => c

def backwardBy (again : GraphemeCursor → GraphemeCursor) (c : GraphemeCursor) : GraphemeCursor :=
  match c.cursorState with
  | .valid =>
    if c.hasPrev then c.stepTo (c.cur.wrappingSub c.grid.columns 1) again
    else { c with cursorState := .exhausted .left }
  | .exhausted .right => { c with cursorState := .valid }
  | _ => c

def within (move : (GraphemeCursor → GraphemeCursor) → GraphemeCursor → GraphemeCursor) :
    Nat → GraphemeCursor → GraphemeCursor
  | 0 => id
  | fuel + 1 => move (within move fuel)

/-- There are no more calls than cells. -/
def moveForward (c : GraphemeCursor) : GraphemeCursor :=
  within forwardBy (c.grid.totalRows * c.grid.columns + 1) c

def moveBackward (c : GraphemeCursor) : GraphemeCursor :=
  within backwardBy (c.grid.totalRows * c.grid.columns + 1) c

def new (point : Point) (grid : GridRows) (wrap : Wrap) : GraphemeCursor :=
  let cursor := ⟨grid, point, .valid, wrap, point.row, grid.row point.row⟩
  match grid.cell point with
  | some cell =>
    if cell.flags.wideCharSpacer then cursor.moveBackward
    else if cell.flags.leadingWideCharSpacer then cursor.moveForward
    else cursor
  | none => ⟨grid, point, .invalid, wrap, point.row, none⟩

/-- `none` is a panic. -/
def currentItem (c : GraphemeCursor) : Option (Option GraphemeCursorItem) :=
  match c.cursorState with
  | .valid => do
    let row ← c.cachedRow
    let cell ← row.inner[c.cur.col]?
    some (some ⟨cell, c.cur⟩)
  | _ => some none

end GraphemeCursor

end InfiniShell.Scrollback
