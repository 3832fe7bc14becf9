import InfiniShell.Terminal.Cell
import Mathlib.Data.List.Rotate

namespace InfiniShell.Terminal

/-- Subtraction of `usize`; `none` is a panic. -/
def checkedSub (a b : Nat) : Option Nat := if b ≤ a then some (a - b) else none

/-- A circular buffer of rows. With the reversed layout the bottommost row comes first. -/
structure Storage where
  inner : List Row
  bottomRow : Nat
  visibleLines : Nat
  len : Nat
  isSequential : Bool
  maxCacheSize : Nat
deriving DecidableEq

namespace Storage

def withRows (rows : List Row) (isSequential : Bool) (visibleLines : Nat) : Storage where
  inner := rows
  bottomRow := 0
  visibleLines := visibleLines
  len := rows.length
  isSequential := isSequential
  maxCacheSize := 1

def withCapacity (visibleLines columns : Nat) (isSequential : Bool) : Storage :=
  withRows (List.replicate visibleLines (Row.new columns)) isSequential visibleLines

/-- `none` is the failed debug assertion. -/
def fromGridIndex (s : Storage) (requested : Nat) : Option Nat :=
  if requested < s.len then
    let requested := if s.isSequential then requested else s.len - requested - 1
    let zeroed := s.bottomRow + requested
    some (if zeroed ≥ s.inner.length then zeroed - s.inner.length else zeroed)
  else none

def toGridIndex (s : Storage) (row : Nat) : Option Nat := (checkedSub s.len s.visibleLines).map (· + row)

def get (s : Storage) (index : Nat) : Option Row := do
  let raw ← s.fromGridIndex index
  s.inner[raw]?

def setRaw (s : Storage) (raw : Nat) (row : Row) : Storage := { s with inner := s.inner.set raw row }

def update (s : Storage) (index : Nat) (f : Row → Option Row) : Option Storage := do
  let raw ← s.fromGridIndex index
  let row ← s.inner[raw]?
  let row ← f row
  some (s.setRaw raw row)

def swapRaw (s : Storage) (a b : Nat) : Option Storage := do
  let rowA ← s.inner[a]?
  let rowB ← s.inner[b]?
  some ((s.setRaw a rowB).setRaw b rowA)

def swap (s : Storage) (a b : Nat) : Option Storage := do
  let a ← s.fromGridIndex a
  let b ← s.fromGridIndex b
  s.swapRaw a b

def swapLines (s : Storage) (a b : Nat) : Option Storage := do
  let a ← s.toGridIndex a
  let b ← s.toGridIndex b
  s.swap a b

def rotate (s : Storage) (count : Int) : Option Storage :=
  if count.natAbs ≤ s.inner.length then
    some { s with bottomRow := (s.bottomRow + count + s.inner.length).toNat % s.inner.length }
  else none

/-- Moves the bottommost row to a lesser row. -/
def retract (s : Storage) (count : Int) : Option Storage :=
  s.rotate (if s.isSequential then -count else count)

/-- Moves the bottommost row to a greater row. -/
def extend (s : Storage) (count : Int) : Option Storage :=
  s.rotate (if s.isSequential then count else -count)

def rezero (s : Storage) : Storage :=
  if s.bottomRow = 0 then s else { s with inner := s.inner.rotate s.bottomRow, bottomRow := 0 }

def truncateUnusedRows (s : Storage) : Storage :=
  let s := s.rezero
  { s with inner := s.inner.take s.len }

def shrinkLines (s : Storage) (shrinkage : Nat) : Option Storage := do
  let len ← checkedSub s.len shrinkage
  let s := { s with len }
  some (if s.inner.length > s.len + s.maxCacheSize then s.truncateUnusedRows else s)

def shrinkVisibleLines (s : Storage) (next : Nat) : Option Storage := do
  let shrinkage ← checkedSub s.visibleLines next
  let s ← s.shrinkLines shrinkage
  some { s with visibleLines := next }

def withRoom (s : Storage) (additionalRows columns : Nat) : Storage :=
  if s.len + additionalRows > s.inner.length then
    let s := s.rezero
    { s with inner := s.inner ++ List.replicate (max additionalRows s.maxCacheSize) (Row.new columns) }
  else s

/-- `initialize`: grows the buffer by rows that are there already, or by new ones. -/
def initializeRows (s : Storage) (additionalRows columns : Nat) : Storage :=
  { s.withRoom additionalRows columns with len := s.len + additionalRows }

def growVisibleLines (s : Storage) (next : Nat) : Option Storage := do
  let growage ← checkedSub next s.visibleLines
  let first ← s.get 0
  some { s.initializeRows growage first.inner.length with visibleLines := next }

end Storage

structure VisiblePoint where
  row : Nat := 0
  col : Nat := 0
deriving DecidableEq

def VisiblePoint.clampRow (point : VisiblePoint) (lastRow : Nat) : VisiblePoint :=
  { point with row := min point.row lastRow }

inductive StandardCharset where
  | ascii
  | specialCharacterAndUsizeDrawing
deriving DecidableEq

def StandardCharset.map (charset : StandardCharset) (c : Char) : Char :=
  match charset with
  | .ascii => c
  | .specialCharacterAndUsizeDrawing =>
    match c with
    | '\x60' => '◆' | 'a' => '▒' | 'b' => '\t' | 'c' => '\x0c' | 'd' => '\r' | 'e' => '\n' | 'f' => '°' | 'g' => '±'
    | 'h' => '\u2424' | 'i' => '\x0b' | 'j' => '┘' | 'k' => '┐' | 'l' => '┌' | 'm' => '└' | 'n' => '┼' | 'o' => '⎺'
    | 'p' => '⎻' | 'q' => '─' | 'r' => '⎼' | 's' => '⎽' | 't' => '├' | 'u' => '┤' | 'v' => '┴' | 'w' => '┬'
    | 'x' => '│' | 'y' => '≤' | 'z' => '≥' | '\x7b' => 'π' | '|' => '≠' | '\x7d' => '£' | '~' => '·'
    | c => c

inductive CharsetIndex where
  | g0 | g1 | g2 | g3
deriving DecidableEq

structure Charsets where
  g0 : StandardCharset := .ascii
  g1 : StandardCharset := .ascii
  g2 : StandardCharset := .ascii
  g3 : StandardCharset := .ascii
deriving DecidableEq

namespace Charsets

def get (charsets : Charsets) : CharsetIndex → StandardCharset
  | .g0 => charsets.g0
  | .g1 => charsets.g1
  | .g2 => charsets.g2
  | .g3 => charsets.g3

def set (charsets : Charsets) (index : CharsetIndex) (charset : StandardCharset) : Charsets :=
  match index with
  | .g0 => { charsets with g0 := charset }
  | .g1 => { charsets with g1 := charset }
  | .g2 => { charsets with g2 := charset }
  | .g3 => { charsets with g3 := charset }

end Charsets

structure Cursor where
  point : VisiblePoint := {}
  template : Cell := {}
  charsets : Charsets := {}
  inputNeedsWrap : Bool := false
deriving DecidableEq

/-- `Range<VisibleRow>` -/
structure Region where
  start : Nat
  stop : Nat
deriving DecidableEq

structure GridStorage where
  cursor : Cursor
  maxCursorPoint : VisiblePoint
  savedCursor : Cursor
  raw : Storage
  columns : Nat
  rows : Nat
  maxScrollLimit : Nat
  numLinesTruncated : Nat
deriving DecidableEq

namespace GridStorage

/-- `FeatureFlag::SequentialStorage` is the last argument. -/
def new (rows columns maxScrollLimit : Nat) (isSequential : Bool) : GridStorage where
  cursor := {}
  maxCursorPoint := {}
  savedCursor := {}
  raw := Storage.withCapacity rows columns isSequential
  columns := columns
  rows := rows
  maxScrollLimit := maxScrollLimit
  numLinesTruncated := 0

def historySize (grid : GridStorage) : Option Nat := checkedSub grid.raw.len grid.rows

def increaseScrollLimit (grid : GridStorage) (count : Nat) : Option Storage := do
  let history ← grid.historySize
  let room ← checkedSub grid.maxScrollLimit history
  let count := min count room
  some (if count ≠ 0 then grid.raw.initializeRows count grid.columns else grid.raw)

def decreaseScrollLimit (grid : GridStorage) (count : Nat) : Option GridStorage := do
  let history ← grid.historySize
  let count := min count history
  if count ≠ 0 then
    let raw ← grid.raw.shrinkLines (min count history)
    some { grid with raw }
  else some grid

def resetRow (template : Cell) (s : Storage) (index : Nat) : Option Storage := s.update index (·.reset template)

def resetLine (template : Cell) (s : Storage) (line : Nat) : Option Storage := do
  let index ← s.toGridIndex line
  resetRow template s index

def upTo (start stop : Nat) : List Nat := List.range' start (stop - start)

def resetLines (grid : GridStorage) (start stop : Nat) : Option GridStorage := do
  let raw ← (upTo start stop).foldlM (resetLine grid.cursor.template) grid.raw
  some { grid with raw }

/-- Swaps the line `i` from the bottom with the one `distance` above it. -/
def swapFromBottom (rows distance : Nat) (s : Storage) (i : Nat) : Option Storage := do
  let index ← checkedSub rows (i + 1)
  let target ← checkedSub index distance
  s.swap index target

def scrollDown (grid : GridStorage) (region : Region) (distance : Nat) : Option GridStorage := do
  let height ← checkedSub region.stop region.start
  if distance ≥ height then grid.resetLines region.start region.stop
  else if grid.maxScrollLimit = 0 then
    let fixedLines ← checkedSub grid.rows region.stop
    -- the lines fixed at the bottom go where the rotation puts them back
    let raw ← (upTo 0 fixedLines).reverse.foldlM (swapFromBottom grid.rows distance) grid.raw
    let raw ← raw.retract distance
    let raw ← (upTo 0 distance).foldlM (resetRow grid.cursor.template) raw
    let raw ← (upTo 0 region.start).foldlM (fun raw i => raw.swap i (i + distance)) raw
    some { grid with raw }
  else
    let raw ← (upTo (region.start + distance) region.stop).reverse.foldlM
      (fun raw line => raw.swapLines line (line - distance)) grid.raw
    { grid with raw }.resetLines region.start (region.start + distance)

def scrollUp (grid : GridStorage) (region : Region) (distance : Nat) : Option GridStorage := do
  let height ← checkedSub region.stop region.start
  if distance ≥ height ∧ region.start ≠ 0 then grid.resetLines region.start region.stop
  else
    let history ← grid.historySize
    let numLinesToTruncate := history + distance - grid.maxScrollLimit
    let raw ← grid.increaseScrollLimit distance
    -- the lines fixed at the top go where the rotation puts them back
    let raw ← (upTo 0 region.start).reverse.foldlM (fun raw i => raw.swap i (i + distance)) raw
    let raw ← raw.extend distance
    let first ← checkedSub raw.len distance
    let raw ← (upTo first raw.len).foldlM (resetRow grid.cursor.template) raw
    let fixedLines ← checkedSub grid.rows region.stop
    let raw ← (upTo 0 fixedLines).foldlM (swapFromBottom grid.rows distance) raw
    let grid := { grid with raw }
    let history ← grid.historySize
    some { grid with
      numLinesTruncated :=
        if grid.maxScrollLimit = history then grid.numLinesTruncated + numLinesToTruncate
        else grid.numLinesTruncated }

def growLines (grid : GridStorage) (newLineCount : Nat) : Option GridStorage := do
  let linesAdded ← checkedSub newLineCount grid.rows
  let raw ← grid.raw.growVisibleLines newLineCount
  let grid := { grid with raw, rows := newLineCount }
  let history ← grid.historySize
  let fromHistory := min history linesAdded
  let grid ← if fromHistory ≠ linesAdded then grid.scrollUp ⟨0, newLineCount⟩ (linesAdded - fromHistory) else some grid
  let down := fun point : VisiblePoint => { point with row := point.row + fromHistory }
  { grid with
    savedCursor := { grid.savedCursor with point := down grid.savedCursor.point }
    cursor := { grid.cursor with point := down grid.cursor.point }
    maxCursorPoint := down grid.maxCursorPoint }.decreaseScrollLimit linesAdded

/-- The start of `shrink_lines`: scrolls up to keep the cursor inside the window. -/
def scrollIntoView (grid : GridStorage) (target lastRow : Nat) : Option GridStorage :=
  let requiredScrolling := grid.cursor.point.row + 1 - target
  if requiredScrolling > 0 then
    (grid.scrollUp ⟨0, grid.rows⟩ requiredScrolling).map fun grid =>
      { grid with cursor := { grid.cursor with point := grid.cursor.point.clampRow lastRow } }
  else some grid

def shrinkLines (grid : GridStorage) (target : Nat) : Option GridStorage := do
  let lastRow ← checkedSub target 1
  let grid ← grid.scrollIntoView target lastRow
  let shrinkage ← checkedSub grid.rows target
  let raw ← grid.raw.rotate shrinkage
  let raw ← raw.shrinkVisibleLines target
  some { grid with
    savedCursor := { grid.savedCursor with point := grid.savedCursor.point.clampRow lastRow }
    maxCursorPoint := grid.maxCursorPoint.clampRow lastRow
    raw
    rows := target }

def targetLines (grid : GridStorage) (lines : Nat) (finished : Bool) : Nat :=
  if finished then min lines (grid.cursor.point.row + 1) else lines

def withTemplate (grid : GridStorage) (template : Cell) : GridStorage :=
  { grid with cursor := { grid.cursor with template } }

def changeLines (grid : GridStorage) (lines : Nat) : Option GridStorage :=
  match compare grid.rows lines with
  | .lt => grid.growLines lines
  | .gt => grid.shrinkLines lines
  | .eq => some grid

def resizeLines (grid : GridStorage) (lines : Nat) (finished : Bool) : Option GridStorage :=
  if lines = 0 then some grid
  else do
    let plain := grid.withTemplate {}
    let resized ← plain.changeLines (plain.targetLines lines finished)
    some (resized.withTemplate grid.cursor.template)

end GridStorage

end InfiniShell.Terminal
