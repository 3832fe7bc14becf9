import InfiniShell.Collections.Pairing
import InfiniShell.Collections.SwapChain
import InfiniShell.Terminal.Storage

namespace InfiniShell.Terminal

open Collections

namespace Row

/-! An operation that mentions a cell counts it as modified; `none` is an index out of range. -/

def put (row : Row) (i : Nat) (cell : Cell) : Option Row :=
  if i < row.inner.length then some ⟨row.inner.set i cell, max row.occ (i + 1)⟩ else none

def modify (row : Row) (i : Nat) (f : Cell → Cell) : Option Row := do
  let cell ← row.inner[i]?
  row.put i (f cell)

/-- `&mut row[..]` -/
def touchAll (row : Row) : Row := { row with occ := row.inner.length }

def filled (row : Row) (start stop : Nat) (bg : Color) : List Cell :=
  row.inner.take start ++ List.replicate (stop - start) (Cell.ofColor bg) ++ row.inner.drop stop

def fill (row : Row) (start stop : Nat) (bg : Color) : Option Row :=
  if start ≤ stop ∧ stop ≤ row.inner.length then some ⟨row.filled start stop bg, max row.occ stop⟩ else none

def fillFrom (row : Row) (start : Nat) (bg : Color) : Option Row :=
  (row.fill start row.inner.length bg).map touchAll

/-- `&mut row[..=last]` counts the cells before the last one only. -/
def fillThrough (row : Row) (last : Nat) (bg : Color) : Option Row :=
  (row.fill 0 (last + 1) bg).map fun filled => { filled with occ := max row.occ last }

def mapCells (row : Row) (f : Cell → Cell) : Row := ⟨row.inner.map f, row.inner.length⟩

def swapCells (row : Row) (i j : Nat) : Option Row :=
  if i < row.inner.length ∧ j < row.inner.length then some ⟨swapped row.inner i j, row.inner.length⟩ else none

/-- Swaps `count` cells to the right, the last one first. -/
def shiftRight (row : Row) (source destination count : Nat) : Option Row :=
  (List.range count).reverse.foldlM
    (fun row offset => row.swapCells (destination + offset) (source + offset)) row.touchAll

/-- Swaps `count` cells to the left, the first one first. -/
def shiftLeft (row : Row) (source destination count : Nat) : Option Row :=
  (List.range count).foldlM
    (fun row offset => row.swapCells (destination + offset) (source + offset)) row.touchAll

def blankBoth (row : Row) (i j : Nat) (bg : Color) : Option Row := do
  let row ← row.put i (Cell.ofColor bg)
  row.put j (Cell.ofColor bg)

def resetSpacerPair (row : Row) (col : Nat) (bg : Color) : Option Row := do
  let cell ← row.inner[col]?
  if cell.flags.wideCharSpacer ∧ col > 0 then row.blankBoth col (col - 1) bg else some row

def resetWidePair (row : Row) (numCols col : Nat) (bg : Color) : Option Row := do
  let cell ← row.inner[col]?
  if cell.flags.wideChar ∧ col + 1 < numCols then row.blankBoth col (col + 1) bg else some row

def resetWideCharAtStartBoundary (row : Row) (numCols col : Nat) (bg : Color) : Option Row := do
  let row ← row.touchAll.resetSpacerPair col bg
  row.resetWidePair numCols col bg

def resetWideCharAtEndBoundary (row : Row) (col : Nat) (bg : Color) : Option Row :=
  row.touchAll.resetSpacerPair col bg

/-- The end boundary of an operation that may reach the end of the row. -/
def resetWideCharBefore (row : Row) (numCols col : Nat) (bg : Color) : Option Row :=
  if col < numCols then row.resetWideCharAtEndBoundary col bg else some row

/-- The part of `write_at_cursor` that resets the other half of a pair. -/
def resetOtherHalf (row : Row) (numCols col : Nat) (bg : Color) : Option Row := do
  let cell ← row.inner[col]?
  if cell.flags.wideCharSpacer ∧ col > 0 then row.blankBoth col (col - 1) bg
  else if cell.flags.wideChar ∧ col + 1 < numCols then row.blankBoth col (col + 1) bg
  else some row

def write (row : Row) (numCols col : Nat) (bg : Color) (f : Cell → Cell) : Option Row := do
  let row ← row.resetOtherHalf numCols col bg
  row.modify col f

/-- The shift of `input` in insert mode. -/
def makeRoom (row : Row) (numCols width col : Nat) (bg : Color) : Option Row := do
  let row ← row.resetWideCharAtStartBoundary numCols col bg
  let row ← row.resetWideCharAtEndBoundary (numCols - width) bg
  row.shiftRight col (col + width) (numCols - width - col)

def insertBlank (row : Row) (numCols col count : Nat) (bg : Color) : Option Row := do
  let room ← checkedSub numCols col
  let count := min count room
  let row ← row.resetWideCharAtStartBoundary numCols col bg
  let row ← row.resetWideCharBefore numCols (numCols - count) bg
  let row ← row.shiftRight col (col + count) (numCols - (col + count))
  row.fill col (col + count) bg

def eraseChars (row : Row) (numCols col count : Nat) (bg : Color) : Option Row :=
  if count = 0 then some row
  else do
    let stop := min (col + count) numCols
    let row ← row.resetWideCharAtStartBoundary numCols col bg
    let row ← row.resetWideCharBefore numCols stop bg
    row.fill col stop bg

def deleteChars (row : Row) (numCols col count : Nat) (bg : Color) : Option Row :=
  if count = 0 then some row
  else do
    let count := min count numCols
    let lastCol ← checkedSub numCols 1
    let stop := min (col + count) lastCol
    let row ← row.resetWideCharAtStartBoundary numCols col bg
    let row ← row.resetWideCharBefore numCols stop bg
    let row ← row.shiftLeft stop col (numCols - stop)
    row.fillFrom (numCols - count) bg

inductive LineClearMode where
  | right | left | all

def clearLine (row : Row) (numCols col : Nat) (mode : LineClearMode) (bg : Color) : Option Row :=
  match mode with
  | .right => do
    let row ← row.resetWideCharAtStartBoundary numCols col bg
    row.fillFrom col bg
  | .left => do
    let row ← row.resetWideCharBefore numCols (col + 1) bg
    row.fillThrough col bg
  | .all => row.fillFrom 0 bg

/-- The cursor row of `clear_screen` above. -/
def clearUpTo (row : Row) (numCols col : Nat) (bg : Color) : Option Row := do
  let stop := min (col + 1) numCols
  let row ← row.resetWideCharBefore numCols stop bg
  row.fill 0 stop bg

def grow (row : Row) (columns : Nat) : Row :=
  { row with inner := row.inner ++ List.replicate (columns - row.inner.length) {} }

/-- `shrink`, of which only the reflow needs the removed cells, and `reset_invalid_trailing_wide_char`. -/
def shrinkWithoutReflow (row : Row) (columns : Nat) : Option Row :=
  let row := if row.inner.length ≤ columns then row else ⟨row.inner.take columns, min row.occ columns⟩
  if columns = 0 then some row
  else do
    let last ← row.inner[columns - 1]?
    if last.flags.wideChar then row.put (columns - 1) (Cell.ofColor last.bg) else some row

end Row

end InfiniShell.Terminal
