import InfiniShell.Collections.BiMap
import Mathlib.Algebra.GroupWithZero.Nat

namespace InfiniShell.Terminal

open Collections

structure Point where
  row : Nat
  col : Nat

inductive DisplaySource where
  | cursorLine
  | filterMatch
  | filterContext

/-- The rows `range.start()..=range.end()`. -/
structure DisplayedRows where
  start : Nat
  stop : Nat
  source : DisplaySource

namespace DisplayedRows

def count (rows : DisplayedRows) : Nat := rows.stop - rows.start + 1

def rows (rows : DisplayedRows) : List Nat := List.range' rows.start (rows.stop + 1 - rows.start)

end DisplayedRows

structure DisplayedOutput (M : Type) where
  displayedRows : List DisplayedRows
  height : Nat
  rowTranslationMap : M

namespace DisplayedOutput

variable {M : Type} [BiMap M Nat Nat]

def totalCount (displayedLines : List DisplayedRows) : Nat := (displayedLines.map DisplayedRows.count).sum

def rowsOf (displayedLines : List DisplayedRows) : List Nat := displayedLines.flatMap DisplayedRows.rows

omit [BiMap M Nat Nat] in
def rows (output : DisplayedOutput M) : List Nat := rowsOf output.displayedRows

def newFromDisplayedLines (displayedLines : List DisplayedRows) : DisplayedOutput M where
  displayedRows := displayedLines
  height := totalCount displayedLines
  rowTranslationMap := (BiMap.insertAll BiMap.empty 0 (rowsOf displayedLines)).1

/-- Called before `displayed_rows` is updated. -/
def appendToRowTranslation (output : DisplayedOutput M) (newLineRanges : List DisplayedRows) : M :=
  let lastDisplayedRow := (output.displayedRows.getLast?.map DisplayedRows.stop).getD 0
  let offsetRow := ((BiMap.getByLeft output.rowTranslationMap lastDisplayedRow).map (· + 1)).getD 0
  (BiMap.insertAll output.rowTranslationMap offsetRow (rowsOf newLineRanges)).1

def extendDisplayedLines (output : DisplayedOutput M) (displayedLines : List DisplayedRows) : DisplayedOutput M where
  displayedRows := output.displayedRows ++ displayedLines
  height := output.height + totalCount displayedLines
  rowTranslationMap := output.appendToRowTranslation displayedLines

def prependDisplayedLines (output : DisplayedOutput M) (displayedLines : List DisplayedRows) : DisplayedOutput M where
  displayedRows := displayedLines ++ output.displayedRows
  height := output.height + totalCount displayedLines
  -- none of the old entries is valid
  rowTranslationMap := (BiMap.insertAll BiMap.empty 0 (rowsOf (displayedLines ++ output.displayedRows))).1

/-- The index behind the last row before the range at `replaceStart`. -/
def offsetBefore (displayedRows : List DisplayedRows) (map : M) (replaceStart : Nat) : Nat :=
  let firstRowBeforeReplaceRange :=
    if replaceStart = 0 then none else displayedRows[replaceStart - 1]?.map DisplayedRows.stop
  match firstRowBeforeReplaceRange with
  | none => 0
  | some row => ((BiMap.getByLeft map row).map (· + 1)).getD 0

/-- Called after `displayed_rows` is updated. -/
def replaceRowsFromRowTranslation (displayedRows : List DisplayedRows) (map : M) (replaceStart : Nat) : M :=
  let offsetRow := offsetBefore displayedRows map replaceStart
  let lastOffsetRow := BiMap.len map
  let cleared := BiMap.removeRange map offsetRow (lastOffsetRow + 1 - offsetRow)
  (BiMap.insertAll cleared offsetRow (rowsOf (displayedRows.drop replaceStart))).1

/-- `Vec::splice` panics unless `replaceStart ≤ replaceEnd` and the range ends within the vector. -/
def spliceDisplayedLines (output : DisplayedOutput M) (replaceStart replaceEnd : Nat)
    (displayedLines : List DisplayedRows) : DisplayedOutput M × List DisplayedRows :=
  let removed := (output.displayedRows.take replaceEnd).drop replaceStart
  let displayedRows :=
    output.displayedRows.take replaceStart ++ displayedLines ++ output.displayedRows.drop replaceEnd
  ({ displayedRows
     height := output.height + totalCount displayedLines - totalCount removed
     rowTranslationMap := replaceRowsFromRowTranslation displayedRows output.rowTranslationMap replaceStart },
    removed)

def scanBack (row : Nat) (found : Option (Nat × DisplayedRows)) :
    List (DisplayedRows × Nat) → Option (Nat × DisplayedRows)
  | [] => found
  | (rows, idx) :: rest => if row > rows.stop then found else scanBack row (some (idx, rows)) rest

omit [BiMap M Nat Nat] in
def firstRowsGreaterThanOrContainedIn (output : DisplayedOutput M) (row : Nat) : Option (Nat × DisplayedRows) :=
  scanBack row none output.displayedRows.zipIdx.reverse

omit [BiMap M Nat Nat] in
omit [BiMap M Nat Nat] in
def truncateFrom (output : DisplayedOutput M) (row truncateIdx : Nat) : DisplayedOutput M :=
  match output.displayedRows.drop truncateIdx with
  | [] => { output with displayedRows := output.displayedRows.take truncateIdx }
  | firstTruncated :: truncated =>
    let height := output.height - firstTruncated.count - totalCount truncated
    if firstTruncated.start ≤ row ∧ row ≤ firstTruncated.stop then
      let partialRows : DisplayedRows := ⟨firstTruncated.start, row, firstTruncated.source⟩
      { output with
        displayedRows := output.displayedRows.take truncateIdx ++ [partialRows]
        height := height + partialRows.count }
    else { output with displayedRows := output.displayedRows.take truncateIdx, height := height }

omit [BiMap M Nat Nat] in
/-- The row translation map stays as it is. -/
def truncateToRow (output : DisplayedOutput M) (row : Nat) : DisplayedOutput M :=
  match output.displayedRows with
  | [] => output
  | first :: _ =>
    if row < first.start then { output with displayedRows := [], height := 0 }
    else
      match output.firstRowsGreaterThanOrContainedIn row with
      | none => output
      | some (truncateIdx, _) => output.truncateFrom row truncateIdx

def reset : DisplayedOutput M where
  displayedRows := []
  height := 0
  rowTranslationMap := BiMap.empty

def maybeTranslatePointFromOriginalToDisplayed (output : DisplayedOutput M) (point : Point) : Point :=
  match BiMap.getByLeft output.rowTranslationMap point.row with
  | some translatedRow => ⟨translatedRow, point.col⟩
  | none => point

def maybeTranslatePointFromDisplayedToOriginal (output : DisplayedOutput M) (point : Point) : Point :=
  match BiMap.getByRight output.rowTranslationMap point.row with
  | some originalRow => ⟨originalRow, point.col⟩
  | none => point

def maybeTranslateRowFromDisplayedToOriginal (output : DisplayedOutput M) (row : Nat) : Nat :=
  (BiMap.getByRight output.rowTranslationMap row).getD row

def isDisplayedRow (output : DisplayedOutput M) (row : Nat) : Bool :=
  BiMap.containsLeft output.rowTranslationMap row

/-- The binary search of `get_exact_or_next_displayed_row`. -/
def searchDisplayedRow (map : M) (target low high : Nat) (candidate : Option Nat) : Option Nat :=
  if low ≤ high then
    let displayedRow := (high + low) / 2
    match BiMap.getByRight map displayedRow with
    | none => none
    | some originalRow =>
      if originalRow > target then
        if displayedRow = 0 then some displayedRow
        else searchDisplayedRow map target low (displayedRow - 1) (some displayedRow)
      else if originalRow < target then searchDisplayedRow map target (displayedRow + 1) high candidate
      else some displayedRow
  else candidate
termination_by high + 1 - low
decreasing_by
  all_goals omega

def getExactOrNextDisplayedRow (output : DisplayedOutput M) (target : Nat) : Option Nat :=
  if BiMap.isEmpty output.rowTranslationMap then none
  else
    match BiMap.getByLeft output.rowTranslationMap target with
    | some displayedRow => some displayedRow
    | none => searchDisplayedRow output.rowTranslationMap target 0 (BiMap.len output.rowTranslationMap - 1) none

def Ascending (displayedLines : List DisplayedRows) : Prop :=
  (∀ rows ∈ displayedLines, rows.start ≤ rows.stop) ∧
    displayedLines.Pairwise fun rows rows' => rows.stop < rows'.start

/-- The counter and the map say what the ranges say. -/
structure Coherent (output : DisplayedOutput M) : Prop where
  ascending : Ascending output.displayedRows
  height : output.height = output.rows.length
  map : BiMap.Indexes output.rowTranslationMap output.rows

section Rows

variable {lines lines' : List DisplayedRows} {row : Nat}

omit [BiMap M Nat Nat]

@[simp] theorem rowsOf_nil : rowsOf [] = [] := rfl

@[simp] theorem rowsOf_cons (rows : DisplayedRows) : rowsOf (rows :: lines) = rows.rows ++ rowsOf lines := rfl

@[simp] theorem rowsOf_append : rowsOf (lines ++ lines') = rowsOf lines ++ rowsOf lines' := List.flatMap_append

variable {rows : DisplayedRows}

theorem mem_rows : row ∈ rows.rows ↔ rows.start ≤ row ∧ row ≤ rows.stop := by
  rw [DisplayedRows.rows, List.mem_range'_1]
  omega

theorem mem_rowsOf : row ∈ rowsOf lines ↔ ∃ rows ∈ lines, rows.start ≤ row ∧ row ≤ rows.stop := by
  rw [rowsOf, List.mem_flatMap]
  exact exists_congr fun rows => and_congr_right fun _ => mem_rows

theorem Ascending.cons (h : Ascending (rows :: lines)) :
    rows.start ≤ rows.stop ∧ Ascending lines ∧ ∀ row ∈ rowsOf lines, rows.stop < row := by
  obtain ⟨hne, hpairs⟩ := h
  obtain ⟨hfirst, hpairs⟩ := List.pairwise_cons.mp hpairs
  refine ⟨hne rows (by simp), ⟨fun r hr => hne r (List.mem_cons_of_mem _ hr), hpairs⟩, ?_⟩
  intro row hrow
  obtain ⟨rows', hmem, hstart, -⟩ := mem_rowsOf.mp hrow
  exact Nat.lt_of_lt_of_le (hfirst rows' hmem) hstart

theorem Ascending.append_left (h : Ascending (lines ++ lines')) : Ascending lines :=
  ⟨fun r hr => h.1 r (List.mem_append_left _ hr), (List.pairwise_append.mp h.2).1⟩

theorem Ascending.append_right (h : Ascending (lines ++ lines')) : Ascending lines' :=
  ⟨fun r hr => h.1 r (List.mem_append_right _ hr), (List.pairwise_append.mp h.2).2.1⟩

theorem Ascending.rows_pairwise (h : Ascending lines) : (rowsOf lines).Pairwise (· < ·) := by
  induction lines with
  | nil => exact List.Pairwise.nil
  | cons rows lines ih =>
    obtain ⟨-, hlines, hbehind⟩ := h.cons
    rw [rowsOf_cons, List.pairwise_append]
    refine ⟨List.pairwise_lt_range', ih hlines, ?_⟩
    intro a ha b hb
    exact Nat.lt_of_le_of_lt (mem_rows.mp ha).2 (hbehind b hb)

theorem Ascending.nodup (h : Ascending lines) : (rowsOf lines).Nodup :=
  h.rows_pairwise.imp Nat.ne_of_lt

theorem Ascending.totalCount (h : Ascending lines) : totalCount lines = (rowsOf lines).length := by
  induction lines with
  | nil => rfl
  | cons rows lines ih =>
    obtain ⟨hne, hlines, -⟩ := h.cons
    have hrest := ih hlines
    rw [DisplayedOutput.totalCount] at hrest ⊢
    rw [List.map_cons, List.sum_cons, hrest, rowsOf_cons, List.length_append, DisplayedRows.count,
      DisplayedRows.rows, List.length_range']
    omega

theorem rows_getLast (h : rows.start ≤ rows.stop) : ∃ init, rows.rows = init ++ [rows.stop] := by
  refine ⟨List.range' rows.start (rows.stop - rows.start), ?_⟩
  rw [DisplayedRows.rows, show rows.stop + 1 - rows.start = rows.stop - rows.start + 1 by omega,
    List.range'_concat]
  congr 2
  omega

end Rows

end DisplayedOutput

end InfiniShell.Terminal
