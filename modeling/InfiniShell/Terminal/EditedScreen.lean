import InfiniShell.Terminal.EditedRows
import InfiniShell.Terminal.WideRuns

namespace InfiniShell.Terminal

namespace Storage

variable {s after : Storage} {columns : Nat} {row : Row}

structure Framed (columns : Nat) (s : Storage) : Prop where
  bottomRow_lt : s.bottomRow < s.inner.length
  len_le : s.len ≤ s.inner.length
  length : ∀ row ∈ s.inner, row.inner.length = columns

variable {index : Nat}

theorem Framed.fromGridIndex (h : s.Framed columns) (hindex : index < s.len) :
    ∃ raw, s.fromGridIndex index = some raw ∧ raw < s.inner.length := by
  have hbottom := h.bottomRow_lt
  have hlen := h.len_le
  rw [Storage.fromGridIndex, if_pos hindex]
  refine ⟨_, rfl, ?_⟩
  split <;> split <;> omega

theorem Framed.fromGridIndex_inj (h : s.Framed columns) {i j raw : Nat} (hi : s.fromGridIndex i = some raw)
    (hj : s.fromGridIndex j = some raw) : i = j := by
  have hbottom := h.bottomRow_lt
  have hlen := h.len_le
  unfold Storage.fromGridIndex at hi hj
  split at hi
  next hilt =>
    split at hj
    next hjlt =>
      have heq := (Option.some.inj hi).trans (Option.some.inj hj).symm
      cases hlayout : s.isSequential <;> simp only [hlayout, Bool.false_eq_true, if_true, if_false] at heq <;>
        split at heq <;> split at heq <;> omega
    next => cases hj
  next => cases hi

def cellsAt (s : Storage) (index : Nat) : List Cell := ((s.get index).map Row.inner).getD []

theorem Framed.get (h : s.Framed columns) (hindex : index < s.len) :
    ∃ row, s.get index = some row ∧ row.inner.length = columns ∧ s.cellsAt index = row.inner := by
  obtain ⟨raw, hraw, hlt⟩ := h.fromGridIndex hindex
  have hget : s.get index = some s.inner[raw] := by
    rw [Storage.get, hraw]
    exact List.getElem?_eq_getElem hlt
  refine ⟨_, hget, h.length _ (List.getElem_mem hlt), ?_⟩
  rw [cellsAt, hget]
  rfl

structure Rewrites (columns index : Nat) (cells : List Cell) (s after : Storage) : Prop where
  framed : after.Framed columns
  len : after.len = s.len
  visibleLines : after.visibleLines = s.visibleLines
  cells : ∀ i, i < s.len → after.cellsAt i = if i = index then cells else s.cellsAt i

theorem Framed.update (h : s.Framed columns) (hindex : index < s.len) {f : Row → Option Row}
    {old new : Row} (hold : s.get index = some old) (hf : f old = some new) (hnew : new.inner.length = columns) :
    ∃ after, s.update index f = some after ∧ Rewrites columns index new.inner s after := by
  obtain ⟨raw, hraw, hlt⟩ := h.fromGridIndex hindex
  have hget : s.inner[raw]? = some old := by
    rw [Storage.get, hraw] at hold
    exact hold
  refine ⟨s.setRaw raw new, ?_, ?_, rfl, rfl, ?_⟩
  · rw [Storage.update, hraw]
    simp only [Option.bind_eq_bind, Option.bind_some, hget, hf]
  · refine ⟨?_, ?_, ?_⟩
    · rw [setRaw, List.length_set]
      exact h.bottomRow_lt
    · rw [setRaw, List.length_set]
      exact h.len_le
    · intro row hrow
      cases List.mem_or_eq_of_mem_set hrow with
      | inl hmem => exact h.length row hmem
      | inr heq => rw [heq, hnew]
  · intro i hi
    obtain ⟨raw', hraw', hlt'⟩ := h.fromGridIndex hi
    rw [cellsAt, cellsAt, Storage.get, Storage.get, fromGridIndex_setRaw, hraw']
    simp only [Option.bind_eq_bind, Option.bind_some, setRaw]
    by_cases heq : i = index
    · subst heq
      obtain rfl := Option.some.inj (hraw.symm.trans hraw')
      rw [if_pos rfl, List.getElem?_set_self hlt]
      rfl
    · have hne : raw ≠ raw' := by
        intro hsame
        exact heq (h.fromGridIndex_inj hraw' (hsame ▸ hraw))
      rw [if_neg heq, List.getElem?_set_ne hne]

theorem Framed.eachLine (h : s.Framed columns) (f : Cell → Cell) (start count : Nat)
    (hvisible : s.visibleLines ≤ s.len) (hcount : start + count ≤ s.visibleLines) :
    ∃ after, (List.range' start count).foldlM
        (fun (raw : Storage) line => raw.updateLine line fun row => some (row.mapCells f)) s = some after ∧
      after.Framed columns ∧ after.len = s.len ∧ after.visibleLines = s.visibleLines ∧
      ∀ line, line < s.visibleLines → after.cellsAt (s.len - s.visibleLines + line) =
        if start ≤ line ∧ line < start + count then (s.cellsAt (s.len - s.visibleLines + line)).map f
        else s.cellsAt (s.len - s.visibleLines + line) := by
  induction count generalizing s start with
  | zero =>
    refine ⟨s, rfl, h, rfl, rfl, ?_⟩
    intro line _
    rw [if_neg (by omega)]
  | succ count ih =>
    have hindex : s.len - s.visibleLines + start < s.len := by omega
    obtain ⟨old, hold, hlength, hcells⟩ := h.get hindex
    have hmapped : (old.mapCells f).inner.length = columns := by rw [Row.mapCells, List.length_map, hlength]
    obtain ⟨first, hfirst, hrewrites⟩ := h.update (f := fun row => some (row.mapCells f)) hindex hold rfl hmapped
    have hline : s.updateLine start (fun row => some (row.mapCells f)) = some first := by
      rw [updateLine, toGridIndex, checkedSub, if_pos hvisible]
      exact hfirst
    obtain ⟨last, hlast, hframed, hlen, hlines, hrest⟩ := ih hrewrites.framed (start + 1)
      (by rw [hrewrites.len, hrewrites.visibleLines]; exact hvisible)
      (by rw [hrewrites.visibleLines]; exact (by omega : start + 1 + count ≤ s.visibleLines))
    refine ⟨last, ?_, hframed, hlen.trans hrewrites.len, hlines.trans hrewrites.visibleLines, ?_⟩
    · rw [List.range'_succ, List.foldlM_cons, hline]
      exact hlast
    · intro line hlt
      have hget := hrest line (by rw [hrewrites.visibleLines]; exact hlt)
      rw [hrewrites.len, hrewrites.visibleLines] at hget
      rw [hget, hrewrites.cells _ (by omega)]
      by_cases heq : line = start
      · subst heq
        rw [if_neg (by omega), if_pos rfl, if_pos (by omega), hcells]
        rfl
      · have hne : ¬ s.len - s.visibleLines + line = s.len - s.visibleLines + start := by omega
        rw [if_neg hne]
        by_cases hin : start + 1 ≤ line ∧ line < start + 1 + count
        · rw [if_pos hin, if_pos (by omega)]
        · rw [if_neg hin, if_neg (by omega)]

end Storage

namespace GridHandler

variable {h after : GridHandler} {cells : List Cell} {point : VisiblePoint} {bg : Color}

/-- The cursor is on the screen, and the storage holds the screen's lines. -/
structure Framed (h : GridHandler) : Prop where
  storage : h.grid.raw.Framed h.columns
  visibleLines : h.grid.raw.visibleLines = h.visibleRows
  rows_le : h.visibleRows ≤ h.grid.raw.len
  row_lt : h.cursor.point.row < h.visibleRows
  col_lt : h.col < h.columns

def screen (h : GridHandler) : List (List Cell) :=
  (List.range h.visibleRows).map fun line => h.grid.raw.cellsAt (h.grid.raw.len - h.visibleRows + line)

theorem getElem?_screen {line : Nat} : h.screen[line]? =
    if line < h.visibleRows then some (h.grid.raw.cellsAt (h.grid.raw.len - h.visibleRows + line)) else none := by
  rw [screen, List.getElem?_map]
  split
  next hlt => rw [List.getElem?_range hlt, Option.map_some]
  next hge => rw [List.getElem?_eq_none (by simpa using hge), Option.map_none]

theorem length_screen : h.screen.length = h.visibleRows := by rw [screen, List.length_map, List.length_range]

def cursorCells (h : GridHandler) : List Cell := h.screen[h.cursor.point.row]?.getD []

theorem Framed.cursorRow (hf : h.Framed) :
    h.cursorRow = some (h.grid.raw.len - h.visibleRows + h.cursor.point.row) := by
  have hrows : h.grid.rows ≤ h.grid.raw.len := hf.rows_le
  rw [GridHandler.cursorRow, GridStorage.historySize, checkedSub, if_pos hrows]
  rfl

theorem Framed.index_lt (hf : h.Framed) : h.grid.raw.len - h.visibleRows + h.cursor.point.row < h.grid.raw.len := by
  have hrows := hf.rows_le
  have hlt := hf.row_lt
  omega

theorem Framed.cursorCells (hf : h.Framed) :
    ∃ row, h.grid.raw.get (h.grid.raw.len - h.visibleRows + h.cursor.point.row) = some row ∧
      row.inner.length = h.columns ∧ h.cursorCells = row.inner := by
  obtain ⟨row, hget, hlength, hcells⟩ := hf.storage.get hf.index_lt
  refine ⟨row, hget, hlength, ?_⟩
  rw [GridHandler.cursorCells, getElem?_screen, if_pos hf.row_lt, Option.getD_some, hcells]

structure SameFrame (h after : GridHandler) : Prop where
  cursor : after.cursor = h.cursor
  rows : after.visibleRows = h.visibleRows
  columns : after.columns = h.columns

theorem SameFrame.bg_eq (hs : h.SameFrame after) : after.bg = h.bg := congrArg (fun cursor => cursor.template.bg) hs.cursor

theorem Framed.editCursorRow (hf : h.Framed) {f : Row → Option Row} {Q : List Cell → Prop}
    (hedit : ∀ row : Row, row.inner.length = h.columns → row.inner = h.cursorCells →
      ∃ new, f row = some new ∧ new.inner.length = h.columns ∧ Q new.inner) :
    ∃ after, h.editCursorRow f = some after ∧ after.Framed ∧ h.SameFrame after ∧
      ∃ cells, Q cells ∧ after.screen = h.screen.set h.cursor.point.row cells := by
  obtain ⟨row, hget, hlength, hline⟩ := hf.cursorCells
  obtain ⟨new, hnew, hnewLength, hq⟩ := hedit row hlength hline.symm
  obtain ⟨raw, hraw, hrewrites⟩ := hf.storage.update hf.index_lt hget hnew hnewLength
  have hrows : (h.withRaw raw).visibleRows = h.visibleRows := rfl
  have hlen : (h.withRaw raw).grid.raw.len = h.grid.raw.len := hrewrites.len
  refine ⟨h.withRaw raw, ?_, ?_, ⟨rfl, rfl, rfl⟩, new.inner, hq, ?_⟩
  · rw [GridHandler.editCursorRow, hf.cursorRow, Option.bind_eq_bind, Option.bind_some, updateRow, hraw]
    rfl
  · exact ⟨hrewrites.framed, hrewrites.visibleLines.trans hf.visibleLines, hlen ▸ hf.rows_le, hf.row_lt, hf.col_lt⟩
  · apply List.ext_getElem?
    intro line
    have hrowsLe := hf.rows_le
    rw [getElem?_screen, List.getElem?_set, getElem?_screen, length_screen, hrows, hlen]
    by_cases hlt : line < h.visibleRows
    · have hcells := hrewrites.cells (h.grid.raw.len - h.visibleRows + line) (by omega)
      rw [if_pos hlt, if_pos hlt, if_pos hf.row_lt]
      by_cases heq : h.cursor.point.row = line
      · rw [if_pos heq]
        rw [if_pos (by omega)] at hcells
        exact congrArg some hcells
      · rw [if_neg heq]
        rw [if_neg (by omega)] at hcells
        exact congrArg some hcells
    · have hne : ¬ h.cursor.point.row = line := fun heq => hlt (heq ▸ hf.row_lt)
      rw [if_neg hlt, if_neg hlt, if_neg hne]

theorem Framed.blankCells (hf : h.Framed) {start stop : Nat} (hle : start ≤ stop) (hstop : stop ≤ h.visibleRows) :
    ∃ after, h.blankCells start stop = some after ∧ after.Framed ∧ h.SameFrame after ∧
      ∀ line, after.screen[line]? =
        if start ≤ line ∧ line < stop then h.screen[line]?.map fun cells => cells.map fun _ => Cell.ofColor h.bg
        else h.screen[line]? := by
  have hvisible := hf.visibleLines
  have hrowsLe := hf.rows_le
  obtain ⟨raw, hraw, hframed, hlen, hlines, hcells⟩ :=
    hf.storage.eachLine (fun _ => Cell.ofColor h.bg) start (stop - start) (by omega) (by omega)
  have hrows : (h.withRaw raw).visibleRows = h.visibleRows := rfl
  have hlen' : (h.withRaw raw).grid.raw.len = h.grid.raw.len := hlen
  refine ⟨h.withRaw raw, ?_, ?_, ⟨rfl, rfl, rfl⟩, ?_⟩
  · rw [GridHandler.blankCells, eachCell, GridStorage.upTo, hraw]
    rfl
  · exact ⟨hframed, hlines.trans hvisible, hlen' ▸ hrowsLe, hf.row_lt, hf.col_lt⟩
  · intro line
    rw [getElem?_screen, getElem?_screen, hrows, hlen']
    by_cases hlt : line < h.visibleRows
    · have hline := hcells line (by omega)
      rw [hvisible] at hline
      rw [Nat.add_sub_cancel' hle] at hline
      rw [if_pos hlt, if_pos hlt, Option.map_some]
      split
      next hin =>
        rw [if_pos hin] at hline
        exact congrArg some hline
      next hout =>
        rw [if_neg hout] at hline
        exact congrArg some hline
    · rw [if_neg hlt, if_neg hlt, Option.map_none, ite_self]

end GridHandler

/-- The calls that edit a line, or the screen up to the cursor or from it on. -/
inductive LineEdit where
  | eraseChars (count : Nat) | insertBlank (count : Nat) | deleteChars (count : Nat)
  | clearLine (mode : Row.LineClearMode)
  | clearAbove | clearBelow

namespace LineEdit

variable {point : VisiblePoint} {bg : Color} {screen : List (List Cell)}

def call (scrollback : Scrollback) : LineEdit → HandlerCall
  | .eraseChars count => .eraseChars count
  | .insertBlank count => .insertBlank count
  | .deleteChars count => .deleteChars count
  | .clearLine mode => .clearLine mode
  | .clearAbove => .clearScreen .above scrollback
  | .clearBelow => .clearScreen .below scrollback

def editedLine (col : Nat) (bg : Color) (cells : List Cell) : LineEdit → List Cell
  | .eraseChars count => blanked col (min (col + count) cells.length) bg cells
  | .insertBlank count => shiftedRight col (min count (cells.length - col)) bg cells
  | .deleteChars count => shiftedLeft col (min count (cells.length - col)) bg cells
  | .clearLine .right | .clearBelow => blanked col cells.length bg cells
  | .clearLine .left | .clearAbove => blanked 0 (col + 1) bg cells
  | .clearLine .all => blanked 0 cells.length bg cells

def Blanks (row line : Nat) : LineEdit → Prop
  | .clearAbove => line < row
  | .clearBelow => row < line
  | _ => False

instance (row line : Nat) : (edit : LineEdit) → Decidable (edit.Blanks row line)
  | .clearAbove => inferInstanceAs (Decidable (line < row))
  | .clearBelow => inferInstanceAs (Decidable (row < line))
  | .eraseChars _ | .insertBlank _ | .deleteChars _ | .clearLine _ => inferInstanceAs (Decidable False)

def edited (edit : LineEdit) (point : VisiblePoint) (bg : Color) (screen : List (List Cell)) : List (List Cell) :=
  screen.mapIdx fun line cells =>
    if line = point.row then edit.editedLine point.col bg cells
    else if edit.Blanks point.row line then cells.map fun _ => Cell.ofColor bg
    else cells

/-- The edit changes no cell of the cursor's line that it should not, and misses none. -/
def CleanLine (col : Nat) (bg : Color) (cells : List Cell) : LineEdit → Prop
  | .eraseChars count => count = 0 ∨ RangeClean cells bg col (min (col + count) cells.length)
  | .insertBlank count => Row.InsertsClean cells bg col count
  | .deleteChars count => Row.DeletesClean cells bg col count
  | .clearLine .right | .clearBelow => LeftClean cells bg col
  | .clearLine .left | .clearAbove => NoStray cells (col + 1)
  | .clearLine .all => True

/-- `clear_screen` above the second line leaves the first one as it is. -/
def CleanAbove (row : Nat) (bg : Color) (screen : List (List Cell)) : LineEdit → Prop
  | .clearAbove => row = 1 → ∀ cells ∈ screen[0]?, ∀ cell ∈ cells, cell = Cell.ofColor bg
  | _ => True

/-- The state in which the edit does what it should, and no more. -/
def Clean (edit : LineEdit) (point : VisiblePoint) (bg : Color) (screen : List (List Cell)) : Prop :=
  edit.CleanLine point.col bg (screen[point.row]?.getD []) ∧ edit.CleanAbove point.row bg screen

variable {edit : LineEdit}

theorem getElem?_edited {line : Nat} (hline : line ≠ point.row) : (edit.edited point bg screen)[line]? =
    if edit.Blanks point.row line then screen[line]?.map fun cells => cells.map fun _ => Cell.ofColor bg
    else screen[line]? := by
  rw [edited, List.getElem?_mapIdx]
  simp only [if_neg hline]
  split
  next => rfl
  next => exact Option.map_id'

variable {cells : List Cell}

theorem eq_edited_iff (hrow : point.row < screen.length) {final : List (List Cell)}
    (hat : final[point.row]? = some cells)
    (hother : ∀ line, line ≠ point.row → final[line]? = (edit.edited point bg screen)[line]?) :
    final = edit.edited point bg screen ↔ cells = edit.editedLine point.col bg (screen[point.row]?.getD []) := by
  have hline : (edit.edited point bg screen)[point.row]? =
      some (edit.editedLine point.col bg (screen[point.row]?.getD [])) := by
    rw [edited, List.getElem?_mapIdx, List.getElem?_eq_getElem hrow]
    simp
  constructor
  · intro h
    rw [h, hline] at hat
    exact (Option.some.inj hat).symm
  · rintro rfl
    apply List.ext_getElem?
    intro line
    by_cases heq : line = point.row
    · rw [heq, hat, hline]
    · exact hother line heq

theorem edited_of_line (hrow : point.row < screen.length) (hblanks : ∀ line, ¬ edit.Blanks point.row line) : screen.set point.row cells = edit.edited point bg screen ↔
      cells = edit.editedLine point.col bg (screen[point.row]?.getD []) := by
  apply eq_edited_iff hrow (List.getElem?_set_self hrow)
  intro line hline
  rw [List.getElem?_set_ne (Ne.symm hline), getElem?_edited hline, if_neg (hblanks line)]

end LineEdit

namespace GridHandler

variable {h : GridHandler} {width : UnicodeWidth} {scrollback : Scrollback}

theorem Framed.editLine (hf : h.Framed) {edit : LineEdit} {f : Row → Option Row}
    (hblanks : ∀ line, ¬ edit.Blanks h.cursor.point.row line) (habove : edit.CleanAbove h.cursor.point.row h.bg h.screen)
    (hspec : ∀ row : Row, row.inner.length = h.columns → ∃ new, f row = some new ∧ new.inner.length = h.columns ∧
      (new.inner = edit.editedLine h.col h.bg row.inner ↔ edit.CleanLine h.col h.bg row.inner)) :
    ∃ after, h.editCursorRow f = some after ∧
      (after.screen = edit.edited h.cursor.point h.bg h.screen ↔ edit.Clean h.cursor.point h.bg h.screen) := by
  obtain ⟨after, hafter, -, -, cells, hcells, hscreen⟩ := hf.editCursorRow (f := f)
    (Q := fun cells => cells = edit.editedLine h.col h.bg h.cursorCells ↔ edit.CleanLine h.col h.bg h.cursorCells) (by
      intro row hlength hrow
      obtain ⟨new, hnew, hnewLength, hiff⟩ := hspec row hlength
      exact ⟨new, hnew, hnewLength, hrow ▸ hiff⟩)
  have hrow : h.cursor.point.row < h.screen.length := length_screen ▸ hf.row_lt
  refine ⟨after, hafter, ?_⟩
  rw [hscreen, LineEdit.edited_of_line hrow hblanks, LineEdit.Clean, and_iff_left habove]
  exact hcells

theorem Framed.clearBelow (hf : h.Framed) : ∃ after, h.clearBelow = some after ∧
    (after.screen = LineEdit.clearBelow.edited h.cursor.point h.bg h.screen ↔
      LineEdit.clearBelow.Clean h.cursor.point h.bg h.screen) := by
  obtain ⟨first, hfirst, hframed, hsame, cells, hcells, hscreen⟩ := hf.editCursorRow
    (f := (·.clearLine h.columns h.col .right h.bg))
    (Q := fun cells => cells = LineEdit.clearBelow.editedLine h.col h.bg h.cursorCells ↔
      LineEdit.clearBelow.CleanLine h.col h.bg h.cursorCells) (by
      intro row hlength hrow
      obtain ⟨new, hnew, hnewLength, hiff⟩ := Row.clearRight_spec h.bg hlength hf.col_lt
      refine ⟨new, hnew, hnewLength, ?_⟩
      rw [← hrow, LineEdit.editedLine, hlength]
      exact hiff)
  have hrow : h.cursor.point.row < h.screen.length := length_screen ▸ hf.row_lt
  have hrowLt := hf.row_lt
  have hclean : LineEdit.clearBelow.Clean h.cursor.point h.bg h.screen ↔
      LineEdit.clearBelow.CleanLine h.col h.bg h.cursorCells := and_iff_left trivial
  have hlast : checkedSub first.visibleRows 1 = some (h.visibleRows - 1) := by
    rw [hsame.rows, checkedSub, if_pos (by omega)]
  have hend : ∀ line, (if h.cursor.point.row + 1 ≤ line ∧ line < h.visibleRows then
      h.screen[line]?.map fun cells => cells.map fun _ => Cell.ofColor h.bg else h.screen[line]?) =
      if LineEdit.clearBelow.Blanks h.cursor.point.row line then
        h.screen[line]?.map fun cells => cells.map fun _ => Cell.ofColor h.bg
      else h.screen[line]? := by
    intro line
    by_cases hlt : line < h.visibleRows
    · simp [hlt, LineEdit.Blanks, Nat.succ_le_iff]
    · have hnone : h.screen[line]? = none := by rw [getElem?_screen, if_neg hlt]
      simp [hnone]
  rw [GridHandler.clearBelow, hfirst]
  simp only [Option.bind_eq_bind, Option.bind_some, hlast, hsame.cursor, hclean]
  split
  next hlt =>
    have hle : h.cursor.point.row + 1 ≤ first.visibleRows := by
      rw [hsame.rows]
      omega
    obtain ⟨after, hafter, -, -, hblank⟩ := hframed.blankCells hle (Nat.le_refl _)
    refine ⟨after, hafter, ?_⟩
    rw [← hcells]
    apply LineEdit.eq_edited_iff hrow
    · rw [hblank, if_neg (by omega), hscreen, List.getElem?_set_self hrow]
    · intro line hline
      rw [hblank, hscreen, List.getElem?_set_ne (Ne.symm hline), LineEdit.getElem?_edited hline, hsame.bg_eq, hsame.rows,
        hend line]
  next hge =>
    refine ⟨first, rfl, ?_⟩
    rw [← hcells, hscreen]
    apply LineEdit.eq_edited_iff hrow (List.getElem?_set_self hrow)
    intro line hline
    rw [List.getElem?_set_ne (Ne.symm hline), LineEdit.getElem?_edited hline, ← hend line, if_neg (by omega)]

theorem Framed.clearAbove (hf : h.Framed) : ∃ after, h.clearAbove = some after ∧
    (after.screen = LineEdit.clearAbove.edited h.cursor.point h.bg h.screen ↔
      LineEdit.clearAbove.Clean h.cursor.point h.bg h.screen) := by
  have hrowLt := hf.row_lt
  have hrow : h.cursor.point.row < h.screen.length := length_screen ▸ hrowLt
  have hstop : (if h.cursor.point.row > 1 then h.cursor.point.row else 0) ≤ h.visibleRows := by
    split <;> omega
  obtain ⟨first, hfirst, hframed, hsame, hblank⟩ := hf.blankCells (Nat.zero_le _) hstop
  have hline : first.cursorCells = h.cursorCells := by
    rw [GridHandler.cursorCells, GridHandler.cursorCells, hsame.cursor, hblank, if_neg (by split <;> omega)]
  obtain ⟨after, hafter, -, -, cells, hcells, hscreen⟩ := hframed.editCursorRow
    (f := (·.clearUpTo first.columns first.col first.bg))
    (Q := fun cells => cells = LineEdit.clearAbove.editedLine h.col h.bg h.cursorCells ↔
      LineEdit.clearAbove.CleanLine h.col h.bg h.cursorCells) (by
      intro row hlength hrow
      obtain ⟨new, hnew, hnewLength, hiff⟩ := Row.clearUpTo_spec first.bg hlength hframed.col_lt
      refine ⟨new, hnew, hnewLength, ?_⟩
      have hcol : first.col = h.col := congrArg (fun cursor => cursor.point.col) hsame.cursor
      rw [hcol, hsame.bg_eq, hrow, hline] at hiff
      exact hiff)
  refine ⟨after, ?_, ?_⟩
  · rw [GridHandler.clearAbove]
    simp only [hfirst, Option.bind_eq_bind, Option.bind_some]
    exact hafter
  · have hscreen' : after.screen = first.screen.set h.cursor.point.row cells := by rw [hscreen, hsame.cursor]
    have hat : after.screen[h.cursor.point.row]? = some cells := by
      rw [hscreen', List.getElem?_set_self (by rw [length_screen, hsame.rows]; exact hrowLt)]
    have hother : ∀ line, line ≠ h.cursor.point.row → after.screen[line]? = first.screen[line]? := by
      intro line hline
      rw [hscreen', List.getElem?_set_ne (Ne.symm hline)]
    have hright : (∀ line, line ≠ h.cursor.point.row →
        after.screen[line]? = (LineEdit.clearAbove.edited h.cursor.point h.bg h.screen)[line]?) ↔
        LineEdit.clearAbove.CleanAbove h.cursor.point.row h.bg h.screen := by
      constructor
      · intro hagree hone cells hcells cell hcell
        have hzero := hagree 0 (by omega)
        rw [hother 0 (by omega), hblank, LineEdit.getElem?_edited (by omega), hone, if_neg (by simp),
          show h.screen[0]? = some cells from hcells, if_pos (show LineEdit.clearAbove.Blanks 1 0 from Nat.one_pos)] at hzero
        rw [Option.some.inj hzero] at hcell
        obtain ⟨-, -, rfl⟩ := List.mem_map.mp hcell
        rfl
      · intro habove line hline
        rw [hother line hline, hblank, LineEdit.getElem?_edited hline]
        by_cases hone : h.cursor.point.row = 1
        · rw [hone, if_neg (by simp)]
          split
          next hzero =>
            obtain rfl : line = 0 := Nat.lt_one_iff.mp hzero
            cases hcells : h.screen[0]? with
            | none => rfl
            | some cells =>
              have hall := habove hone cells hcells
              rw [Option.map_some, List.map_congr_left fun cell hcell => (hall cell hcell).symm, List.map_id']
          next => rfl
        · have hsame : (0 ≤ line ∧ line < if h.cursor.point.row > 1 then h.cursor.point.row else 0) ↔
              LineEdit.clearAbove.Blanks h.cursor.point.row line := by
            rw [LineEdit.Blanks]
            split <;> omega
          simp only [hsame]
    rw [LineEdit.Clean, ← hright]
    constructor
    · intro heq
      refine ⟨hcells.mp ((LineEdit.eq_edited_iff hrow hat fun line _ => by rw [heq]).mp heq), ?_⟩
      intro line _
      rw [heq]
    · rintro ⟨hclean, hagree⟩
      exact (LineEdit.eq_edited_iff hrow hat hagree).mpr (hcells.mpr hclean)

theorem Framed.clearLine (hf : h.Framed) (mode : Row.LineClearMode) : ∃ after, h.clearLine mode = some after ∧
    (after.screen = (LineEdit.clearLine mode).edited h.cursor.point h.bg h.screen ↔
      (LineEdit.clearLine mode).Clean h.cursor.point h.bg h.screen) := by
  refine hf.editLine ?_ trivial ?_
  · exact fun _ => id
  intro row hlength
  cases mode with
  | right =>
    obtain ⟨new, hnew, hnewLength, hiff⟩ := Row.clearRight_spec h.bg hlength hf.col_lt
    refine ⟨new, hnew, hnewLength, ?_⟩
    rw [LineEdit.editedLine, hlength]
    exact hiff
  | left => exact Row.clearLeft_spec h.bg hlength hf.col_lt
  | all =>
    obtain ⟨new, hnew, hnewLength, hinner⟩ := Row.clearLine_all h.bg hlength hf.col_lt
    refine ⟨new, hnew, hnewLength, iff_of_true ?_ trivial⟩
    rw [LineEdit.editedLine, hlength]
    exact hinner

/-- A line edit changes what it should, and no more, exactly in the states that are clean for it. -/
theorem line_edit_exact_iff (width : UnicodeWidth) (scrollback : Scrollback) (hf : h.Framed) (edit : LineEdit) :
    ∃ after, h.handle width (edit.call scrollback) = some after ∧
      (after.screen = edit.edited h.cursor.point h.bg h.screen ↔ edit.Clean h.cursor.point h.bg h.screen) := by
  cases edit with
  | eraseChars count =>
    refine hf.editLine ?_ trivial ?_
    · exact fun _ => id
    intro row hlength
    obtain ⟨new, hnew, hnewLength, hiff⟩ := Row.eraseChars_spec h.bg hlength hf.col_lt count
    refine ⟨new, hnew, hnewLength, ?_⟩
    rw [LineEdit.editedLine, LineEdit.CleanLine, hlength]
    exact hiff
  | insertBlank count =>
    refine hf.editLine ?_ trivial ?_
    · exact fun _ => id
    intro row hlength
    obtain ⟨new, hnew, hnewLength, hiff⟩ := Row.insertBlank_spec h.bg hlength hf.col_lt count
    refine ⟨new, hnew, hnewLength, ?_⟩
    rw [LineEdit.editedLine, hlength]
    exact hiff
  | deleteChars count =>
    refine hf.editLine ?_ trivial ?_
    · exact fun _ => id
    intro row hlength
    obtain ⟨new, hnew, hnewLength, hiff⟩ := Row.deleteChars_spec h.bg hlength hf.col_lt count
    refine ⟨new, hnew, hnewLength, ?_⟩
    rw [LineEdit.editedLine, hlength]
    exact hiff
  | clearLine mode => exact hf.clearLine mode
  | clearAbove => exact hf.clearAbove
  | clearBelow => exact hf.clearBelow

def twoLines : GridHandler :=
  ((new 2 6 true false .scroll).run plainWidth
    [.input 'a', .input 'b', .input '中', .newline, .carriageReturn, .input 'c', .input 'd', .goto 0 2]).getD
      (new 2 6 true false .scroll)

theorem twoLines_framed : twoLines.Framed where
  storage := ⟨by decide +kernel, by decide +kernel, by decide +kernel⟩
  visibleLines := by decide +kernel
  rows_le := by decide +kernel
  row_lt := by decide +kernel
  col_lt := by decide +kernel

theorem line_edit_exact_erased : ∃ after, twoLines.handle plainWidth (.eraseChars 1) = some after ∧
    after.screen = (LineEdit.eraseChars 1).edited twoLines.cursor.point twoLines.bg twoLines.screen := by
  obtain ⟨after, hafter, hiff⟩ := line_edit_exact_iff plainWidth ⟨false, 0⟩ twoLines_framed (.eraseChars 1)
  exact ⟨after, hafter, hiff.mpr ⟨.inr (by decide +kernel), trivial⟩⟩

/-- A wide character at the cursor is lost instead of shifted, a long deletion reaches before the cursor, and the first
line stays. -/
theorem line_edits_beyond_range :
    (twoLines.handle plainWidth (.insertBlank 1)).map screen ≠
        some ((LineEdit.insertBlank 1).edited ⟨0, 2⟩ (.named .background) twoLines.screen) ∧
      (twoLines.handle plainWidth (.deleteChars 5)).map screen ≠
        some ((LineEdit.deleteChars 5).edited ⟨0, 2⟩ (.named .background) twoLines.screen) ∧
      (twoLines.run plainWidth [.goto 1 0, .clearScreen .above ⟨false, 0⟩]).map screen ≠
        some (LineEdit.clearAbove.edited ⟨1, 0⟩ (.named .background) twoLines.screen) := by
  decide +kernel

end GridHandler

end InfiniShell.Terminal
