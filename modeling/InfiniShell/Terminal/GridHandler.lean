import InfiniShell.Terminal.RowEditing

namespace InfiniShell.Terminal

namespace Storage

/-- `take_all` and `replace_inner` with what becomes of the rows. -/
def replaceRows (s : Storage) (f : List Row → Option (List Row)) : Option Storage := do
  let inner ← f s.truncateUnusedRows.inner
  some { s with inner, bottomRow := 0, len := inner.length }

def updateLine (s : Storage) (line : Nat) (f : Row → Option Row) : Option Storage := do
  let index ← s.toGridIndex line
  s.update index f

end Storage

namespace GridStorage

def updateMaxCursor (grid : GridStorage) : GridStorage :=
  let point := grid.cursor.point
  if point.row ≥ grid.rows then grid
  else if point.row > grid.maxCursorPoint.row ∨
      point.row = grid.maxCursorPoint.row ∧ point.col > grid.maxCursorPoint.col then
    { grid with maxCursorPoint := point }
  else grid

def clearHistory (grid : GridStorage) : Option GridStorage := do
  let history ← grid.historySize
  let raw ← grid.raw.shrinkLines history
  some { grid with raw }

def clearAndResetSavingCursorLine (grid : GridStorage) : Option GridStorage := do
  let grid ← grid.clearHistory
  let raw ← grid.raw.swapLines grid.cursor.point.row 0
  let raw ← (upTo 1 raw.len).foldlM (resetRow {}) raw
  some { grid with raw, cursor := { grid.cursor with point := { grid.cursor.point with row := 0 } } }

def reset (grid : GridStorage) : Option GridStorage := do
  let grid ← grid.clearHistory
  let raw ← (upTo 0 grid.raw.len).foldlM (resetRow {}) grid.raw
  some { grid with raw, savedCursor := {}, cursor := {}, maxCursorPoint := {} }

/-- `grow_cols` without reflow. -/
def growCols (grid : GridStorage) (columns : Nat) : Option GridStorage := do
  let missing := grid.rows - grid.raw.truncateUnusedRows.inner.length
  let raw ← grid.raw.replaceRows fun rows =>
    some ((List.replicate missing (Row.new columns) ++ rows).map (·.grow columns))
  let lift := fun point : VisiblePoint => { point with row := point.row - missing }
  let cursor := { grid.cursor with point := lift grid.cursor.point }
  let lastRow ← checkedSub grid.rows 1
  if cursor.point.row ≤ lastRow then
    some { grid with raw, columns, cursor, maxCursorPoint := lift grid.maxCursorPoint }
  else none

/-- `shrink_cols` without reflow. -/
def shrinkCols (grid : GridStorage) (columns : Nat) : Option GridStorage := do
  let raw ← grid.raw.replaceRows fun rows => do
    let rows ← rows.mapM (·.shrinkWithoutReflow columns)
    some (rows.take (grid.maxScrollLimit + grid.rows))
  let lastCol ← checkedSub columns 1
  let clamp := fun point : VisiblePoint => { point with col := min point.col lastCol }
  some { grid with
    raw
    columns
    cursor := { grid.cursor with point := clamp grid.cursor.point }
    maxCursorPoint := clamp grid.maxCursorPoint
    savedCursor := { grid.savedCursor with point := clamp grid.savedCursor.point } }

def changeCols (grid : GridStorage) (columns : Nat) : Option GridStorage :=
  match compare grid.columns columns with
  | .lt => grid.growCols columns
  | .gt => grid.shrinkCols columns
  | .eq => some grid

def resize (grid : GridStorage) (lines columns : Nat) (finished : Bool) : Option GridStorage :=
  if lines = 0 then some grid
  else do
    let resized ← (grid.withTemplate {}).changeCols columns
    let resized ← resized.changeLines (resized.targetLines lines finished)
    some (resized.withTemplate grid.cursor.template)

end GridStorage

/-- The widths of the `unicode-width` crate: of a control character there is none. -/
structure UnicodeWidth where
  ofChar : Char → Option (Fin 3)
  ofStr : String → Nat

def UnicodeWidth.ofCell (width : UnicodeWidth) (cell : Cell) : Option Nat :=
  match cell.rawContent with
  | .str s => some (width.ofStr s)
  | .char c => (width.ofChar c).map Fin.val

structure TermMode where
  lineWrap : Bool := true
  lineFeedNewLine : Bool := false
  origin : Bool := false
  insert : Bool := false
deriving DecidableEq

inductive Mode where
  | lineWrap | lineFeedNewLine | origin | insert | deccolm
  | other

inductive Attr where
  | reset
  | foreground (color : Color) | background (color : Color)
  | reverse | cancelReverse | bold | cancelBold | dim | cancelBoldDim | italic | cancelItalic
  | underline | doubleUnderline | cancelUnderline | hidden | cancelHidden | strike | cancelStrike
  | other

def Attr.apply (attr : Attr) (template : Cell) : Cell :=
  let flags := template.flags
  match attr with
  | .reset => { template with fg := .named .foreground, bg := .named .background, flags := {} }
  | .foreground color => { template with fg := color }
  | .background color => { template with bg := color }
  | .reverse => { template with flags := { flags with inverse := true } }
  | .cancelReverse => { template with flags := { flags with inverse := false } }
  | .bold => { template with flags := { flags with bold := true } }
  | .cancelBold => { template with flags := { flags with bold := false } }
  | .dim => { template with flags := { flags with dim := true } }
  | .cancelBoldDim => { template with flags := { flags with bold := false, dim := false } }
  | .italic => { template with flags := { flags with italic := true } }
  | .cancelItalic => { template with flags := { flags with italic := false } }
  | .underline => { template with flags := { flags with doubleUnderline := false, underline := true } }
  | .doubleUnderline => { template with flags := { flags with underline := false, doubleUnderline := true } }
  | .cancelUnderline => { template with flags := { flags with underline := false, doubleUnderline := false } }
  | .hidden => { template with flags := { flags with hidden := true } }
  | .cancelHidden => { template with flags := { flags with hidden := false } }
  | .strike => { template with flags := { flags with strikeout := true } }
  | .cancelStrike => { template with flags := { flags with strikeout := false } }
  | .other => template

def initialTabstops : Nat := 8

def newTabs (numCols : Nat) : List Bool := (List.range numCols).map fun i => decide (i % initialTabstops = 0)

def resizeTabs (tabs : List Bool) (numCols : Nat) : List Bool :=
  tabs.take numCols ++
    (List.range' tabs.length (numCols - tabs.length)).map fun i => decide (i % initialTabstops = 0)

inductive FullGridClearBehavior where
  | clear | scroll
deriving DecidableEq

inductive ClearMode where
  | above | below | all | saved | resetAndClear | activeBlock

/-- Whether there are rows in the scrollback, and where the search of `clear_viewport` ends. -/
structure Scrollback where
  hasRows : Bool
  viewportRow : Nat

/-- `GridHandler` with the fields of its handler state that the screen depends on. -/
structure GridHandler where
  grid : GridStorage
  mode : TermMode := {}
  tabs : List Bool
  activeCharset : CharsetIndex := .g0
  scrollRegion : Region
  isAltScreen : Bool
  supportsEmojiPresentationSelector : Bool := true
  activeHyperlinkId : Option Nat := none
  fullGridClearBehavior : FullGridClearBehavior
  finished : Bool := false
deriving DecidableEq

namespace GridHandler

/-- A blank grid. Its own scroll limit is 0: the scrollback is kept apart. -/
def new (rows columns : Nat) (isSequential isAltScreen : Bool) (behavior : FullGridClearBehavior) :
    GridHandler where
  grid := GridStorage.new rows columns 0 isSequential
  tabs := newTabs columns
  scrollRegion := ⟨0, rows⟩
  isAltScreen := isAltScreen
  fullGridClearBehavior := behavior

def columns (h : GridHandler) : Nat := h.grid.columns

def visibleRows (h : GridHandler) : Nat := h.grid.rows

def cursor (h : GridHandler) : Cursor := h.grid.cursor

def col (h : GridHandler) : Nat := h.grid.cursor.point.col

def bg (h : GridHandler) : Color := h.grid.cursor.template.bg

/-- `move_cursor_forward_unchecked` -/
def setCursor (h : GridHandler) (f : Cursor → Cursor) : GridHandler :=
  { h with grid := { h.grid with cursor := f h.grid.cursor } }

def updateCursor (h : GridHandler) (f : Cursor → Cursor) : GridHandler :=
  { h with grid := h.grid.updateMaxCursor }.setCursor f

def movePoint (f : VisiblePoint → VisiblePoint) (cursor : Cursor) : Cursor := { cursor with point := f cursor.point }

def moveCursorForward (h : GridHandler) (f : Cursor → Cursor) : Option GridHandler :=
  let old := h.cursor.point
  let new := (f h.cursor).point
  if old.row < new.row ∨ old.row = new.row ∧ old.col ≤ new.col then some (h.setCursor f) else none

/-- The row of `cursor_point` in the grid. -/
def cursorRow (h : GridHandler) : Option Nat := h.grid.historySize.map (· + h.grid.cursor.point.row)

def cell (h : GridHandler) (row col : Nat) : Option Cell := do
  let row ← h.grid.raw.get row
  row.inner[col]?

def withRaw (h : GridHandler) (raw : Storage) : GridHandler := { h with grid := { h.grid with raw } }

def updateRow (h : GridHandler) (row : Nat) (f : Row → Option Row) : Option GridHandler :=
  (h.grid.raw.update row f).map h.withRaw

def editCursorRow (h : GridHandler) (f : Row → Option Row) : Option GridHandler := do
  let row ← h.cursorRow
  h.updateRow row f

/-- `cursor_cell`: a cursor outside of the grid stands for the last cell. -/
def updateCursorCell (h : GridHandler) (f : Cell → Cell) : Option GridHandler := do
  let row ← h.cursorRow
  if row ≥ h.grid.raw.len ∨ h.col ≥ h.columns then
    h.updateRow (h.grid.raw.len - 1) (·.modify (h.columns - 1) f)
  else h.updateRow row (·.modify h.col f)

/-- `region_mut(start..stop).each(f)` -/
def eachCell (h : GridHandler) (start stop : Nat) (f : Cell → Cell) : Option GridHandler :=
  ((GridStorage.upTo start stop).foldlM
    (fun (raw : Storage) line => raw.updateLine line fun row => some (row.mapCells f)) h.grid.raw).map h.withRaw

def scrollUpRelative (h : GridHandler) (origin lines : Nat) : Option GridHandler := do
  let height ← checkedSub h.scrollRegion.stop h.scrollRegion.start
  let grid ← h.grid.scrollUp ⟨origin, h.scrollRegion.stop⟩ (min lines height)
  some { h with grid }

def scrollDownRelative (h : GridHandler) (origin lines : Nat) : Option GridHandler := do
  let height ← checkedSub h.scrollRegion.stop h.scrollRegion.start
  let room ← checkedSub h.scrollRegion.stop origin
  let grid ← h.grid.scrollDown ⟨origin, h.scrollRegion.stop⟩ (min (min lines height) room)
  some { h with grid }

def scrollUp (h : GridHandler) (lines : Nat) : Option GridHandler := h.scrollUpRelative h.scrollRegion.start lines

def scrollDown (h : GridHandler) (lines : Nat) : Option GridHandler :=
  h.scrollDownRelative h.scrollRegion.start lines

def linefeed (h : GridHandler) : Option GridHandler :=
  let next := h.cursor.point.row + 1
  if next = h.scrollRegion.stop then h.scrollUp 1
  else if next < h.visibleRows then h.moveCursorForward (movePoint fun p => { p with row := p.row + 1 })
  else some h

def nextLine (h : GridHandler) : Option GridHandler :=
  if h.cursor.point.row + 1 ≥ h.scrollRegion.stop then h.linefeed
  else h.moveCursorForward (movePoint fun p => { p with row := p.row + 1 })

def wrapline (h : GridHandler) : Option GridHandler :=
  if h.mode.lineWrap = false then some h
  else do
    let h ← h.updateCursorCell fun cell => { cell with flags := { cell.flags with wrapline := true } }
    let h ← h.nextLine
    some (h.setCursor fun cursor =>
      { cursor with point := { cursor.point with col := 0 }, inputNeedsWrap := false })

def advanceCursorByOneCell (h : GridHandler) : Option GridHandler :=
  h.moveCursorForward fun cursor =>
    if cursor.point.col + 1 < h.columns then movePoint (fun p => { p with col := p.col + 1 }) cursor
    else { cursor with inputNeedsWrap := true }

def newCell (h : GridHandler) (c : Char) (cell : Cell) : Cell :=
  let template := h.cursor.template
  Cell.setHyperlinkId
    { cell.dropExtra with
      c := (h.cursor.charsets.get h.activeCharset).map c
      fg := template.fg
      bg := template.bg
      flags := template.flags }
    h.activeHyperlinkId

/-- A wide character that had to wrap leaves a leading spacer at the end of the row before. -/
def dropLeadingSpacer (h : GridHandler) (row col : Nat) (flags : Flags) : Option GridHandler :=
  if 0 < row ∧ (col = 0 ∧ flags.wideChar ∨ col = 1 ∧ flags.wideCharSpacer) then
    h.updateRow (row - 1) (·.modify (h.columns - 1) fun cell =>
      { cell with flags := { cell.flags with leadingWideCharSpacer := false } })
  else some h

def writeAtCursor (h : GridHandler) (c : Char) (f : Cell → Cell) : Option GridHandler := do
  let row ← h.cursorRow
  let cell ← h.cell row h.col
  let h ← h.dropLeadingSpacer row h.col cell.flags
  h.updateRow row (·.write h.columns h.col h.bg fun cell => f (h.newCell c cell))

def leadingSpacer (cell : Cell) : Cell :=
  Cell.setHyperlinkId { cell with flags := { cell.flags with leadingWideCharSpacer := true } } none

def wideCell (f : Cell → Cell) (cell : Cell) : Cell :=
  let cell := f cell
  { cell with flags := { cell.flags with wideChar := true } }

def spacerCell (hyperlinkId : Option Nat) (cell : Cell) : Cell :=
  Cell.setHyperlinkId { cell with flags := { cell.flags with wideCharSpacer := true } } hyperlinkId

def writeWidePair (h : GridHandler) (c : Char) (f : Cell → Cell) : Option GridHandler := do
  let h ← h.writeAtCursor c (wideCell f)
  let row ← h.cursorRow
  let wide ← h.cell row h.col
  let h ← h.moveCursorForward (movePoint fun p => { p with col := p.col + 1 })
  let h ← h.writeAtCursor defaultChar (spacerCell wide.hyperlinkId)
  h.advanceCursorByOneCell

def writeWideChar (h : GridHandler) (c : Char) (f : Cell → Cell) : Option GridHandler :=
  if h.col + 1 ≥ h.columns then
    if h.mode.lineWrap = false then h.moveCursorForward fun cursor => { cursor with inputNeedsWrap := true }
    else do
      let h ← h.writeAtCursor defaultChar leadingSpacer
      let h ← h.wrapline
      h.writeWidePair c f
  else h.writeWidePair c f

def zeroWidthCol (h : GridHandler) (row : Nat) : Option Nat := do
  let col := if h.cursor.inputNeedsWrap then h.col else h.col - 1
  let cell ← h.cell row col
  some (if cell.flags.wideCharSpacer then col - 1 else col)

/-- The zero-width character has made the cell's content wide. -/
def promoteCell (h : GridHandler) (row col : Nat) (c : Char) (wide : Cell) : Option GridHandler := do
  let h ← h.updateRow row (·.put col {})
  if col + 1 = h.columns ∧ h.mode.lineWrap = false then
    let (cell, popped) := wide.popZerowidth
    if popped = some c then h.updateRow row (·.put col cell) else none
  else
    let flags := { wide.flags with wideCharSpacer := false, leadingWideCharSpacer := false, wrapline := false }
    (h.updateCursor (movePoint fun p => { p with col })).writeWideChar wide.c fun _ => { wide with flags }

def inputZeroWidth (width : UnicodeWidth) (h : GridHandler) (c : Char) : Option GridHandler := do
  let row ← h.cursorRow
  let col ← h.zeroWidthCol row
  let cell ← h.cell row col
  match width.ofCell cell with
  | none => some h
  | some oldWidth =>
    let (pushed, accepted) := cell.pushZerowidth c
    let h ← h.updateRow row (·.put col pushed)
    if accepted = false then some h
    else
      match width.ofCell pushed with
      | none => some h
      | some newWidth =>
        if oldWidth ≠ newWidth ∧ newWidth = 2 ∧ h.supportsEmojiPresentationSelector then
          h.promoteCell row col c pushed
        else some h

def wrapIfNeeded (h : GridHandler) : Option GridHandler := if h.cursor.inputNeedsWrap then h.wrapline else some h

def makeRoom (h : GridHandler) (width : Nat) : Option GridHandler :=
  if h.mode.insert ∧ h.col + width < h.columns then
    h.editCursorRow (·.makeRoom h.columns width h.col h.bg)
  else some h

def input (width : UnicodeWidth) (h : GridHandler) (c : Char) : Option GridHandler :=
  match width.ofChar c with
  | none => some h
  | some 0 => h.inputZeroWidth width c
  | some 1 => do
    let h ← h.wrapIfNeeded
    let h ← h.makeRoom 1
    let h ← h.writeAtCursor c id
    h.advanceCursorByOneCell
  | some 2 => do
    let h ← h.wrapIfNeeded
    let h ← h.makeRoom 2
    h.writeWideChar c id

end GridHandler

end InfiniShell.Terminal
