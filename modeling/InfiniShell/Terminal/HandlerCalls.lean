import InfiniShell.Terminal.GridHandler

namespace InfiniShell.Terminal

namespace GridHandler

def goto (h : GridHandler) (row column : Nat) : Option GridHandler := do
  let stop := if h.mode.origin then h.scrollRegion.stop else h.visibleRows
  let yOffset := if h.mode.origin then h.scrollRegion.start else 0
  let maxY ← checkedSub stop 1
  some (h.updateCursor fun cursor =>
    { cursor with point := ⟨min (row + yOffset) maxY, min column (h.columns - 1)⟩, inputNeedsWrap := false })

def gotoLine (h : GridHandler) (row : Nat) : Option GridHandler := h.goto row h.col

def gotoCol (h : GridHandler) (column : Nat) : Option GridHandler := h.goto h.cursor.point.row column

def insertBlank (h : GridHandler) (count : Nat) : Option GridHandler :=
  h.editCursorRow (·.insertBlank h.columns h.col count h.bg)

def moveUp (h : GridHandler) (lines : Nat) : Option GridHandler := h.goto (h.cursor.point.row - lines) h.col

def moveDown (h : GridHandler) (lines : Nat) : Option GridHandler := h.goto (h.cursor.point.row + lines) h.col

def moveForward (h : GridHandler) (columns : Nat) : Option GridHandler :=
  h.moveCursorForward fun cursor =>
    { cursor with
      point := { cursor.point with col := min (cursor.point.col + columns) (h.columns - 1) }
      inputNeedsWrap := false }

def moveBackward (h : GridHandler) (columns : Nat) : GridHandler :=
  h.updateCursor fun cursor =>
    { cursor with point := { cursor.point with col := cursor.point.col - columns }, inputNeedsWrap := false }

def moveDownAndCr (h : GridHandler) (lines : Nat) : Option GridHandler := h.goto (h.cursor.point.row + lines) 0

def moveUpAndCr (h : GridHandler) (lines : Nat) : Option GridHandler := h.goto (h.cursor.point.row - lines) 0

/-- The inner loop of `put_tab`: forward to the next tab stop or the last column. -/
def nextTabstop (tabs : List Bool) (columns : Nat) : Nat → Nat → Option Nat
  | 0, col => some col
  | fuel + 1, col =>
    if col + 1 = columns then some col
    else do
      let tabstop ← tabs[col + 1]?
      if tabstop then some (col + 1) else nextTabstop tabs columns fuel (col + 1)

def markTab (h : GridHandler) : Option GridHandler :=
  let c := (h.cursor.charsets.get h.activeCharset).map '\t'
  h.updateCursorCell fun cell => if cell.c = defaultChar ∨ cell.c = ' ' then { cell with c } else cell

def putTabs (h : GridHandler) : Nat → Option GridHandler
  | 0 => some h
  | count + 1 =>
    if h.col < h.columns then do
      let h ← h.markTab
      let col ← nextTabstop h.tabs h.columns h.columns h.col
      putTabs (h.setCursor (movePoint fun p => { p with col })) count
    else some h

def putTab (h : GridHandler) (count : Nat) : Option GridHandler :=
  if h.cursor.inputNeedsWrap then h.wrapline else h.putTabs count

def backspace (h : GridHandler) : GridHandler := if h.col > 0 then h.moveBackward 1 else h

def carriageReturn (h : GridHandler) : GridHandler :=
  h.updateCursor fun cursor => { cursor with point := { cursor.point with col := 0 }, inputNeedsWrap := false }

def newline (h : GridHandler) : Option GridHandler := do
  let h ← h.linefeed
  some (if h.mode.lineFeedNewLine then h.carriageReturn else h)

def setTab (h : GridHandler) (tabstop : Bool) : Option GridHandler :=
  if h.col < h.tabs.length then some { h with tabs := h.tabs.set h.col tabstop } else none

def inScrollRegion (h : GridHandler) : Bool :=
  h.scrollRegion.start ≤ h.cursor.point.row && h.cursor.point.row < h.scrollRegion.stop

def insertBlankLines (h : GridHandler) (lines : Nat) : Option GridHandler :=
  if h.inScrollRegion then h.scrollDownRelative h.cursor.point.row lines else some h

def deleteLines (h : GridHandler) (lines : Nat) : Option GridHandler := do
  let room ← checkedSub h.visibleRows h.cursor.point.row
  let lines := min room lines
  if lines > 0 ∧ h.inScrollRegion then h.scrollUpRelative h.cursor.point.row lines else some h

def eraseChars (h : GridHandler) (count : Nat) : Option GridHandler :=
  h.editCursorRow (·.eraseChars h.columns h.col count h.bg)

def deleteChars (h : GridHandler) (count : Nat) : Option GridHandler :=
  h.editCursorRow (·.deleteChars h.columns h.col count h.bg)

def previousTabstop (tabs : List Bool) (col : Nat) : Nat :=
  ((List.range col).reverse.find? fun i => tabs[i]? == some true).getD col

def moveBackwardTabs (h : GridHandler) : Nat → GridHandler
  | 0 => h
  | count + 1 =>
    moveBackwardTabs (h.updateCursor (movePoint fun p => { p with col := previousTabstop h.tabs p.col })) count

def saveCursorPosition (h : GridHandler) : GridHandler :=
  { h with grid := { h.grid with savedCursor := h.grid.cursor } }

def restoreCursorPosition (h : GridHandler) : GridHandler := h.updateCursor fun _ => h.grid.savedCursor

def clearLine (h : GridHandler) (mode : Row.LineClearMode) : Option GridHandler :=
  h.editCursorRow (·.clearLine h.columns h.col mode h.bg)

def blankCells (h : GridHandler) (start stop : Nat) : Option GridHandler :=
  h.eachCell start stop fun _ => Cell.ofColor h.bg

/-- `clear_viewport`, whose search ends in this row. -/
def clearViewport (h : GridHandler) (row : Nat) : Option GridHandler := do
  let positions ← checkedSub h.visibleRows row
  let grid ← h.grid.scrollUp ⟨0, h.visibleRows⟩ positions
  let raw ← (GridStorage.upTo positions h.visibleRows).foldlM (GridStorage.resetRow h.cursor.template) grid.raw
  some { h with grid := { grid with raw } }

def clearAbove (h : GridHandler) : Option GridHandler := do
  let row := h.cursor.point.row
  let h ← h.blankCells 0 (if row > 1 then row else 0)
  h.editCursorRow (·.clearUpTo h.columns h.col h.bg)

def clearBelow (h : GridHandler) : Option GridHandler := do
  let h ← h.editCursorRow (·.clearLine h.columns h.col .right h.bg)
  let lastRow ← checkedSub h.visibleRows 1
  if h.cursor.point.row < lastRow then h.blankCells (h.cursor.point.row + 1) h.visibleRows else some h

def clearPrimary (h : GridHandler) (scrollback : Scrollback) : Option GridHandler :=
  match h.fullGridClearBehavior with
  | .clear => h.blankCells 0 h.visibleRows
  | .scroll => h.clearViewport scrollback.viewportRow

def clearAll (h : GridHandler) (scrollback : Scrollback) : Option GridHandler :=
  if h.isAltScreen then h.blankCells 0 h.visibleRows
  else (h.clearPrimary scrollback).map fun h => { h with activeHyperlinkId := none }

def clearScreen (h : GridHandler) (mode : ClearMode) (scrollback : Scrollback) : Option GridHandler :=
  match mode with
  | .above => h.clearAbove
  | .below => h.clearBelow
  | .all => h.clearAll scrollback
  | .saved =>
    if scrollback.hasRows then do
      let grid ← h.grid.clearHistory
      some { h with grid }
    else some h
  | .resetAndClear | .activeBlock => do
    let grid ← h.grid.clearAndResetSavingCursorLine
    some { h with grid := grid.updateMaxCursor, activeHyperlinkId := none }

def resetState (h : GridHandler) : Option GridHandler := do
  let grid ← h.grid.reset
  some { h with
    grid
    activeHyperlinkId := none
    activeCharset := .g0
    scrollRegion := ⟨0, h.visibleRows⟩
    tabs := newTabs h.columns }

def reverseIndex (h : GridHandler) : Option GridHandler :=
  if h.cursor.point.row = h.scrollRegion.start then h.scrollDown 1
  else some (h.updateCursor (movePoint fun p => { p with row := p.row - 1 }))

def terminalAttribute (h : GridHandler) (attr : Attr) : GridHandler :=
  h.setCursor fun cursor => { cursor with template := attr.apply cursor.template }

def setScrollingRegion (h : GridHandler) (top : Nat) (bottom : Option Nat) : Option GridHandler :=
  let bottom := bottom.getD h.visibleRows
  if top ≥ bottom then some h
  else do
    let start ← checkedSub top 1
    { h with scrollRegion := ⟨min start h.visibleRows, min bottom h.visibleRows⟩ }.goto 0 0

def deccolm (h : GridHandler) : Option GridHandler := do
  let h ← h.setScrollingRegion 1 none
  h.blankCells 0 h.visibleRows

/-- `set_mode` and `unset_mode` -/
def changeMode (h : GridHandler) (mode : Mode) (on : Bool) : Option GridHandler :=
  match mode with
  | .lineWrap => some { h with mode := { h.mode with lineWrap := on } }
  | .lineFeedNewLine => some { h with mode := { h.mode with lineFeedNewLine := on } }
  | .origin => some { h with mode := { h.mode with origin := on } }
  | .insert => some { h with mode := { h.mode with insert := on } }
  | .deccolm => h.deccolm
  | .other => some h

def decaln (h : GridHandler) : Option GridHandler := h.eachCell 0 h.visibleRows fun _ => { c := 'E' }

/-- A resize that leaves the rows as they are wrapped; `none` also where the rows are reflowed. -/
def resize (h : GridHandler) (numRows numCols : Nat) : Option GridHandler :=
  if h.columns = numCols ∧ h.visibleRows = numRows then some h
  else if numRows = 0 then some h
  else if (h.isAltScreen ∧ h.finished = false) ∨ (h.fullGridClearBehavior = .clear ∧ h.finished = false) then do
    let grid ← h.grid.resize numRows numCols h.finished
    some { h with
      grid
      tabs := if h.columns ≠ numCols then resizeTabs h.tabs numCols else h.tabs
      scrollRegion := ⟨0, grid.rows⟩ }
  else none

end GridHandler

/-- The calls of `ansi::Handler` that the screen depends on, and the resize. -/
inductive HandlerCall where
  | input (c : Char)
  | goto (row column : Nat) | gotoLine (row : Nat) | gotoCol (column : Nat)
  | moveUp (lines : Nat) | moveDown (lines : Nat) | moveForward (columns : Nat) | moveBackward (columns : Nat)
  | moveDownAndCr (lines : Nat) | moveUpAndCr (lines : Nat)
  | putTab (count : Nat) | backspace | carriageReturn | linefeed | newline
  | setHorizontalTabstop | clearTab | clearAllTabs | moveBackwardTabs (count : Nat)
  | insertBlank (count : Nat) | eraseChars (count : Nat) | deleteChars (count : Nat)
  | clearLine (mode : Row.LineClearMode) | clearScreen (mode : ClearMode) (scrollback : Scrollback)
  | scrollUp (lines : Nat) | scrollDown (lines : Nat) | insertBlankLines (lines : Nat) | deleteLines (lines : Nat)
  | reverseIndex | setScrollingRegion (top : Nat) (bottom : Option Nat)
  | saveCursorPosition | restoreCursorPosition
  | terminalAttribute (attr : Attr) | setMode (mode : Mode) | unsetMode (mode : Mode)
  | setActiveCharset (index : CharsetIndex) | configureCharset (index : CharsetIndex) (charset : StandardCharset)
  | setHyperlink (id : Option Nat) | setSupportsEmojiPresentationSelector (supported : Bool)
  | decaln | resetState | onFinishByteProcessing
  | resize (numRows numCols : Nat)

namespace GridHandler

def handle (width : UnicodeWidth) (h : GridHandler) : HandlerCall → Option GridHandler
  | .input c => h.input width c
  | .goto row column => h.goto row column
  | .gotoLine row => h.gotoLine row
  | .gotoCol column => h.gotoCol column
  | .moveUp lines => h.moveUp lines
  | .moveDown lines => h.moveDown lines
  | .moveForward columns => h.moveForward columns
  | .moveBackward columns => some (h.moveBackward columns)
  | .moveDownAndCr lines => h.moveDownAndCr lines
  | .moveUpAndCr lines => h.moveUpAndCr lines
  | .putTab count => h.putTab count
  | .backspace => some h.backspace
  | .carriageReturn => some h.carriageReturn
  | .linefeed => h.linefeed
  | .newline => h.newline
  | .setHorizontalTabstop => h.setTab true
  | .clearTab => h.setTab false
  | .clearAllTabs => some { h with tabs := h.tabs.map fun _ => false }
  | .moveBackwardTabs count => some (h.moveBackwardTabs count)
  | .insertBlank count => h.insertBlank count
  | .eraseChars count => h.eraseChars count
  | .deleteChars count => h.deleteChars count
  | .clearLine mode => h.clearLine mode
  | .clearScreen mode scrollback => h.clearScreen mode scrollback
  | .scrollUp lines => h.scrollUp lines
  | .scrollDown lines => h.scrollDown lines
  | .insertBlankLines lines => h.insertBlankLines lines
  | .deleteLines lines => h.deleteLines lines
  | .reverseIndex => h.reverseIndex
  | .setScrollingRegion top bottom => h.setScrollingRegion top bottom
  | .saveCursorPosition => some h.saveCursorPosition
  | .restoreCursorPosition => some h.restoreCursorPosition
  | .terminalAttribute attr => some (h.terminalAttribute attr)
  | .setMode mode => h.changeMode mode true
  | .unsetMode mode => h.changeMode mode false
  | .setActiveCharset index => some { h with activeCharset := index }
  | .configureCharset index charset =>
    some (h.setCursor fun cursor => { cursor with charsets := cursor.charsets.set index charset })
  | .setHyperlink id => some { h with activeHyperlinkId := id }
  | .setSupportsEmojiPresentationSelector supported =>
    some { h with supportsEmojiPresentationSelector := supported }
  | .decaln => h.decaln
  | .resetState => h.resetState
  | .onFinishByteProcessing => some { h with grid := h.grid.updateMaxCursor }
  | .resize numRows numCols => h.resize numRows numCols

def run (width : UnicodeWidth) (h : GridHandler) (calls : List HandlerCall) : Option GridHandler :=
  calls.foldlM (handle width) h

end GridHandler

end InfiniShell.Terminal
