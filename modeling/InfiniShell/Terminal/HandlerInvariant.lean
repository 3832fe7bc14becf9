import InfiniShell.Terminal.HandlerCalls
import InfiniShell.Terminal.RowInvariant

namespace InfiniShell.Terminal

/-- An invariant that also the edits within a row keep that neither write at the cursor nor move the end of the row
inwards. -/
structure CallInvariant (p : Nat → Row → Prop) (q : Cell → Prop) : Prop extends RowInvariant p q where
  rowMap : ∀ {columns : Nat} {row : Row} {f : Cell → Cell}, p columns row → (∀ cell, (f cell).flags = {}) →
    p columns (row.mapCells f)
  rowModify : ∀ {columns col : Nat} {row after : Row} {f : Cell → Cell}, p columns row →
    (∀ cell, (f cell).flags = cell.flags) → row.modify col f = some after → p columns after
  rowInsertBlank : ∀ {columns col count : Nat} {bg : Color} {row after : Row}, p columns row →
    row.insertBlank columns col count bg = some after → p columns after
  rowEraseChars : ∀ {columns col count : Nat} {bg : Color} {row after : Row}, p columns row →
    row.eraseChars columns col count bg = some after → p columns after
  rowClearLine : ∀ {columns col : Nat} {mode : Row.LineClearMode} {bg : Color} {row after : Row}, p columns row →
    row.clearLine columns col mode bg = some after → p columns after
  rowClearUpTo : ∀ {columns col : Nat} {bg : Color} {row after : Row}, p columns row →
    row.clearUpTo columns col bg = some after → p columns after
  applyAttr : ∀ {cell : Cell} (attr : Attr), q cell → q (attr.apply cell)

namespace GridHandler

variable {p : Nat → Row → Prop} {q : Cell → Prop} {h after : GridHandler} {f : Cursor → Cursor}

theorem setCursor_every (hw : h.grid.Every p q) (hf : q (f h.cursor).template) :
    (h.setCursor f).grid.Every p q :=
  ⟨hw.rows, hf, hw.saved⟩

theorem updateCursor_every (hw : h.grid.Every p q)
    (hf : ∀ cursor, q cursor.template → q (f cursor).template) : (h.updateCursor f).grid.Every p q := by
  have hmax : { h with grid := h.grid.updateMaxCursor }.grid.Every p q := hw.updateMaxCursor
  exact setCursor_every hmax (hf _ hmax.template)

theorem moveCursorForward_spec (hmove : h.moveCursorForward f = some after) : after = h.setCursor f := by
  unfold moveCursorForward at hmove
  simp only at hmove
  split at hmove
  next => exact (Option.some.inj hmove).symm
  next => cases hmove

theorem moveCursorForward_every (hw : h.grid.Every p q)
    (hf : ∀ cursor, q cursor.template → q (f cursor).template)
    (hmove : h.moveCursorForward f = some after) : after.grid.Every p q := by
  obtain rfl := moveCursorForward_spec hmove
  exact setCursor_every hw (hf _ hw.template)

theorem movePoint_template (f : VisiblePoint → VisiblePoint) (cursor : Cursor) (h : q cursor.template) :
    q (movePoint f cursor).template :=
  h

variable {f : Row → Option Row}

theorem updateRow_every (hw : h.grid.Every p q) {row : Nat}
    (hf : ∀ old new, h.grid.raw.get row = some old → p h.columns old → f old = some new → p h.columns new)
    (hupdate : h.updateRow row f = some after) : after.grid.Every p q := by
  obtain ⟨raw, hraw, rfl⟩ := Option.map_eq_some_iff.mp hupdate
  exact hw.withRaw (hw.rows.update hf hraw)

theorem updateRow_spec {index : Nat} (hupdate : h.updateRow index f = some after) :
    ∃ old new, h.grid.raw.get index = some old ∧ f old = some new ∧ after.grid.raw.get index = some new := by
  obtain ⟨storage, hstorage, rfl⟩ := Option.map_eq_some_iff.mp hupdate
  obtain ⟨raw, old, new, hraw, hold, hnew, rfl⟩ := Storage.update_spec hstorage
  have hlt := (List.getElem?_eq_some_iff.mp hold).1
  refine ⟨old, new, by simp [Storage.get, hraw, hold], hnew, ?_⟩
  rw [withRaw, Storage.get, Storage.fromGridIndex_setRaw, hraw, Option.bind_eq_bind, Option.bind_some]
  exact List.getElem?_set_self hlt

theorem cell_of_put {index col : Nat} {cell : Cell} (hput : h.updateRow index (·.put col cell) = some after) :
    after.cell index col = some cell := by
  obtain ⟨old, new, -, hnew, hget⟩ := updateRow_spec hput
  unfold Row.put at hnew
  split at hnew
  next hlt =>
    obtain rfl := Option.some.inj hnew
    rw [GridHandler.cell, hget, Option.bind_eq_bind, Option.bind_some]
    exact List.getElem?_set_self hlt
  next => cases hnew

def cursorLine (h : GridHandler) : Option Row := do
  let row ← h.cursorRow
  h.grid.raw.get row

section

variable (hw : h.grid.Every p q)
include hw

theorem editCursorRow_every {f : Row → Option Row}
    (hf : ∀ old new, h.cursorLine = some old → p h.columns old → f old = some new → p h.columns new)
    (hedit : h.editCursorRow f = some after) : after.grid.Every p q := by
  obtain ⟨row, hrow, hupdate⟩ := Option.bind_eq_some_iff.mp hedit
  apply updateRow_every hw _ hupdate
  intro old new hget hold hnew
  have hline : h.cursorLine = some old := by simp [cursorLine, hrow, hget]
  exact hf old new hline hold hnew

theorem updateCursorCell_every {f : Cell → Cell}
    (hf : ∀ col old new, col = h.col ∨ col = h.columns - 1 → p h.columns old → old.modify col f = some new →
      p h.columns new)
    (hupdate : h.updateCursorCell f = some after) : after.grid.Every p q := by
  obtain ⟨row, -, hupdate⟩ := Option.bind_eq_some_iff.mp hupdate
  split at hupdate
  next => exact updateRow_every hw (fun old new _ => hf _ old new (Or.inr rfl)) hupdate
  next => exact updateRow_every hw (fun old new _ => hf _ old new (Or.inl rfl)) hupdate

theorem goto_every {row column : Nat} (hgoto : h.goto row column = some after) : after.grid.Every p q := by
  obtain ⟨maxY, -, hgoto⟩ := Option.bind_eq_some_iff.mp hgoto
  obtain rfl := Option.some.inj hgoto
  exact updateCursor_every hw fun _ hcursor => hcursor

theorem carriageReturn_every : h.carriageReturn.grid.Every p q :=
  updateCursor_every hw fun _ hcursor => hcursor

theorem moveBackward_every (columns : Nat) : (h.moveBackward columns).grid.Every p q :=
  updateCursor_every hw fun _ hcursor => hcursor

theorem moveForward_every {columns : Nat} (hmove : h.moveForward columns = some after) :
    after.grid.Every p q := by
  apply moveCursorForward_every hw _ hmove
  exact fun _ hcursor => hcursor

theorem backspace_every : h.backspace.grid.Every p q := by
  unfold backspace
  split
  next => exact moveBackward_every hw 1
  next => exact hw

theorem moveBackwardTabs_every {count : Nat} : (h.moveBackwardTabs count).grid.Every p q := by
  induction count generalizing h with
  | zero => exact hw
  | succ count ih => exact ih (updateCursor_every hw (movePoint_template _))

theorem advanceCursorByOneCell_every (hadvance : h.advanceCursorByOneCell = some after) :
    after.grid.Every p q := by
  apply moveCursorForward_every hw _ hadvance
  intro cursor hcursor
  split
  next => exact hcursor
  next => exact hcursor

theorem setTab_every {tabstop : Bool} (hset : h.setTab tabstop = some after) : after.grid.Every p q := by
  unfold setTab at hset
  split at hset
  next => exact Option.some.inj hset ▸ hw
  next => cases hset

theorem setScrollingRegion_every {top : Nat} {bottom : Option Nat}
    (hset : h.setScrollingRegion top bottom = some after) : after.grid.Every p q := by
  simp only [setScrollingRegion] at hset
  split at hset
  next => exact Option.some.inj hset ▸ hw
  next =>
    obtain ⟨start, -, hgoto⟩ := Option.bind_eq_some_iff.mp hset
    apply goto_every _ hgoto
    exact hw

end

theorem newCell_flags (h : GridHandler) (c : Char) (cell : Cell) :
    (h.newCell c cell).flags = h.cursor.template.flags := by
  rw [newCell, Cell.flags_setHyperlinkId]

def unlead (cell : Cell) : Cell := { cell with flags := { cell.flags with leadingWideCharSpacer := false } }

theorem dropLeadingSpacer_spec {row col : Nat} {flags : Flags}
    (hdrop : h.dropLeadingSpacer row col flags = some after) :
    after = h ∨ ∃ raw old new, h.grid.raw.inner[raw]? = some old ∧ old.modify (h.columns - 1) unlead = some new ∧
      after = h.withRaw (h.grid.raw.setRaw raw new) := by
  unfold dropLeadingSpacer at hdrop
  split at hdrop
  next =>
    obtain ⟨raw', hraw', rfl⟩ := Option.map_eq_some_iff.mp hdrop
    obtain ⟨raw, old, new, -, hold, hnew, rfl⟩ := Storage.update_spec hraw'
    exact Or.inr ⟨raw, old, new, hold, hnew, rfl⟩
  next => exact Or.inl (Option.some.inj hdrop).symm

theorem writeAtCursor_spec {c : Char} {f : Cell → Cell} (hwrite : h.writeAtCursor c f = some after) :
    ∃ index cell cleared raw old new, h.cursorRow = some index ∧ h.cell index h.col = some cell ∧
      h.dropLeadingSpacer index h.col cell.flags = some cleared ∧
      cleared.grid.raw.fromGridIndex index = some raw ∧ cleared.grid.raw.inner[raw]? = some old ∧
      old.write cleared.columns cleared.col cleared.bg (fun cell => f (cleared.newCell c cell)) = some new ∧
      after = cleared.withRaw (cleared.grid.raw.setRaw raw new) := by
  obtain ⟨index, hindex, hwrite⟩ := Option.bind_eq_some_iff.mp hwrite
  obtain ⟨cell, hcell, hwrite⟩ := Option.bind_eq_some_iff.mp hwrite
  obtain ⟨cleared, hcleared, hwrite⟩ := Option.bind_eq_some_iff.mp hwrite
  obtain ⟨storage, hstorage, rfl⟩ := Option.map_eq_some_iff.mp hwrite
  obtain ⟨raw, old, new, hraw, hold, hnew, rfl⟩ := Storage.update_spec hstorage
  exact ⟨index, cell, cleared, raw, old, new, hindex, hcell, hcleared, hraw, hold, hnew, rfl⟩

end GridHandler

namespace CallInvariant

variable {p : Nat → Row → Prop} {q : Cell → Prop} {h after : GridHandler} {start stop : Nat}

theorem eachCell (inv : CallInvariant p q) (hw : h.grid.Every p q) {f : Cell → Cell}
    (hf : ∀ cell, (f cell).flags = {}) (heach : h.eachCell start stop f = some after) : after.grid.Every p q := by
  obtain ⟨raw, hraw, rfl⟩ := Option.map_eq_some_iff.mp heach
  apply hw.withRaw
  apply foldlM_preserves (P := Storage.Every (p h.grid.columns)) _ hw.rows hraw
  intro s line after hs hline
  apply hs.updateLine _ hline
  intro row row' hrow hmap
  exact Option.some.inj hmap ▸ inv.rowMap hrow hf

theorem blankCells (inv : CallInvariant p q) (hw : h.grid.Every p q)
    (hblank : h.blankCells start stop = some after) : after.grid.Every p q :=
  inv.eachCell hw (fun _ => rfl) hblank

variable {origin lines : Nat}

section

variable (inv : CallInvariant p q)
include inv

variable (hw : h.grid.Every p q)
include hw

theorem scrollUpRelative
    (hscroll : h.scrollUpRelative origin lines = some after) : after.grid.Every p q := by
  obtain ⟨height, -, hscroll⟩ := Option.bind_eq_some_iff.mp hscroll
  obtain ⟨grid, hgrid, hscroll⟩ := Option.bind_eq_some_iff.mp hscroll
  obtain rfl := Option.some.inj hscroll
  exact inv.scrollUp hw hgrid

theorem scrollDownRelative
    (hscroll : h.scrollDownRelative origin lines = some after) : after.grid.Every p q := by
  obtain ⟨height, -, hscroll⟩ := Option.bind_eq_some_iff.mp hscroll
  obtain ⟨room, -, hscroll⟩ := Option.bind_eq_some_iff.mp hscroll
  obtain ⟨grid, hgrid, hscroll⟩ := Option.bind_eq_some_iff.mp hscroll
  obtain rfl := Option.some.inj hscroll
  exact inv.scrollDown hw hgrid

theorem linefeed (hfeed : h.linefeed = some after) : after.grid.Every p q := by
  simp only [GridHandler.linefeed] at hfeed
  split at hfeed
  next => exact inv.scrollUpRelative hw hfeed
  next =>
    split at hfeed
    next => exact GridHandler.moveCursorForward_every hw (GridHandler.movePoint_template _) hfeed
    next => exact Option.some.inj hfeed ▸ hw

theorem nextLine (hnext : h.nextLine = some after) : after.grid.Every p q := by
  unfold GridHandler.nextLine at hnext
  split at hnext
  next => exact inv.linefeed hw hnext
  next => exact GridHandler.moveCursorForward_every hw (GridHandler.movePoint_template _) hnext

theorem wrapline
    (hmark : h.mode.lineWrap = true → ∀ col old new, col = h.col ∨ col = h.columns - 1 → p h.columns old →
      old.modify col (fun cell => { cell with flags := { cell.flags with wrapline := true } }) = some new →
      p h.columns new)
    (hwrap : h.wrapline = some after) : after.grid.Every p q := by
  unfold GridHandler.wrapline at hwrap
  split at hwrap
  next => exact Option.some.inj hwrap ▸ hw
  next hon =>
    obtain ⟨marked, hmarked, hwrap⟩ := Option.bind_eq_some_iff.mp hwrap
    obtain ⟨moved, hmoved, hwrap⟩ := Option.bind_eq_some_iff.mp hwrap
    obtain rfl := Option.some.inj hwrap
    have hmarked' := GridHandler.updateCursorCell_every hw (hmark (Bool.not_eq_false _ ▸ hon)) hmarked
    have hmoved' := inv.nextLine hmarked' hmoved
    exact GridHandler.setCursor_every hmoved' hmoved'.template

theorem markTab (hmark : h.markTab = some after) : after.grid.Every p q := by
  apply GridHandler.updateCursorCell_every hw _ hmark
  intro col old new _ hold hnew
  apply inv.rowModify hold _ hnew
  intro cell
  split
  next => rfl
  next => rfl

theorem putTabs {count : Nat} (htabs : h.putTabs count = some after) : after.grid.Every p q := by
  induction count generalizing h with
  | zero => exact Option.some.inj htabs ▸ hw
  | succ count ih =>
    rw [GridHandler.putTabs] at htabs
    split at htabs
    next =>
      obtain ⟨marked, hmarked, htabs⟩ := Option.bind_eq_some_iff.mp htabs
      obtain ⟨col, -, htabs⟩ := Option.bind_eq_some_iff.mp htabs
      have hmarked' := inv.markTab hw hmarked
      exact ih (GridHandler.setCursor_every hmarked' (GridHandler.movePoint_template _ _ hmarked'.template)) htabs
    next => exact Option.some.inj htabs ▸ hw

theorem newline (hline : h.newline = some after) : after.grid.Every p q := by
  obtain ⟨fed, hfed, hline⟩ := Option.bind_eq_some_iff.mp hline
  obtain rfl := Option.some.inj hline
  have hevery := inv.linefeed hw hfed
  split
  next => exact GridHandler.carriageReturn_every hevery
  next => exact hevery

theorem insertBlankLines (hinsert : h.insertBlankLines lines = some after) : after.grid.Every p q := by
  unfold GridHandler.insertBlankLines at hinsert
  split at hinsert
  next => exact inv.scrollDownRelative hw hinsert
  next => exact Option.some.inj hinsert ▸ hw

theorem deleteLines (hdelete : h.deleteLines lines = some after) : after.grid.Every p q := by
  obtain ⟨room, -, hdelete⟩ := Option.bind_eq_some_iff.mp hdelete
  simp only at hdelete
  split at hdelete
  next => exact inv.scrollUpRelative hw hdelete
  next => exact Option.some.inj hdelete ▸ hw

theorem clearLine {mode : Row.LineClearMode}
    (hclear : h.clearLine mode = some after) : after.grid.Every p q :=
  GridHandler.editCursorRow_every hw (fun _ _ _ hold hnew => inv.rowClearLine hold hnew) hclear

theorem clearViewport {row : Nat} (hclear : h.clearViewport row = some after) : after.grid.Every p q := by
  obtain ⟨positions, -, hclear⟩ := Option.bind_eq_some_iff.mp hclear
  obtain ⟨grid, hgrid, hclear⟩ := Option.bind_eq_some_iff.mp hclear
  obtain ⟨raw, hraw, hclear⟩ := Option.bind_eq_some_iff.mp hclear
  obtain rfl := Option.some.inj hclear
  have hevery := inv.scrollUp hw hgrid
  exact hevery.withRaw (inv.resetRows hevery.rows hraw)

theorem clearAbove (hclear : h.clearAbove = some after) : after.grid.Every p q := by
  obtain ⟨blanked, hblanked, hclear⟩ := Option.bind_eq_some_iff.mp hclear
  exact GridHandler.editCursorRow_every (inv.blankCells hw hblanked)
    (fun _ _ _ hold hnew => inv.rowClearUpTo hold hnew) hclear

theorem clearBelow (hclear : h.clearBelow = some after) : after.grid.Every p q := by
  obtain ⟨cleared, hcleared, hclear⟩ := Option.bind_eq_some_iff.mp hclear
  obtain ⟨lastRow, -, hclear⟩ := Option.bind_eq_some_iff.mp hclear
  have hevery := inv.clearLine hw hcleared
  split at hclear
  next => exact inv.blankCells hevery hclear
  next => exact Option.some.inj hclear ▸ hevery

end

variable {scrollback : Scrollback} (inv : CallInvariant p q)
include inv

variable (hw : h.grid.Every p q)
include hw

theorem clearPrimary (hclear : h.clearPrimary scrollback = some after) : after.grid.Every p q := by
  unfold GridHandler.clearPrimary at hclear
  split at hclear
  next => exact inv.blankCells hw hclear
  next => exact inv.clearViewport hw hclear

theorem clearAll (hclear : h.clearAll scrollback = some after) : after.grid.Every p q := by
  unfold GridHandler.clearAll at hclear
  split at hclear
  next => exact inv.blankCells hw hclear
  next =>
    obtain ⟨cleared, hcleared, rfl⟩ := Option.map_eq_some_iff.mp hclear
    have hevery := inv.clearPrimary hw hcleared
    exact hevery

theorem clearScreen {mode : ClearMode}
    (hclear : h.clearScreen mode scrollback = some after) : after.grid.Every p q := by
  have hreset : ∀ after : GridHandler, (do
      let grid ← h.grid.clearAndResetSavingCursorLine
      some { h with grid := grid.updateMaxCursor, activeHyperlinkId := none }) = some after →
        after.grid.Every p q := by
    intro after hafter
    obtain ⟨grid, hgrid, hafter⟩ := Option.bind_eq_some_iff.mp hafter
    obtain rfl := Option.some.inj hafter
    exact (inv.clearAndResetSavingCursorLine hw hgrid).updateMaxCursor
  cases mode with
  | above => exact inv.clearAbove hw hclear
  | below => exact inv.clearBelow hw hclear
  | all => exact inv.clearAll hw hclear
  | saved =>
    rw [GridHandler.clearScreen] at hclear
    split at hclear
    next =>
      obtain ⟨grid, hgrid, hclear⟩ := Option.bind_eq_some_iff.mp hclear
      obtain rfl := Option.some.inj hclear
      exact hw.clearHistory hgrid
    next => exact Option.some.inj hclear ▸ hw
  | resetAndClear => exact hreset after hclear
  | activeBlock => exact hreset after hclear

theorem reverseIndex (hreverse : h.reverseIndex = some after) : after.grid.Every p q := by
  unfold GridHandler.reverseIndex at hreverse
  split at hreverse
  next => exact inv.scrollDownRelative hw hreverse
  next =>
    obtain rfl := Option.some.inj hreverse
    exact GridHandler.updateCursor_every hw (GridHandler.movePoint_template _)

theorem changeMode {mode : Mode} {on : Bool}
    (hchange : h.changeMode mode on = some after) : after.grid.Every p q := by
  cases mode with
  | deccolm =>
    obtain ⟨homed, hhomed, hblank⟩ := Option.bind_eq_some_iff.mp hchange
    exact inv.blankCells (GridHandler.setScrollingRegion_every hw hhomed) hblank
  | _ => exact Option.some.inj hchange ▸ hw

theorem resetState (hreset : h.resetState = some after) : after.grid.Every p q := by
  obtain ⟨grid, hgrid, hreset⟩ := Option.bind_eq_some_iff.mp hreset
  obtain rfl := Option.some.inj hreset
  exact inv.reset hw hgrid

theorem resizeHandler {numRows numCols : Nat}
    (hrows : numRows ≠ 0 → h.columns < numCols → ∀ row ∈ h.grid.raw.truncateUnusedRows.inner, p h.columns row →
      p numCols (row.grow numCols))
    (hresize : h.resize numRows numCols = some after) : after.grid.Every p q := by
  unfold GridHandler.resize at hresize
  split at hresize
  next => exact Option.some.inj hresize ▸ hw
  next =>
    split at hresize
    next => exact Option.some.inj hresize ▸ hw
    next =>
      split at hresize
      next =>
        obtain ⟨grid, hgrid, hresize⟩ := Option.bind_eq_some_iff.mp hresize
        obtain rfl := Option.some.inj hresize
        exact inv.resize hw hrows hgrid
      next => cases hresize

theorem handle {width : UnicodeWidth} {call : HandlerCall}
    (hinput : ∀ c, call = .input c → h.input width c = some after → after.grid.Every p q)
    (hdelete : ∀ count, call = .deleteChars count → ∀ old new, h.cursorLine = some old → p h.columns old →
      old.deleteChars h.columns h.col count h.bg = some new → p h.columns new)
    (hwrap : ∀ count, call = .putTab count → h.cursor.inputNeedsWrap = true → h.wrapline = some after →
      after.grid.Every p q)
    (hgrow : ∀ numRows numCols, call = .resize numRows numCols → numRows ≠ 0 → h.columns < numCols →
      ∀ row ∈ h.grid.raw.truncateUnusedRows.inner, p h.columns row → p numCols (row.grow numCols))
    (hhandle : h.handle width call = some after) : after.grid.Every p q := by
  have hsame : ∀ {next : GridHandler}, next.grid.Every p q → some next = some after → after.grid.Every p q :=
    fun hnext heq => Option.some.inj heq ▸ hnext
  cases call with
  | input c => exact hinput c rfl hhandle
  | goto row column => exact GridHandler.goto_every hw hhandle
  | gotoLine row => exact GridHandler.goto_every hw hhandle
  | gotoCol column => exact GridHandler.goto_every hw hhandle
  | moveUp lines => exact GridHandler.goto_every hw hhandle
  | moveDown lines => exact GridHandler.goto_every hw hhandle
  | moveForward columns => exact GridHandler.moveForward_every hw hhandle
  | moveBackward columns => exact hsame (GridHandler.moveBackward_every hw columns) hhandle
  | moveDownAndCr lines => exact GridHandler.goto_every hw hhandle
  | moveUpAndCr lines => exact GridHandler.goto_every hw hhandle
  | putTab count =>
    have htab : h.putTab count = some after := hhandle
    unfold GridHandler.putTab at htab
    split at htab
    next hneeds => exact hwrap count rfl hneeds htab
    next => exact inv.putTabs hw htab
  | backspace => exact hsame (GridHandler.backspace_every hw) hhandle
  | carriageReturn => exact hsame (GridHandler.carriageReturn_every hw) hhandle
  | linefeed => exact inv.linefeed hw hhandle
  | newline => exact inv.newline hw hhandle
  | setHorizontalTabstop => exact GridHandler.setTab_every hw hhandle
  | clearTab => exact GridHandler.setTab_every hw hhandle
  | clearAllTabs => exact Option.some.inj hhandle ▸ hw
  | moveBackwardTabs count => exact hsame (GridHandler.moveBackwardTabs_every hw) hhandle
  | insertBlank count =>
    exact GridHandler.editCursorRow_every hw (fun _ _ _ hold hnew => inv.rowInsertBlank hold hnew) hhandle
  | eraseChars count =>
    exact GridHandler.editCursorRow_every hw (fun _ _ _ hold hnew => inv.rowEraseChars hold hnew) hhandle
  | deleteChars count => exact GridHandler.editCursorRow_every hw (hdelete count rfl) hhandle
  | clearLine mode => exact inv.clearLine hw hhandle
  | clearScreen mode scrollback => exact inv.clearScreen hw hhandle
  | scrollUp lines => exact inv.scrollUpRelative hw hhandle
  | scrollDown lines => exact inv.scrollDownRelative hw hhandle
  | insertBlankLines lines => exact inv.insertBlankLines hw hhandle
  | deleteLines lines => exact inv.deleteLines hw hhandle
  | reverseIndex => exact inv.reverseIndex hw hhandle
  | setScrollingRegion top bottom => exact GridHandler.setScrollingRegion_every hw hhandle
  | saveCursorPosition => exact Option.some.inj hhandle ▸ ⟨hw.rows, hw.template, hw.template⟩
  | restoreCursorPosition => exact hsame (GridHandler.updateCursor_every hw fun _ _ => hw.saved) hhandle
  | terminalAttribute attr => exact hsame (GridHandler.setCursor_every hw (inv.applyAttr attr hw.template)) hhandle
  | setMode mode => exact inv.changeMode hw hhandle
  | unsetMode mode => exact inv.changeMode hw hhandle
  | setActiveCharset index => exact Option.some.inj hhandle ▸ hw
  | configureCharset index charset =>
    refine hsame (GridHandler.setCursor_every hw ?_) hhandle
    exact hw.template
  | setHyperlink id => exact Option.some.inj hhandle ▸ hw
  | setSupportsEmojiPresentationSelector supported => exact Option.some.inj hhandle ▸ hw
  | decaln => exact inv.eachCell hw (fun _ => rfl) hhandle
  | resetState => exact inv.resetState hw hhandle
  | onFinishByteProcessing => exact Option.some.inj hhandle ▸ hw.updateMaxCursor
  | resize numRows numCols => exact inv.resizeHandler hw (hgrow numRows numCols rfl) hhandle

end CallInvariant

end InfiniShell.Terminal
