import InfiniShell.Terminal.EndMarks
import InfiniShell.Terminal.WideRuns

namespace InfiniShell.Terminal

def Cell.Unmarked (cell : Cell) : Prop := cell.endMark = false

theorem Cell.Unmarked.of_flags {cell cell' : Cell} (h : cell.Unmarked) (hflags : cell'.flags = cell.flags) :
    cell'.Unmarked := by
  rw [Cell.Unmarked, Cell.endMark, hflags]
  exact h

theorem endMarkedInvariant : CallInvariant Row.EndMarked Cell.Unmarked where
  length := fun h => h.length
  new := by
    intro columns
    refine ⟨List.length_replicate, ?_⟩
    rintro i ⟨cell, hcell, hmark⟩
    rw [List.eq_of_mem_replicate (List.mem_of_getElem? hcell)] at hmark
    cases hmark
  rowReset := fun h hreset => h.unmarks (Row.reset_unmarks hreset)
  rowShrink := fun h hlt hshrink => h.shrinkWithoutReflow hlt hshrink
  template := rfl
  rowMap := by
    intro columns row f h hf
    apply h.unmarks
    apply unmarks_map
    intro cell hmark
    rw [endMark_of_flags (hf cell)] at hmark
    cases hmark
  rowModify := by
    intro columns col row next f h hf hmodify
    apply h.unmarks (Row.modify_unmarks _ hmodify)
    intro cell hmark
    rw [Cell.endMark, hf cell] at hmark
    exact hmark
  rowInsertBlank := fun h hinsert => h.insertBlank hinsert
  rowEraseChars := fun h herase => h.unmarks (Row.eraseChars_unmarks herase)
  rowClearLine := fun h hclear => h.unmarks (Row.clearLine_unmarks hclear)
  rowClearUpTo := fun h hclear => h.unmarks (Row.clearUpTo_unmarks hclear)
  applyAttr := by
    intro cell attr h
    cases attr with
    | reset => rfl
    | _ => exact h

namespace GridHandler

variable {h after : GridHandler} {width : UnicodeWidth}

abbrev EndMarked (h : GridHandler) : Prop := h.grid.Every Row.EndMarked Cell.Unmarked

def cursorRaw (h : GridHandler) : Option Nat := h.cursorRow.bind h.grid.raw.fromGridIndex

/-- In the cursor's row also the cells of a gap may be marked, which are to be written. -/
structure MarksIn (h : GridHandler) (g : Nat → Prop) : Prop where
  rows : ∀ i (row : Row), h.grid.raw.inner[i]? = some row →
    row.MarksIn h.columns fun j => j + 1 = h.columns ∨ h.cursorRaw = some i ∧ g j
  template : h.cursor.template.Unmarked
  saved : h.grid.savedCursor.template.Unmarked

variable {g : Nat → Prop}

theorem EndMarked.marksIn (he : h.EndMarked) : h.MarksIn g :=
  ⟨fun _ row hrow => (he.rows row (List.mem_of_getElem? hrow)).mono fun _ => Or.inl, he.template, he.saved⟩

theorem MarksIn.endMarked (hm : h.MarksIn g) (hgap : ∀ j, ¬ g j) : h.EndMarked := by
  refine ⟨?_, hm.template, hm.saved⟩
  intro row hrow
  obtain ⟨i, hi⟩ := List.getElem?_of_mem hrow
  exact (hm.rows i row hi).mono fun j hj => hj.resolve_right fun hc => hgap j hc.2

theorem MarksIn.setCursor (hm : h.MarksIn g) {f : Cursor → Cursor} (hrow : (f h.cursor).point.row = h.cursor.point.row)
    (htemplate : (f h.cursor).template = h.cursor.template) : (h.setCursor f).MarksIn g := by
  have hraw : (h.setCursor f).cursorRaw = h.cursorRaw := by
    have hindex : (h.setCursor f).cursorRow = h.cursorRow := by
      have hpoint : (h.setCursor f).grid.cursor.point.row = h.grid.cursor.point.row := hrow
      rw [cursorRow, cursorRow, hpoint]
      rfl
    rw [cursorRaw, cursorRaw, hindex]
    rfl
  refine ⟨?_, ?_, hm.saved⟩
  · intro i row hi
    rw [hraw]
    exact hm.rows i row hi
  · have hsame : (h.setCursor f).cursor.template = h.cursor.template := htemplate
    rw [hsame]
    exact hm.template

theorem cursorRaw_setRaw (raw : Nat) (row : Row) : (h.withRaw (h.grid.raw.setRaw raw row)).cursorRaw = h.cursorRaw := by
  have hindex : (h.withRaw (h.grid.raw.setRaw raw row)).cursorRow = h.cursorRow := rfl
  rw [cursorRaw, cursorRaw, hindex]
  congr 1
  funext index
  exact Storage.fromGridIndex_setRaw _ _ _ _

variable {k : Nat → Prop}

theorem MarksIn.setRaw (hm : h.MarksIn g) {raw : Nat} {new : Row}
    (hnew : new.MarksIn h.columns fun j => j + 1 = h.columns ∨ h.cursorRaw = some raw ∧ k j)
    (hother : h.cursorRaw = some raw ∨ ∀ j, g j → k j) :
    (h.withRaw (h.grid.raw.setRaw raw new)).MarksIn k := by
  refine ⟨?_, hm.template, hm.saved⟩
  intro i row hi
  rw [cursorRaw_setRaw]
  have hget : (h.grid.raw.inner.set raw new)[i]? = some row := hi
  by_cases heq : raw = i
  · subst heq
    rw [List.getElem?_set] at hget
    simp only [if_true] at hget
    split at hget
    next => exact Option.some.inj hget ▸ hnew
    next => cases hget
  · rw [List.getElem?_set_ne heq] at hget
    apply (hm.rows i row hget).mono
    rintro j (hj | ⟨hcursor, hj⟩)
    · exact Or.inl hj
    · cases hother with
      | inl hraw => exact absurd (Option.some.inj (hraw.symm.trans hcursor)) heq
      | inr hgap => exact Or.inr ⟨hcursor, hgap j hj⟩

variable {row col : Nat} {flags : Flags}

theorem MarksIn.dropLeadingSpacer (hm : h.MarksIn g)
    (hdrop : h.dropLeadingSpacer row col flags = some after) : after.MarksIn g := by
  obtain rfl | ⟨raw, old, new, hold, hunlead, rfl⟩ := dropLeadingSpacer_spec hdrop
  · exact hm
  · refine hm.setRaw ?_ (Or.inr fun _ hj => hj)
    apply (hm.rows raw old hold).unmarks (Row.modify_unmarks _ hunlead)
    intro cell hmark
    simp only [Cell.endMark, unlead, Bool.or_false] at hmark
    rw [Cell.endMark, hmark, Bool.true_or]

theorem dropLeadingSpacer_cursorRaw (hdrop : h.dropLeadingSpacer row col flags = some after) :
    after.cursor = h.cursor ∧ after.columns = h.columns ∧ after.mode = h.mode ∧ after.cursorRow = h.cursorRow := by
  obtain rfl | ⟨raw, old, new, -, -, rfl⟩ := dropLeadingSpacer_spec hdrop
  · exact ⟨rfl, rfl, rfl, rfl⟩
  · exact ⟨rfl, rfl, rfl, rfl⟩

variable {c : Char} {f : Cell → Cell}

theorem MarksIn.writeAtCursor (hm : h.MarksIn g) (hgap : ∀ j, g j → j ≠ h.col → k j)
    (hf : ∀ cell, cell.Unmarked → (f cell).endMark = true → h.col < h.columns → h.col + 1 = h.columns)
    (hwrite : h.writeAtCursor c f = some after) :
    after.MarksIn k ∧ after.cursor = h.cursor ∧ after.columns = h.columns ∧ after.mode = h.mode := by
  obtain ⟨index, cell, cleared, raw, old, new, hindex, -, hcleared, hraw, hold, hnew, rfl⟩ := writeAtCursor_spec hwrite
  obtain ⟨hcursor, hcolumns, hmode, hrow⟩ := dropLeadingSpacer_cursorRaw hcleared
  have hm' := hm.dropLeadingSpacer hcleared
  have hcol : cleared.col = h.col := by rw [col, col, show cleared.grid.cursor = h.grid.cursor from hcursor]
  have hcursorRaw : cleared.cursorRaw = some raw := by
    rw [cursorRaw, hrow, hindex]
    exact hraw
  refine ⟨?_, hcursor, hcolumns, hmode⟩
  refine hm'.setRaw ?_ (Or.inl hcursorRaw)
  apply (hm'.rows raw old hold).write _ _ hnew
  · rintro j (hj | ⟨-, hj⟩) hne
    · exact Or.inl hj
    · exact Or.inr ⟨hcursorRaw, hgap j hj (hcol ▸ hne)⟩
  · intro cell hmark hlt
    rw [hcol, hcolumns] at hlt ⊢
    apply Or.inl
    apply hf _ _ hmark hlt
    exact hm'.template.of_flags (newCell_flags _ _ _)

theorem EndMarked.writeAtCursor (he : h.EndMarked)
    (hf : ∀ cell, cell.Unmarked → (f cell).endMark = true → h.col < h.columns → h.col + 1 = h.columns)
    (hwrite : h.writeAtCursor c f = some after) :
    after.EndMarked ∧ after.cursor = h.cursor ∧ after.columns = h.columns ∧ after.mode = h.mode := by
  obtain ⟨hm, hsame⟩ := he.marksIn.writeAtCursor (g := fun _ => False) (fun _ hj _ => hj) hf hwrite
  exact ⟨hm.endMarked fun _ hj => hj, hsame⟩

theorem spacerCell_endMark {id : Option Nat} {cell : Cell} : (spacerCell id cell).endMark = cell.endMark := by
  rw [Cell.endMark, spacerCell, Cell.flags_setHyperlinkId]
  rfl

theorem MarksIn.writeWidePair (hm : h.MarksIn fun j => h.col ≤ j ∧ j < h.col + 2)
    (hf : ∀ cell, cell.Unmarked → (f cell).Unmarked) (hwrite : h.writeWidePair c f = some after) :
    after.EndMarked := by
  obtain ⟨first, hfirst, hwrite⟩ := Option.bind_eq_some_iff.mp hwrite
  obtain ⟨index, -, hwrite⟩ := Option.bind_eq_some_iff.mp hwrite
  obtain ⟨wide, -, hwrite⟩ := Option.bind_eq_some_iff.mp hwrite
  obtain ⟨moved, hmoved, hwrite⟩ := Option.bind_eq_some_iff.mp hwrite
  obtain ⟨second, hsecond, hadvance⟩ := Option.bind_eq_some_iff.mp hwrite
  apply advanceCursorByOneCell_every _ hadvance
  obtain rfl := moveCursorForward_spec hmoved
  have hgap : ∀ j, h.col ≤ j ∧ j < h.col + 2 → j ≠ h.col → j = h.col + 1 := by
    intro j hj hne
    omega
  have hwide : ∀ cell : Cell, cell.Unmarked → (wideCell f cell).endMark = true → h.col < h.columns →
      h.col + 1 = h.columns := by
    intro cell hcell hmark
    exact absurd (hmark.symm.trans (hf cell hcell)) Bool.noConfusion
  obtain ⟨hm₁, hcursor, -, -⟩ := hm.writeAtCursor (k := fun j => j = h.col + 1) hgap hwide hfirst
  have hcol : first.col = h.col := by rw [col, col, show first.grid.cursor = h.grid.cursor from hcursor]
  have hm₂ := hm₁.setCursor (f := movePoint fun p => { p with col := p.col + 1 }) rfl rfl
  have hnext : (first.setCursor (movePoint fun p => { p with col := p.col + 1 })).col = h.col + 1 := by
    rw [← hcol]
    rfl
  obtain ⟨hm₃, -⟩ := hm₂.writeAtCursor (k := fun _ => False) (fun j hj hne => hne (hj.trans hnext.symm))
    (fun cell hcell hmark => absurd (hmark.symm.trans (spacerCell_endMark.trans hcell)) Bool.noConfusion) hsecond
  exact hm₃.endMarked fun _ hj => hj

theorem EndMarked.wrapline (he : h.EndMarked) (hcol : h.mode.lineWrap = true → h.columns ≤ h.col + 1)
    (hwrap : h.wrapline = some after) : after.EndMarked := by
  apply endMarkedInvariant.wrapline he _ hwrap
  intro hon col old new hat hold hnew
  have hlast := hcol hon
  apply hold.modify (fun j hj _ => hj) _ hnew
  intro _ _ _ hlt
  omega

theorem EndMarked.writeWideChar (he : h.EndMarked)
    (hf : ∀ cell, cell.Unmarked → (f cell).Unmarked) (hwrite : h.writeWideChar c f = some after) :
    after.EndMarked := by
  unfold GridHandler.writeWideChar at hwrite
  split at hwrite
  next hend =>
    split at hwrite
    next =>
      apply moveCursorForward_every he _ hwrite
      exact fun _ hcursor => hcursor
    next =>
      obtain ⟨padded, hpadded, hwrite⟩ := Option.bind_eq_some_iff.mp hwrite
      obtain ⟨wrapped, hwrapped, hwrite⟩ := Option.bind_eq_some_iff.mp hwrite
      obtain ⟨he₁, hcursor, hcolumns, -⟩ := he.writeAtCursor (fun _ _ _ hlt => by omega) hpadded
      have hcol : padded.col = h.col := by rw [col, col, show padded.grid.cursor = h.grid.cursor from hcursor]
      have he₂ := he₁.wrapline (fun _ => by rw [hcol, hcolumns]; exact hend) hwrapped
      exact he₂.marksIn.writeWidePair hf hwrite
  next => exact he.marksIn.writeWidePair hf hwrite

def WrapsAtEnd (h : GridHandler) : Prop :=
  h.cursor.inputNeedsWrap = true → h.mode.lineWrap = true → h.columns ≤ h.col + 1

instance (h : GridHandler) : Decidable h.WrapsAtEnd := inferInstanceAs (Decidable (_ → _ → _))

section

variable (he : h.EndMarked)
include he

theorem EndMarked.wrapIfNeeded (hend : h.WrapsAtEnd) (hwrap : h.wrapIfNeeded = some after) :
    after.EndMarked := by
  unfold GridHandler.wrapIfNeeded at hwrap
  split at hwrap
  next hneeds => exact he.wrapline (hend hneeds) hwrap
  next => exact Option.some.inj hwrap ▸ he

theorem EndMarked.makeRoom {count : Nat} (hroom : h.makeRoom count = some after) :
    (after.MarksIn fun j => after.col ≤ j ∧ j < after.col + count) ∧ (h.columns ≤ h.col + count → after = h) := by
  unfold GridHandler.makeRoom at hroom
  split at hroom
  next hc =>
    obtain ⟨index, hindex, hroom⟩ := Option.bind_eq_some_iff.mp hroom
    obtain ⟨storage, hstorage, rfl⟩ := Option.map_eq_some_iff.mp hroom
    obtain ⟨raw, old, new, hraw, hold, hnew, rfl⟩ := Storage.update_spec hstorage
    have hcursorRaw : h.cursorRaw = some raw := by
      rw [cursorRaw, hindex]
      exact hraw
    refine ⟨?_, fun hle => absurd hc.2 (Nat.not_lt.mpr hle)⟩
    refine he.marksIn.setRaw (g := fun _ => False) ?_ (Or.inl hcursorRaw)
    apply (Row.EndMarked.makeRoom (he.rows old (List.mem_of_getElem? hold)) hc.2 hnew).mono
    rintro j (hj | hj)
    · exact Or.inl hj
    · exact Or.inr ⟨hcursorRaw, hj⟩
  next =>
    obtain rfl := Option.some.inj hroom
    exact ⟨he.marksIn, fun _ => rfl⟩

theorem EndMarked.inputNarrow (hend : h.WrapsAtEnd) {wrapped room written : GridHandler}
    (hwrap : h.wrapIfNeeded = some wrapped) (hroom : wrapped.makeRoom 1 = some room)
    (hwrite : room.writeAtCursor c id = some written) (hadvance : written.advanceCursorByOneCell = some after) :
    after.EndMarked := by
  obtain ⟨hm, -⟩ := (he.wrapIfNeeded hend hwrap).makeRoom hroom
  obtain ⟨hm', -⟩ := hm.writeAtCursor (k := fun _ => False) (fun j hj hne => by omega)
    (fun cell hcell hmark => absurd (hmark.symm.trans hcell) Bool.noConfusion) hwrite
  exact advanceCursorByOneCell_every (hm'.endMarked fun _ hj => hj) hadvance

theorem EndMarked.inputWide (hend : h.WrapsAtEnd) {wrapped room : GridHandler}
    (hwrap : h.wrapIfNeeded = some wrapped) (hroom : wrapped.makeRoom 2 = some room)
    (hwrite : room.writeWideChar c id = some after) : after.EndMarked := by
  have he' := he.wrapIfNeeded hend hwrap
  obtain ⟨hm, hsame⟩ := he'.makeRoom hroom
  by_cases hcol : room.col + 1 ≥ room.columns
  · -- At the end of the row no room was made.
    have heq : room = wrapped := by
      unfold GridHandler.makeRoom at hroom
      split at hroom
      next hc =>
        obtain ⟨index, -, hroom⟩ := Option.bind_eq_some_iff.mp hroom
        obtain ⟨storage, -, rfl⟩ := Option.map_eq_some_iff.mp hroom
        have hlt : wrapped.col + 2 < wrapped.columns := hc.2
        have hge : wrapped.col + 1 ≥ wrapped.columns := hcol
        omega
      next => exact (Option.some.inj hroom).symm
    subst heq
    exact he'.writeWideChar (fun _ hcell => hcell) hwrite
  · rw [GridHandler.writeWideChar, if_neg hcol] at hwrite
    exact hm.writeWidePair (fun _ hcell => hcell) hwrite

theorem EndMarked.put {index col : Nat} {old new : Cell} (hold : h.cell index col = some old)
    (hnew : new.endMark = true → old.endMark = true) (hput : h.updateRow index (·.put col new) = some after) :
    after.EndMarked := by
  apply updateRow_every he _ hput
  intro row row' hrow hmarks hnew'
  rw [GridHandler.cell, hrow, Option.bind_eq_bind, Option.bind_some] at hold
  exact hmarks.unmarks (Row.put_unmarks hold hnew hnew')

theorem EndMarked.promoteCell {wide : Cell}
    (hcell : h.cell row col = some wide) (hpromote : h.promoteCell row col c wide = some after) :
    after.EndMarked := by
  obtain ⟨cleared, hcleared, hpromote⟩ := Option.bind_eq_some_iff.mp hpromote
  have hblank : cleared.EndMarked := he.put hcell (fun hmark => Bool.noConfusion hmark) hcleared
  split at hpromote
  next hend =>
    simp only at hpromote
    split at hpromote
    next =>
      apply updateRow_every hblank _ hpromote
      intro row row' _ hmarks hput
      exact hmarks.put (fun _ hj _ => hj) (fun _ _ => hend.1) hput
    next => cases hpromote
  next =>
    have hmoved := updateCursor_every hblank (movePoint_template (q := Cell.Unmarked) fun point => { point with col })
    apply EndMarked.writeWideChar hmoved _ hpromote
    exact fun _ _ => rfl

theorem EndMarked.inputZeroWidth (hinput : h.inputZeroWidth width c = some after) : after.EndMarked := by
  obtain ⟨row, hrow, hinput⟩ := Option.bind_eq_some_iff.mp hinput
  obtain ⟨col, hcol, hinput⟩ := Option.bind_eq_some_iff.mp hinput
  obtain ⟨cell, hcell, hinput⟩ := Option.bind_eq_some_iff.mp hinput
  split at hinput
  next => exact Option.some.inj hinput ▸ he
  next oldWidth hold =>
    simp only [Option.bind_eq_bind, Option.bind_eq_some_iff] at hinput
    obtain ⟨pushed, hpushed, hinput⟩ := hinput
    have hmark : (cell.pushZerowidth c).1.endMark = true → cell.endMark = true := by
      rw [Cell.endMark, Cell.flags_pushZerowidth]
      exact fun hmark => hmark
    have hmarked := he.put hcell hmark hpushed
    split at hinput
    next => exact Option.some.inj hinput ▸ hmarked
    next =>
      split at hinput
      next => exact Option.some.inj hinput ▸ hmarked
      next =>
        split at hinput
        next => exact hmarked.promoteCell (cell_of_put hpushed) hinput
        next => exact Option.some.inj hinput ▸ hmarked

end

def InputWrapsAtEnd (h : GridHandler) : Option (Fin 3) → Prop
  | some 1 | some 2 => h.WrapsAtEnd
  | _ => True

instance (h : GridHandler) : (charWidth : Option (Fin 3)) → Decidable (h.InputWrapsAtEnd charWidth)
  | some 1 | some 2 => inferInstanceAs (Decidable h.WrapsAtEnd)
  | none | some 0 => instDecidableTrue

def NoRowGoesOn (h : GridHandler) : Prop :=
  ∀ row ∈ h.grid.raw.truncateUnusedRows.inner, ¬ MarkedAt row.inner (h.columns - 1)

instance (h : GridHandler) : Decidable h.NoRowGoesOn :=
  inferInstanceAs (Decidable (∀ row ∈ h.grid.raw.truncateUnusedRows.inner, ¬ MarkedAt row.inner (h.columns - 1)))

/-- Where a call leaves the marks at the ends of the rows. -/
def StepKeepsMarks (width : UnicodeWidth) (h : GridHandler) : HandlerCall → Prop
  | .input c => h.InputWrapsAtEnd (width.ofChar c)
  | .putTab _ => h.WrapsAtEnd
  | .deleteChars count => ∀ row ∈ h.cursorLine, row.DeletesMark h.columns h.col count
  | .resize numRows numCols => numRows ≠ 0 → h.columns < numCols → h.NoRowGoesOn
  | _ => True

instance (h : GridHandler) : (call : HandlerCall) → Decidable (h.StepKeepsMarks width call)
  | .input c => inferInstanceAs (Decidable (h.InputWrapsAtEnd (width.ofChar c)))
  | .putTab _ => inferInstanceAs (Decidable h.WrapsAtEnd)
  | .deleteChars count =>
    inferInstanceAs (Decidable (∀ row ∈ h.cursorLine, row.DeletesMark h.columns h.col count))
  | .resize numRows numCols => inferInstanceAs (Decidable (numRows ≠ 0 → h.columns < numCols → h.NoRowGoesOn))
  | .goto .. | .gotoLine .. | .gotoCol .. | .moveUp .. | .moveDown .. | .moveForward .. | .moveBackward ..
  | .moveDownAndCr .. | .moveUpAndCr .. | .backspace | .carriageReturn | .linefeed | .newline
  | .setHorizontalTabstop | .clearTab | .clearAllTabs | .moveBackwardTabs .. | .insertBlank .. | .eraseChars ..
  | .clearLine .. | .clearScreen .. | .scrollUp .. | .scrollDown .. | .insertBlankLines .. | .deleteLines ..
  | .reverseIndex | .setScrollingRegion .. | .saveCursorPosition | .restoreCursorPosition | .terminalAttribute ..
  | .setMode .. | .unsetMode .. | .setActiveCharset .. | .configureCharset .. | .setHyperlink ..
  | .setSupportsEmojiPresentationSelector .. | .decaln | .resetState | .onFinishByteProcessing => instDecidableTrue

theorem EndMarked.input (he : h.EndMarked) (hend : h.InputWrapsAtEnd (width.ofChar c))
    (hinput : h.input width c = some after) : after.EndMarked := by
  unfold GridHandler.input at hinput
  generalize width.ofChar c = charWidth at hend hinput
  split at hinput
  next => exact Option.some.inj hinput ▸ he
  next => exact he.inputZeroWidth hinput
  next =>
    obtain ⟨wrapped, hwrap, hinput⟩ := Option.bind_eq_some_iff.mp hinput
    obtain ⟨room, hroom, hinput⟩ := Option.bind_eq_some_iff.mp hinput
    obtain ⟨written, hwrite, hadvance⟩ := Option.bind_eq_some_iff.mp hinput
    exact he.inputNarrow hend hwrap hroom hwrite hadvance
  next =>
    obtain ⟨wrapped, hwrap, hinput⟩ := Option.bind_eq_some_iff.mp hinput
    obtain ⟨room, hroom, hwrite⟩ := Option.bind_eq_some_iff.mp hinput
    exact he.inputWide hend hwrap hroom hwrite

theorem lt_of_deleteChars {row next : Row} {numCols col count : Nat} {bg : Color} (hlength : row.inner.length = numCols)
    (hcount : count ≠ 0) (hdelete : row.deleteChars numCols col count bg = some next) : col < numCols := by
  rw [Row.deleteChars, if_neg hcount] at hdelete
  obtain ⟨lastCol, -, hdelete⟩ := Option.bind_eq_some_iff.mp hdelete
  obtain ⟨first, hstart, -⟩ := Option.bind_eq_some_iff.mp hdelete
  have hlt := Row.lt_of_resetWideCharAtStartBoundary (Row.touchAll_kept_of_length hlength) hstart
  exact hlt

theorem EndMarked.handle (he : h.EndMarked) {call : HandlerCall} (hsafe : h.StepKeepsMarks width call)
    (hhandle : h.handle width call = some after) : after.EndMarked := by
  apply endMarkedInvariant.handle he _ _ _ _ hhandle
  · rintro c rfl hinput
    exact he.input hsafe hinput
  · rintro count rfl old new hline hold hnew
    by_cases hcount : count = 0
    · rw [Row.deleteChars, if_pos hcount] at hnew
      exact Option.some.inj hnew ▸ hold
    · have hcol := lt_of_deleteChars hold.length hcount hnew
      exact (hold.deleteChars_iff hcol hnew).mpr (hsafe old hline)
  · rintro count rfl hneeds hwrap
    exact he.wrapline (hsafe hneeds) hwrap
  · rintro numRows numCols rfl hrows hlt row hmem hrow
    exact hrow.grow hlt (hsafe hrows hlt row hmem)

/-- Every call is one that leaves the marks at the ends of the rows where it is made. -/
def RunKeepsMarks (width : UnicodeWidth) (h : GridHandler) : List HandlerCall → Prop
  | [] => True
  | call :: calls => h.StepKeepsMarks width call ∧ ∀ next ∈ h.handle width call, next.RunKeepsMarks width calls

instance decidableRunKeepsMarks (width : UnicodeWidth) (h : GridHandler) :
    (calls : List HandlerCall) → Decidable (h.RunKeepsMarks width calls)
  | [] => instDecidableTrue
  | call :: calls =>
    have : DecidablePred fun next : GridHandler => next.RunKeepsMarks width calls :=
      fun next => decidableRunKeepsMarks width next calls
    inferInstanceAs (Decidable (h.StepKeepsMarks width call ∧
      ∀ next ∈ h.handle width call, next.RunKeepsMarks width calls))

theorem EndMarked.run {calls : List HandlerCall} (he : h.EndMarked) (hsafe : h.RunKeepsMarks width calls)
    (hrun : h.run width calls = some after) : after.EndMarked := by
  induction calls generalizing h with
  | nil => exact Option.some.inj hrun ▸ he
  | cons call calls ih =>
    obtain ⟨next, hnext, hrun⟩ := Option.bind_eq_some_iff.mp hrun
    exact ih (he.handle hsafe.1 hnext) (hsafe.2 next hnext) hrun

end GridHandler

/-- Only the last cell of the row has the flags of a line that goes on in the next row. -/
def Row.WrapsAtEnd (row : Row) : Prop :=
  ∀ i cell, row.inner[i]? = some cell → cell.flags.wrapline = true ∨ cell.flags.leadingWideCharSpacer = true →
    i + 1 = row.inner.length

namespace GridHandler

variable {after : GridHandler}

/-- No run moves a wrapped line's mark inwards whose calls cannot where they are made. -/
theorem run_wraps_at_end (width : UnicodeWidth) (rows columns : Nat) (isSequential isAltScreen : Bool)
    (behavior : FullGridClearBehavior) (calls : List HandlerCall)
    (hsafe : (new rows columns isSequential isAltScreen behavior).RunKeepsMarks width calls)
    (hrun : (new rows columns isSequential isAltScreen behavior).run width calls = some after) (index : Nat)
    (row : Row) (hrow : after.grid.raw.get index = some row) : row.WrapsAtEnd := by
  have hnew : (new rows columns isSequential isAltScreen behavior).EndMarked :=
    endMarkedInvariant.newGrid rows columns 0 isSequential
  have hmarked := hnew.run hsafe hrun
  obtain ⟨raw, -, hraw⟩ := Option.bind_eq_some_iff.mp hrow
  have hend := hmarked.rows row (List.mem_of_getElem? hraw)
  intro i cell hcell hflags
  rw [hend.length]
  apply hend.marked i
  refine ⟨cell, hcell, ?_⟩
  rw [Cell.endMark, Bool.or_eq_true]
  exact hflags

def firstRowMarks (columns : Nat) (calls : List HandlerCall) : Option (List Bool) :=
  ((new 2 columns true true .scroll).run plainWidth calls).bind fun after =>
    (after.grid.raw.get 0).map fun row => row.inner.map Cell.endMark

variable {marks : List Bool}

theorem exists_of_firstRowMarks {columns : Nat} {calls : List HandlerCall}
    (heq : firstRowMarks columns calls = some marks) :
    ∃ after row, (new 2 columns true true .scroll).run plainWidth calls = some after ∧
      after.grid.raw.get 0 = some row ∧ row.inner.map Cell.endMark = marks := by
  obtain ⟨after, hafter, heq⟩ := Option.bind_eq_some_iff.mp heq
  obtain ⟨row, hrow, heq⟩ := Option.map_eq_some_iff.mp heq
  exact ⟨after, row, hafter, hrow, heq⟩

def marksKeptRun : List HandlerCall :=
  [.input 'a', .input 'b', .input 'c', .input '中', .goto 0 1, .insertBlank 1, .goto 1 0, .input 'd', .input 'e',
    .input 'f', .goto 0 2, .deleteChars 2, .resize 2 6, .moveBackwardTabs 1, .setMode .insert, .input '文']

theorem run_wraps_at_end_kept : ∃ after row, (new 2 4 true true .scroll).run plainWidth marksKeptRun = some after ∧
    after.grid.raw.get 0 = some row ∧ row.WrapsAtEnd := by
  have heval : (firstRowMarks 4 marksKeptRun).isSome = true := by decide +kernel
  obtain ⟨marks, hmarks⟩ := Option.isSome_iff_exists.mp heval
  obtain ⟨after, row, hrun, hrow, -⟩ := exists_of_firstRowMarks hmarks
  exact ⟨after, row, hrun, hrow,
    run_wraps_at_end plainWidth 2 4 true true .scroll marksKeptRun (by decide +kernel) hrun 0 row hrow⟩

theorem not_wrapsAtEnd {row : Row} {i : Nat} (heq : row.inner.map Cell.endMark = marks)
    (hmark : marks[i]? = some true) (hlast : i + 1 ≠ marks.length) : ¬ row.WrapsAtEnd := by
  intro h
  rw [← heq, List.getElem?_map] at hmark
  obtain ⟨cell, hcell, hmark⟩ := Option.map_eq_some_iff.mp hmark
  rw [Cell.endMark, Bool.or_eq_true] at hmark
  apply hlast
  rw [← heq, List.length_map]
  exact h i cell hcell hmark

def wrappedThenDeleted : List HandlerCall :=
  [.input 'a', .input 'b', .input 'c', .input 'd', .input 'e', .goto 0 0, .deleteChars 1]

def wrappedThenWidened : List HandlerCall :=
  [.input 'a', .input 'b', .input 'c', .input 'd', .input 'e', .resize 2 6]

def wrapsInside : List HandlerCall :=
  [.input 'a', .input 'b', .input 'c', .input 'd', .moveBackwardTabs 1, .input 'e']

theorem run_misplaces_marks :
    (∃ after row, (new 2 4 true true .scroll).run plainWidth wrappedThenDeleted = some after ∧
      after.grid.raw.get 0 = some row ∧ ¬ row.WrapsAtEnd) ∧
    (∃ after row, (new 2 4 true true .scroll).run plainWidth wrappedThenWidened = some after ∧
      after.grid.raw.get 0 = some row ∧ ¬ row.WrapsAtEnd) ∧
    ∃ after row, (new 2 4 true true .scroll).run plainWidth wrapsInside = some after ∧
      after.grid.raw.get 0 = some row ∧ ¬ row.WrapsAtEnd := by
  have hdeleted : firstRowMarks 4 wrappedThenDeleted = some [false, false, true, false] := by decide +kernel
  have hwidened : firstRowMarks 4 wrappedThenWidened = some [false, false, false, true, false, false] := by
    decide +kernel
  have hinside : firstRowMarks 4 wrapsInside = some [true, false, false, false] := by decide +kernel
  refine ⟨?_, ?_, ?_⟩
  · obtain ⟨after, row, hrun, hrow, heq⟩ := exists_of_firstRowMarks hdeleted
    exact ⟨after, row, hrun, hrow, not_wrapsAtEnd (i := 2) heq rfl (by decide)⟩
  · obtain ⟨after, row, hrun, hrow, heq⟩ := exists_of_firstRowMarks hwidened
    exact ⟨after, row, hrun, hrow, not_wrapsAtEnd (i := 3) heq rfl (by decide)⟩
  · obtain ⟨after, row, hrun, hrow, heq⟩ := exists_of_firstRowMarks hinside
    exact ⟨after, row, hrun, hrow, not_wrapsAtEnd (i := 0) heq rfl (by decide)⟩

end GridHandler

end InfiniShell.Terminal
