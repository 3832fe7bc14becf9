import InfiniShell.Terminal.WideHandler

namespace InfiniShell.Terminal

open Collections

instance (row : Row) (i : Nat) : Decidable (row.OpenAt i) :=
  inferInstanceAs (Decidable (∀ cell ∈ row.inner[i]?, cell.isSpacer = false))

instance (row : Row) (numCols col : Nat) : Decidable (row.InsertsWhole numCols col) :=
  inferInstanceAs (Decidable (_ ∨ _ ∨ _ ∨ _))

instance (row : Row) (numCols col count : Nat) : Decidable (row.DeletesWhole numCols col count) :=
  inferInstanceAs (Decidable (_ ∨ _))

namespace GridHandler

variable {h after : GridHandler} {width : UnicodeWidth}

instance (h : GridHandler) : Decidable h.InsertsWhole :=
  inferInstanceAs (Decidable (_ → ∀ row ∈ h.cursorLine, row.InsertsWhole h.columns h.col))

/-- A wide character either wraps to the start of the next row or finds room in this one. -/
def FitsWideChar (h : GridHandler) : Prop :=
  h.cursor.inputNeedsWrap = true ∧ h.mode.lineWrap = true ∨ h.InsertsWhole

instance (h : GridHandler) : Decidable h.FitsWideChar := inferInstanceAs (Decidable (_ ∨ _))

/-- No content becomes wide whose cell is half of a pair already. -/
def KeepsPair (width : UnicodeWidth) (c : Char) (cell : Cell) : Prop :=
  cell.isWide = true → (cell.pushZerowidth c).2 = true → width.ofCell (cell.pushZerowidth c).1 = some 2 →
    width.ofCell cell = some 2 ∨ width.ofCell cell = none

instance (c : Char) (cell : Cell) : Decidable (KeepsPair width c cell) :=
  inferInstanceAs (Decidable (_ → _ → _ → _ ∨ _))

def FitsZeroWidth (width : UnicodeWidth) (h : GridHandler) (c : Char) : Prop :=
  h.supportsEmojiPresentationSelector = true → ∀ row ∈ h.cursorRow, ∀ col ∈ h.zeroWidthCol row,
    ∀ cell ∈ h.cell row col, KeepsPair width c cell

instance (h : GridHandler) (c : Char) : Decidable (h.FitsZeroWidth width c) :=
  inferInstanceAs (Decidable (_ → ∀ row ∈ h.cursorRow, ∀ col ∈ h.zeroWidthCol row, ∀ cell ∈ h.cell row col,
    KeepsPair width c cell))

theorem put_whole (hw : h.grid.Whole) {index col : Nat} {old new : Cell} (hold : h.cell index col = some old)
    (hwide : new.isWide = old.isWide) (hspacer : new.isSpacer = old.isSpacer)
    (hput : h.updateRow index (·.put col new) = some after) : after.grid.Whole := by
  apply updateRow_whole hw _ hput
  intro row row' hrow hwhole hnew
  rw [GridHandler.cell, hrow, Option.bind_eq_bind, Option.bind_some] at hold
  exact Row.put_halves hwhole hold hwide hspacer hnew

variable {row col : Nat} {c : Char}

theorem promoteCell_whole (hw : h.grid.Whole) {wide : Cell}
    (hcell : h.cell row col = some wide) (hnarrow : wide.Narrow)
    (hpromote : h.promoteCell row col c wide = some after) : after.grid.Whole := by
  obtain ⟨cleared, hcleared, hpromote⟩ := Option.bind_eq_some_iff.mp hpromote
  have hblank : ({} : Cell).Narrow := narrow_of_flags rfl
  have hwhole : cleared.grid.Whole :=
    put_whole hw hcell (hblank.1.trans hnarrow.1.symm) (hblank.2.trans hnarrow.2.symm) hcleared
  split at hpromote
  next =>
    have hflags := Cell.flags_popZerowidth wide
    have hpopped : wide.popZerowidth.1.Narrow := by
      constructor
      · rw [Cell.isWide, hflags]
        exact hnarrow.1
      · rw [Cell.isSpacer, hflags]
        exact hnarrow.2
    simp only at hpromote
    split at hpromote
    next =>
      exact put_whole hwhole (cell_of_put hcleared) (hpopped.1.trans hblank.1.symm)
        (hpopped.2.trans hblank.2.symm) hpromote
    next => cases hpromote
  next =>
    have hmoved := updateCursor_every (GridStorage.whole_iff.mp hwhole)
      (movePoint_template (q := Cell.Narrow) fun point => { point with col })
    apply writeWideChar_whole (GridStorage.whole_iff.mpr hmoved) _ hpromote
    exact fun _ _ => rfl

theorem zeroWidthCol_open (hw : h.grid.Whole) {cell : Cell} (hcol : h.zeroWidthCol row = some col)
    (hcell : h.cell row col = some cell) : cell.isSpacer = false := by
  obtain ⟨last, hlast, hcol⟩ := Option.bind_eq_some_iff.mp hcol
  obtain ⟨line, hline, hlast⟩ := Option.bind_eq_some_iff.mp hlast
  obtain ⟨raw, -, hraw⟩ := Option.bind_eq_some_iff.mp hline
  have hwhole := hw.rows line (List.mem_of_getElem? hraw)
  rw [GridHandler.cell, hline, Option.bind_eq_bind, Option.bind_some] at hcell
  generalize (if h.cursor.inputNeedsWrap = true then h.col else h.col - 1) = col' at hlast hcol
  have heq := Option.some.inj hcol
  by_cases hspacer : last.flags.wideCharSpacer = true
  · rw [if_pos hspacer] at heq
    have hpos := hwhole.pos_of_spacer hlast hspacer
    have hlast' : line.inner[col + 1]? = some last := by
      rw [← heq, Nat.sub_add_cancel hpos]
      exact hlast
    obtain ⟨first, hfirst, hwide⟩ := (hwhole.paired.opens_iff col).mpr ⟨last, hlast', hspacer⟩
    obtain rfl := Option.some.inj (hfirst.symm.trans hcell)
    exact hwhole.paired.not_both (List.mem_of_getElem? hfirst) hwide
  · rw [if_neg hspacer] at heq
    subst heq
    obtain rfl := Option.some.inj (hlast.symm.trans hcell)
    exact Bool.not_eq_true _ ▸ hspacer

theorem inputZeroWidth_whole (hw : h.grid.Whole) (hfits : h.FitsZeroWidth width c)
    (hinput : h.inputZeroWidth width c = some after) : after.grid.Whole := by
  obtain ⟨row, hrow, hinput⟩ := Option.bind_eq_some_iff.mp hinput
  obtain ⟨col, hcol, hinput⟩ := Option.bind_eq_some_iff.mp hinput
  obtain ⟨cell, hcell, hinput⟩ := Option.bind_eq_some_iff.mp hinput
  have hsafe := fun hsupports => hfits hsupports row hrow col hcol cell hcell
  split at hinput
  next => exact Option.some.inj hinput ▸ hw
  next oldWidth hold =>
    simp only [Option.bind_eq_bind, Option.bind_eq_some_iff] at hinput
    obtain ⟨pushed, hpushed, hinput⟩ := hinput
    have hflags := Cell.flags_pushZerowidth cell c
    have hwide : (cell.pushZerowidth c).1.isWide = cell.isWide := by rw [Cell.isWide, hflags, Cell.isWide]
    have hspacer : (cell.pushZerowidth c).1.isSpacer = cell.isSpacer := by
      rw [Cell.isSpacer, hflags, Cell.isSpacer]
    have hwhole := put_whole hw hcell hwide hspacer hpushed
    split at hinput
    next => exact Option.some.inj hinput ▸ hwhole
    next haccepted =>
      split at hinput
      next => exact Option.some.inj hinput ▸ hwhole
      next newWidth hnew =>
        split at hinput
        next hc =>
          apply promoteCell_whole hwhole (cell_of_put hpushed) _ hinput
          refine ⟨?_, hspacer.trans (zeroWidthCol_open hw hcol hcell)⟩
          rw [hwide]
          by_contra hisWide
          have hsupports : h.supportsEmojiPresentationSelector = true := by
            obtain ⟨storage, -, rfl⟩ := Option.map_eq_some_iff.mp hpushed
            exact hc.2.2
          have hkept := hsafe hsupports (Bool.not_eq_false _ ▸ hisWide) (Bool.not_eq_false _ ▸ haccepted)
            (hnew.trans (congrArg some hc.2.1))
          rw [hold] at hkept
          cases hkept with
          | inl htwo => exact hc.1 ((Option.some.inj htwo).trans hc.2.1.symm)
          | inr hnone => cases hnone
        next => exact Option.some.inj hinput ▸ hwhole

theorem wrapIfNeeded_inserts (hfits : h.FitsWideChar) (hwrap : h.wrapIfNeeded = some after) : after.InsertsWhole := by
  unfold wrapIfNeeded at hwrap
  split at hwrap
  next hneeds =>
    unfold wrapline at hwrap
    split at hwrap
    next hoff =>
      obtain rfl := Option.some.inj hwrap
      cases hfits with
      | inl hwraps => exact absurd hwraps.2 (by rw [hoff]; exact Bool.false_ne_true)
      | inr hinserts => exact hinserts
    next =>
      obtain ⟨marked, -, hwrap⟩ := Option.bind_eq_some_iff.mp hwrap
      obtain ⟨moved, -, hwrap⟩ := Option.bind_eq_some_iff.mp hwrap
      obtain rfl := Option.some.inj hwrap
      exact fun _ row _ => Or.inl rfl
  next hneeds =>
    obtain rfl := Option.some.inj hwrap
    cases hfits with
    | inl hwraps => exact absurd hwraps.1 hneeds
    | inr hinserts => exact hinserts

theorem inputWide_whole (hw : h.grid.Whole) (hfits : h.FitsWideChar) {wrapped room : GridHandler}
    (hwrap : h.wrapIfNeeded = some wrapped) (hroom : wrapped.makeRoom 2 = some room)
    (hwrite : room.writeWideChar c id = some after) : after.grid.Whole := by
  have hwhole := wrapIfNeeded_whole hw hwrap
  have hready := makeRoom_ready hwhole (wrapIfNeeded_inserts hfits hwrap) hroom
  have hid : ∀ cell : Cell, cell.Narrow → (id cell).isSpacer = false := fun _ hcell => hcell.2
  unfold makeRoom at hroom
  split at hroom
  next hc =>
    have hcol : room.col + 1 < room.columns := by
      obtain ⟨index, -, hroom⟩ := Option.bind_eq_some_iff.mp hroom
      obtain ⟨storage, -, rfl⟩ := Option.map_eq_some_iff.mp hroom
      exact Nat.lt_of_succ_lt hc.2
    exact hready.writeWideChar hcol hid hwrite
  next =>
    obtain rfl := Option.some.inj hroom
    exact writeWideChar_whole hwhole hid hwrite

def FitsInput (width : UnicodeWidth) (h : GridHandler) (c : Char) : Option (Fin 3) → Prop
  | some 0 => h.FitsZeroWidth width c
  | some 2 => h.FitsWideChar
  | _ => True

def StepKeepsPairs (width : UnicodeWidth) (h : GridHandler) : HandlerCall → Prop
  | .input c => h.FitsInput width c (width.ofChar c)
  | .deleteChars count => ∀ row ∈ h.cursorLine, row.DeletesWhole h.columns h.col count
  | _ => True

instance (h : GridHandler) (c : Char) : (charWidth : Option (Fin 3)) → Decidable (h.FitsInput width c charWidth)
  | some 0 => inferInstanceAs (Decidable (h.FitsZeroWidth width c))
  | some 2 => inferInstanceAs (Decidable h.FitsWideChar)
  | none | some 1 => instDecidableTrue

instance (h : GridHandler) : (call : HandlerCall) → Decidable (h.StepKeepsPairs width call)
  | .input c => inferInstanceAs (Decidable (h.FitsInput width c (width.ofChar c)))
  | .deleteChars count =>
    inferInstanceAs (Decidable (∀ row ∈ h.cursorLine, row.DeletesWhole h.columns h.col count))
  | .goto .. | .gotoLine .. | .gotoCol .. | .moveUp .. | .moveDown .. | .moveForward .. | .moveBackward ..
  | .moveDownAndCr .. | .moveUpAndCr .. | .putTab .. | .backspace | .carriageReturn | .linefeed | .newline
  | .setHorizontalTabstop | .clearTab | .clearAllTabs | .moveBackwardTabs .. | .insertBlank .. | .eraseChars ..
  | .clearLine .. | .clearScreen .. | .scrollUp .. | .scrollDown .. | .insertBlankLines .. | .deleteLines ..
  | .reverseIndex | .setScrollingRegion .. | .saveCursorPosition | .restoreCursorPosition | .terminalAttribute ..
  | .setMode .. | .unsetMode .. | .setActiveCharset .. | .configureCharset .. | .setHyperlink ..
  | .setSupportsEmojiPresentationSelector .. | .decaln | .resetState | .onFinishByteProcessing
  | .resize .. => instDecidableTrue

theorem input_whole (hw : h.grid.Whole) (hsafe : h.StepKeepsPairs width (.input c))
    (hinput : h.input width c = some after) : after.grid.Whole := by
  rw [StepKeepsPairs] at hsafe
  unfold input at hinput
  generalize width.ofChar c = charWidth at hsafe hinput
  split at hinput
  next => exact Option.some.inj hinput ▸ hw
  next => exact inputZeroWidth_whole hw hsafe hinput
  next =>
    obtain ⟨wrapped, hwrap, hinput⟩ := Option.bind_eq_some_iff.mp hinput
    obtain ⟨room, hroom, hinput⟩ := Option.bind_eq_some_iff.mp hinput
    obtain ⟨written, hwrite, hadvance⟩ := Option.bind_eq_some_iff.mp hinput
    have hwhole := makeRoom_whole (wrapIfNeeded_whole hw hwrap) hroom
    exact advanceCursorByOneCell_whole (writeAtCursor_whole hwhole (fun _ hcell => hcell) hwrite) hadvance
  next =>
    obtain ⟨wrapped, hwrap, hinput⟩ := Option.bind_eq_some_iff.mp hinput
    obtain ⟨room, hroom, hwrite⟩ := Option.bind_eq_some_iff.mp hinput
    exact inputWide_whole hw hsafe hwrap hroom hwrite

theorem handle_whole (hw : h.grid.Whole) {call : HandlerCall} (hsafe : h.StepKeepsPairs width call)
    (hhandle : h.handle width call = some after) : after.grid.Whole := by
  rw [GridStorage.whole_iff]
  apply wholeInvariant.handle (GridStorage.whole_iff.mp hw) _ _ _ _ hhandle
  · rintro c rfl hinput
    exact GridStorage.whole_iff.mp (input_whole hw hsafe hinput)
  · rintro count rfl old new hline hold hnew
    exact Row.deleteChars_whole hold (hsafe old hline) hnew
  · intro count _ _ hwrap
    exact GridStorage.whole_iff.mp (wrapline_whole hw hwrap)
  · intro numRows numCols _ _ hlt row _ hrow
    exact Row.grow_whole hrow (Nat.le_of_lt hlt)

/-- Every call is one that cannot tear a pair where it is made. -/
def RunKeepsPairs (width : UnicodeWidth) (h : GridHandler) : List HandlerCall → Prop
  | [] => True
  | call :: calls => h.StepKeepsPairs width call ∧ ∀ next ∈ h.handle width call, next.RunKeepsPairs width calls

instance decidableRunKeepsPairs (width : UnicodeWidth) (h : GridHandler) :
    (calls : List HandlerCall) → Decidable (h.RunKeepsPairs width calls)
  | [] => instDecidableTrue
  | call :: calls =>
    have : DecidablePred fun next : GridHandler => next.RunKeepsPairs width calls :=
      fun next => decidableRunKeepsPairs width next calls
    inferInstanceAs (Decidable (h.StepKeepsPairs width call ∧
      ∀ next ∈ h.handle width call, next.RunKeepsPairs width calls))

theorem run_whole {calls : List HandlerCall} (hw : h.grid.Whole) (hsafe : h.RunKeepsPairs width calls)
    (hrun : h.run width calls = some after) : after.grid.Whole := by
  induction calls generalizing h with
  | nil => exact Option.some.inj hrun ▸ hw
  | cons call calls ih =>
    obtain ⟨next, hnext, hrun⟩ := Option.bind_eq_some_iff.mp hrun
    exact ih (handle_whole hw hsafe.1 hnext) (hsafe.2 next hnext) hrun

def visibleRow (h : GridHandler) (line : Nat) : Option Row := do
  let history ← h.grid.historySize
  h.grid.raw.get (history + line)

end GridHandler

/-- A wide cell is followed by a spacer, and no other cell is one. -/
structure Row.Untorn (row : Row) : Prop where
  wide_iff : ∀ i, (∃ cell, row.inner[i]? = some cell ∧ cell.flags.wideChar = true) ↔
    ∃ next, row.inner[i + 1]? = some next ∧ next.flags.wideCharSpacer = true
  first : ∀ cell, row.inner[0]? = some cell → cell.flags.wideCharSpacer = false

theorem Row.Whole.untorn {numCols : Nat} {row : Row} (h : row.Whole numCols) : row.Untorn :=
  ⟨h.paired.opens_iff, fun _ hcell => h.paired.getElem_zero hcell⟩

namespace GridHandler

variable {h after : GridHandler}

/-- No run tears a pair whose calls cannot where they are made. -/
theorem run_untorn (width : UnicodeWidth) (rows columns : Nat) (isSequential isAltScreen : Bool)
    (behavior : FullGridClearBehavior) (calls : List HandlerCall)
    (hsafe : (new rows columns isSequential isAltScreen behavior).RunKeepsPairs width calls)
    (hrun : (new rows columns isSequential isAltScreen behavior).run width calls = some after) (line : Nat)
    (row : Row) (hrow : after.visibleRow line = some row) : row.Untorn := by
  have hnew : (new rows columns isSequential isAltScreen behavior).grid.Whole :=
    GridStorage.whole_iff.mpr (wholeInvariant.newGrid rows columns 0 isSequential)
  have hwhole := run_whole hnew hsafe hrun
  obtain ⟨history, -, hget⟩ := Option.bind_eq_some_iff.mp hrow
  obtain ⟨raw, -, hraw⟩ := Option.bind_eq_some_iff.mp hget
  exact (hwhole.rows row (List.mem_of_getElem? hraw)).untorn

/-- Controls have no width, ideographs are wide and selectors have width 0. -/
def plainWidth : UnicodeWidth where
  ofChar c :=
    if c.toNat < 32 then none
    else if 0x4e00 ≤ c.toNat ∧ c.toNat < 0xa000 then some 2
    else if 0xfe00 ≤ c.toNat ∧ c.toNat < 0xfe10 then some 0
    else some 1
  ofStr s := if s.toList.contains '\ufe0f' then 2 else 1

def lineHalves (columns : Nat) (calls : List HandlerCall) : Option (List (Bool × Bool)) :=
  ((new 1 columns true false .scroll).run plainWidth calls).bind fun after =>
    (after.visibleRow 0).map Row.halves

theorem exists_of_lineHalves {columns : Nat} {calls : List HandlerCall} {halves : List (Bool × Bool)}
    (heq : lineHalves columns calls = some halves) :
    ∃ after row, (new 1 columns true false .scroll).run plainWidth calls = some after ∧
      after.visibleRow 0 = some row ∧ row.halves = halves := by
  obtain ⟨after, hafter, heq⟩ := Option.bind_eq_some_iff.mp heq
  obtain ⟨row, hrow, heq⟩ := Option.map_eq_some_iff.mp heq
  exact ⟨after, row, hafter, hrow, heq⟩

def keptRun : List HandlerCall :=
  [.input '中', .input 'a', .input '☁', .input '\ufe0f', .goto 0 0, .setMode .insert, .input '文', .deleteChars 2]

theorem run_untorn_kept : ∃ after row, (new 1 8 true false .scroll).run plainWidth keptRun = some after ∧
    after.visibleRow 0 = some row ∧ row.Untorn := by
  have heval : lineHalves 8 keptRun = some [(true, false), (false, true), (false, false), (true, false),
      (false, true), (false, false), (false, false), (false, false)] := by decide +kernel
  obtain ⟨after, row, hrun, hrow, -⟩ := exists_of_lineHalves heval
  exact ⟨after, row, hrun, hrow,
    run_untorn plainWidth 1 8 true false .scroll keptRun (by decide +kernel) hrun 0 row hrow⟩

theorem not_untorn {row : Row} {i : Nat} (hwide : row.halves[i]? = some (true, false))
    (hnext : row.halves[i + 1]? = some (false, false)) : ¬ row.Untorn := by
  intro h
  rw [Row.halves, List.getElem?_map] at hwide hnext
  obtain ⟨cell, hcell, heq⟩ := Option.map_eq_some_iff.mp hwide
  obtain ⟨next, hget, heq'⟩ := Option.map_eq_some_iff.mp hnext
  obtain ⟨next', hget', hspacer⟩ := (h.wide_iff i).mp ⟨cell, hcell, congrArg Prod.fst heq⟩
  obtain rfl := Option.some.inj (hget.symm.trans hget')
  exact absurd ((congrArg Prod.snd heq').symm.trans hspacer) Bool.false_ne_true

/-- Insert mode, with a wide character between two pairs. -/
def insertedBetween : List HandlerCall :=
  [.input '中', .goto 0 3, .input '文', .goto 0 2, .setMode .insert, .input '字']

/-- More cells deleted than there are behind the cursor. -/
def deletedAtEnd : List HandlerCall := [.goto 0 1, .input '中', .goto 0 4, .deleteChars 3]

theorem run_tears :
    (∃ after row, (new 1 5 true false .scroll).run plainWidth insertedBetween = some after ∧
      after.visibleRow 0 = some row ∧ ¬ row.Untorn) ∧
    ∃ after row, (new 1 5 true false .scroll).run plainWidth deletedAtEnd = some after ∧
      after.visibleRow 0 = some row ∧ ¬ row.Untorn := by
  have hinserted : lineHalves 5 insertedBetween = some [(true, false), (false, false), (true, false), (false, true),
      (false, false)] := by decide +kernel
  have hdeleted : lineHalves 5 deletedAtEnd = some [(false, false), (true, false), (false, false), (false, false),
      (false, false)] := by decide +kernel
  constructor
  · obtain ⟨after, row, hrun, hrow, heq⟩ := exists_of_lineHalves hinserted
    exact ⟨after, row, hrun, hrow, not_untorn (i := 0) (by rw [heq]; rfl) (by rw [heq]; rfl)⟩
  · obtain ⟨after, row, hrun, hrow, heq⟩ := exists_of_lineHalves hdeleted
    exact ⟨after, row, hrun, hrow, not_untorn (i := 1) (by rw [heq]; rfl) (by rw [heq]; rfl)⟩

end GridHandler

end InfiniShell.Terminal
