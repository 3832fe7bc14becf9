import InfiniShell.Terminal.HandlerInvariant
import InfiniShell.Terminal.WideWriting

namespace InfiniShell.Terminal

open Collections

namespace Row

variable {numCols : Nat} {row after : Row}

theorem new_whole (numCols : Nat) : (Row.new numCols).Whole numCols := by
  have hnarrow : ∀ cell ∈ List.replicate numCols ({} : Cell), cell.Narrow := by
    intro cell hcell
    rw [List.eq_of_mem_replicate hcell]
    exact narrow_of_flags rfl
  exact ⟨⟨List.length_replicate, fun cell hcell => hnarrow cell hcell⟩, Paired.of_forall_plain hnarrow⟩

theorem reset_whole (h : row.Whole numCols) {template : Cell} (hreset : row.reset template = some after) :
    after.Whole numCols := by
  obtain ⟨last, -, hreset⟩ := Option.bind_eq_some_iff.mp hreset
  simp only at hreset
  generalize hocc : (if last.discriminant ≠ template.discriminant then row.inner.length else row.occ) = occ at hreset
  have hle : row.occ ≤ occ ∨ occ = row.inner.length := by
    rw [← hocc]
    split
    next => exact Or.inr rfl
    next => exact Or.inl (Nat.le_refl _)
  split at hreset
  next hocc' =>
    obtain rfl := Option.some.inj hreset
    have hnarrow : ∀ cell ∈ (row.inner.take occ).map (·.reset template) ++ row.inner.drop occ, cell.Narrow := by
      intro cell hcell
      cases List.mem_append.mp hcell with
      | inl hcell =>
        obtain ⟨cell', -, rfl⟩ := List.mem_map.mp hcell
        exact narrow_of_flags rfl
      | inr hcell =>
        obtain ⟨i, hi⟩ := List.getElem?_of_mem hcell
        rw [List.getElem?_drop] at hi
        cases hle with
        | inl hle => exact h.narrow (by omega) hi
        | inr hall =>
          rw [List.getElem?_eq_none (by omega)] at hi
          cases hi
    refine ⟨⟨?_, fun cell hcell => hnarrow cell hcell⟩, Paired.of_forall_plain hnarrow⟩
    rw [List.length_append, List.length_map, List.length_take, List.length_drop, ← h.length]
    omega
  next => cases hreset

def halves (row : Row) : List (Bool × Bool) := row.inner.map fun cell => (cell.isWide, cell.isSpacer)

variable {i : Nat}

theorem getElem?_of_halves (h : after.halves = row.halves) {cell : Cell} (hcell : after.inner[i]? = some cell) :
    ∃ old, row.inner[i]? = some old ∧ cell.isWide = old.isWide ∧ cell.isSpacer = old.isSpacer := by
  have hget := congrArg (fun l => l[i]?) h
  simp only [halves, List.getElem?_map, hcell, Option.map_some] at hget
  obtain ⟨old, hold, heq⟩ := Option.map_eq_some_iff.mp hget.symm
  exact ⟨old, hold, (congrArg Prod.fst heq).symm, (congrArg Prod.snd heq).symm⟩

theorem Whole.of_halves (h : row.Whole numCols) (hkept : after.Kept numCols) (heq : after.halves = row.halves) :
    after.Whole numCols :=
  ⟨hkept, h.paired.congr heq.symm⟩

theorem NarrowAt.of_halves (h : row.NarrowAt i) (heq : after.halves = row.halves) : after.NarrowAt i := by
  intro cell hcell
  obtain ⟨old, hold, hwide, hspacer⟩ := getElem?_of_halves heq hcell
  exact ⟨hwide.trans (h old hold).1, hspacer.trans (h old hold).2⟩

theorem ReversedRoom.of_halves {col : Nat} (h : row.ReversedRoom numCols col) (hkept : after.Kept numCols)
    (heq : after.halves = row.halves) : after.ReversedRoom numCols col := by
  obtain ⟨spacer, hspacer, hisSpacer, hnotWide⟩ := h.spacer
  obtain ⟨wide, hwide, hisWide, hnotSpacer⟩ := h.wide
  obtain ⟨spacer', hspacer', hwideEq, hspacerEq⟩ := getElem?_of_halves heq.symm hspacer
  obtain ⟨wide', hwide', hwideEq', hspacerEq'⟩ := getElem?_of_halves heq.symm hwide
  refine ⟨hkept, h.lt, ?_, ⟨spacer', hspacer', hspacerEq ▸ hisSpacer, hwideEq ▸ hnotWide⟩,
    ⟨wide', hwide', hwideEq' ▸ hisWide, hspacerEq' ▸ hnotSpacer⟩, fun hpos => (h.before hpos).of_halves heq,
    h.behind.of_halves heq⟩
  apply h.paired.congr
  rw [halves, halves] at heq
  rw [blankedRoom, blankedRoom, List.map_set, List.map_set, List.map_set, List.map_set, heq]

variable {f : Cell → Cell}

theorem modify_halves (h : row.Kept numCols)
    (hf : ∀ cell, row.inner[i]? = some cell → (f cell).isWide = cell.isWide ∧ (f cell).isSpacer = cell.isSpacer)
    (hmodify : row.modify i f = some after) : after.Kept numCols ∧ after.halves = row.halves := by
  obtain ⟨cell, hcell, hkept, -, hinner⟩ := modify_spec h hmodify
  refine ⟨hkept, ?_⟩
  rw [halves, halves, hinner, List.map_set, (hf cell hcell).1, (hf cell hcell).2]
  apply List.ext_getElem?
  intro j
  rw [List.getElem?_set]
  by_cases hj : i = j
  · subst hj
    have hlt := (List.getElem?_eq_some_iff.mp hcell).1
    rw [if_pos rfl, List.length_map, if_pos hlt, List.getElem?_map, hcell, Option.map_some]
  · rw [if_neg hj]

theorem modify_whole (h : row.Whole numCols)
    (hf : ∀ cell, row.inner[i]? = some cell → (f cell).isWide = cell.isWide ∧ (f cell).isSpacer = cell.isSpacer)
    (hmodify : row.modify i f = some after) : after.Whole numCols := by
  obtain ⟨hkept, hhalves⟩ := modify_halves h.toKept hf hmodify
  exact h.of_halves hkept hhalves

end Row

def Storage.WholeRows (numCols : Nat) (s : Storage) : Prop := ∀ row ∈ s.inner, row.Whole numCols

/-- Every row is whole, and no template of a cursor is half of a wide character. -/
structure GridStorage.Whole (grid : GridStorage) : Prop where
  rows : grid.raw.WholeRows grid.columns
  template : grid.cursor.template.Narrow
  saved : grid.savedCursor.template.Narrow

variable {grid : GridStorage}

theorem GridStorage.whole_iff : grid.Whole ↔ grid.Every Row.Whole Cell.Narrow :=
  ⟨fun h => ⟨h.rows, h.template, h.saved⟩, fun h => ⟨h.rows, h.template, h.saved⟩⟩

theorem GridStorage.Whole.withRaw (h : grid.Whole) {raw : Storage}
    (hraw : raw.WholeRows grid.columns) : { grid with raw }.Whole :=
  ⟨hraw, h.template, h.saved⟩

theorem apply_narrow {template : Cell} (hnarrow : template.Narrow) (attr : Attr) : (attr.apply template).Narrow := by
  cases attr with
  | reset => exact narrow_of_flags rfl
  | _ => exact ⟨hnarrow.1, hnarrow.2⟩

theorem wholeInvariant : CallInvariant Row.Whole Cell.Narrow where
  length := fun h => h.length
  new := Row.new_whole
  rowReset := fun h hreset => Row.reset_whole h hreset
  rowShrink := fun h hlt hshrink => Row.shrinkWithoutReflow_whole h hlt hshrink
  template := narrow_of_flags rfl
  rowMap := fun h hf => Row.mapCells_whole h.toKept fun cell => narrow_of_flags (hf cell)
  rowModify := by
    intro columns col row after f h hf hmodify
    apply Row.modify_whole h _ hmodify
    intro cell _
    rw [Cell.isWide, Cell.isSpacer, hf cell, Cell.isWide, Cell.isSpacer]
    exact ⟨rfl, rfl⟩
  rowInsertBlank := fun h hinsert => Row.insertBlank_whole h hinsert
  rowEraseChars := fun h herase => Row.eraseChars_whole h herase
  rowClearLine := fun h hclear => Row.clearLine_whole h hclear
  rowClearUpTo := fun h hclear => Row.clearUpTo_whole h hclear
  applyAttr := fun attr hnarrow => apply_narrow hnarrow attr

end InfiniShell.Terminal

namespace InfiniShell.Terminal

open Collections

namespace Row

variable {numCols : Nat} {row after : Row}

theorem put_halves (h : row.Whole numCols) {i : Nat} {old cell : Cell} (hold : row.inner[i]? = some old)
    (hwide : cell.isWide = old.isWide) (hspacer : cell.isSpacer = old.isSpacer)
    (hput : row.put i cell = some after) : after.Whole numCols := by
  obtain ⟨hkept, -, hinner⟩ := put_spec h.toKept hput
  exact ⟨hkept, hinner ▸ h.paired.set_of_eq hold hwide hspacer⟩

def TakesPair (numCols col : Nat) (row : Row) : Prop := row.Whole numCols ∨ row.ReversedRoom numCols col

variable {col : Nat}

theorem TakesPair.of_halves (h : row.TakesPair numCols col) (hkept : after.Kept numCols)
    (heq : after.halves = row.halves) : after.TakesPair numCols col := by
  cases h with
  | inl hwhole => exact Or.inl (hwhole.of_halves hkept heq)
  | inr hreversed => exact Or.inr (hreversed.of_halves hkept heq)

theorem TakesPair.kept (h : row.TakesPair numCols col) : row.Kept numCols := by
  cases h with
  | inl hwhole => exact hwhole.toKept
  | inr hreversed => exact hreversed.toKept

variable {bg : Color}

theorem TakesPair.openAt_of_write (h : row.TakesPair numCols col) {f : Cell → Cell}
    (hwrite : row.write numCols col bg f = some after) : after.OpenAt (col + 1) := by
  cases h with
  | inl hwhole => exact Row.openAt_of_write hwhole hwrite
  | inr hreversed => exact hreversed.openAt_of_write hwrite

theorem TakesPair.writePair (h : row.TakesPair numCols col) {f g : Cell → Cell}
    {middle : Row} (hf : ∀ cell, (f cell).isWide = true ∧ (f cell).isSpacer = false)
    (hg : ∀ cell, (g cell).isWide = false ∧ (g cell).isSpacer = true)
    (hfirst : row.write numCols col bg f = some middle)
    (hsecond : middle.write numCols (col + 1) bg g = some after) : after.Whole numCols := by
  cases h with
  | inl hwhole => exact writePair_whole hwhole hf hg hfirst hsecond
  | inr hreversed => exact hreversed.writePair hf hg hfirst hsecond

end Row

namespace GridHandler

variable {h after : GridHandler} {width : UnicodeWidth}

theorem moveCursorForward_whole (hw : h.grid.Whole) {f : Cursor → Cursor}
    (hf : ∀ cursor, cursor.template.Narrow → (f cursor).template.Narrow)
    (hmove : h.moveCursorForward f = some after) : after.grid.Whole := by
  rw [GridStorage.whole_iff] at hw ⊢
  exact moveCursorForward_every hw hf hmove

theorem updateRow_whole (hw : h.grid.Whole) {row : Nat} {f : Row → Option Row}
    (hf : ∀ old new, h.grid.raw.get row = some old → old.Whole h.columns → f old = some new → new.Whole h.columns)
    (hupdate : h.updateRow row f = some after) : after.grid.Whole := by
  rw [GridStorage.whole_iff] at hw ⊢
  exact updateRow_every hw hf hupdate

theorem wrapline_whole (hw : h.grid.Whole) (hwrap : h.wrapline = some after) : after.grid.Whole := by
  rw [GridStorage.whole_iff] at hw ⊢
  apply wholeInvariant.wrapline hw _ hwrap
  intro _ col old new _ hold hnew
  apply Row.modify_whole hold _ hnew
  exact fun cell _ => ⟨rfl, rfl⟩

theorem advanceCursorByOneCell_whole (hw : h.grid.Whole) (hadvance : h.advanceCursorByOneCell = some after) :
    after.grid.Whole := by
  rw [GridStorage.whole_iff] at hw ⊢
  exact advanceCursorByOneCell_every hw hadvance

theorem newCell_narrow (hw : h.cursor.template.Narrow) (c : Char) (cell : Cell) : (h.newCell c cell).Narrow := by
  constructor
  · rw [Cell.isWide, newCell_flags]
    exact hw.1
  · rw [Cell.isSpacer, newCell_flags]
    exact hw.2

theorem unlead_halves {row : Row} {numCols col : Nat} {after : Row} (hkept : row.Kept numCols)
    (hmodify : row.modify col unlead = some after) : after.Kept numCols ∧ after.halves = row.halves := by
  apply Row.modify_halves hkept _ hmodify
  exact fun cell _ => ⟨rfl, rfl⟩

variable {row col : Nat} {flags : Flags}

theorem dropLeadingSpacer_whole (hw : h.grid.Whole)
    (hdrop : h.dropLeadingSpacer row col flags = some after) : after.grid.Whole := by
  obtain rfl | ⟨raw, old, new, hold, hunlead, rfl⟩ := dropLeadingSpacer_spec hdrop
  · exact hw
  · have hwhole := hw.rows old (List.mem_of_getElem? hold)
    obtain ⟨hkept, heq⟩ := unlead_halves hwhole.toKept hunlead
    exact hw.withRaw (Storage.Every.setRaw hw.rows (hwhole.of_halves hkept heq))

variable {c : Char} {f : Cell → Cell}

theorem writeAtCursor_whole (hw : h.grid.Whole)
    (hf : ∀ cell, cell.Narrow → (f cell).Narrow) (hwrite : h.writeAtCursor c f = some after) :
    after.grid.Whole := by
  obtain ⟨index, cell, cleared, raw, old, new, -, -, hcleared, -, hold, hnew, rfl⟩ := writeAtCursor_spec hwrite
  have hwhole := dropLeadingSpacer_whole hw hcleared
  apply hwhole.withRaw
  apply Storage.Every.setRaw hwhole.rows
  exact Row.write_whole (hwhole.rows old (List.mem_of_getElem? hold))
    (fun cell => hf _ (newCell_narrow hwhole.template c cell)) hnew

/-- Ready for a wide character: only the cursor's row may be other than whole. -/
structure Ready (h : GridHandler) : Prop where
  template : h.cursor.template.Narrow
  saved : h.grid.savedCursor.template.Narrow
  cursor : ∀ index raw row, h.cursorRow = some index → h.grid.raw.fromGridIndex index = some raw →
    h.grid.raw.inner[raw]? = some row → row.TakesPair h.columns h.col
  others : ∀ index raw, h.cursorRow = some index → h.grid.raw.fromGridIndex index = some raw →
    ∀ i row, i ≠ raw → h.grid.raw.inner[i]? = some row → row.Whole h.columns

theorem Ready.of_whole (hw : h.grid.Whole) : h.Ready :=
  ⟨hw.template, hw.saved, fun _ _ row _ _ hrow => Or.inl (hw.rows row (List.mem_of_getElem? hrow)),
    fun _ _ _ _ _ row _ hrow => hw.rows row (List.mem_of_getElem? hrow)⟩

theorem Ready.dropLeadingSpacer (hr : h.Ready)
    (hdrop : h.dropLeadingSpacer row col flags = some after) : after.Ready := by
  obtain rfl | ⟨changed, old, new, hold, hunlead, rfl⟩ := dropLeadingSpacer_spec hdrop
  · exact hr
  · have hlt := (List.getElem?_eq_some_iff.mp hold).1
    refine ⟨hr.template, hr.saved, ?_, ?_⟩
    · intro index raw row hindex hraw hrow
      rw [withRaw, Storage.fromGridIndex_setRaw] at hraw
      have hget : (h.grid.raw.inner.set changed new)[raw]? = some row := hrow
      by_cases heq : changed = raw
      · subst heq
        rw [List.getElem?_set_self hlt] at hget
        obtain rfl := Option.some.inj hget
        have hready := hr.cursor index changed old hindex hraw hold
        obtain ⟨hkept, heq⟩ := unlead_halves hready.kept hunlead
        exact hready.of_halves hkept heq
      · rw [List.getElem?_set_ne heq] at hget
        exact hr.cursor index raw row hindex hraw hget
    · intro index raw hindex hraw i row hne hrow
      rw [withRaw, Storage.fromGridIndex_setRaw] at hraw
      have hget : (h.grid.raw.inner.set changed new)[i]? = some row := hrow
      by_cases heq : changed = i
      · subst heq
        rw [List.getElem?_set_self hlt] at hget
        obtain rfl := Option.some.inj hget
        have hwhole := hr.others index raw hindex hraw changed old hne hold
        obtain ⟨hkept, heq⟩ := unlead_halves hwhole.toKept hunlead
        exact hwhole.of_halves hkept heq
      · rw [List.getElem?_set_ne heq] at hget
        exact hr.others index raw hindex hraw i row hne hget

variable {cell : Cell}

theorem wideCell_halves (hf : (f cell).isSpacer = false) :
    (wideCell f cell).isWide = true ∧ (wideCell f cell).isSpacer = false :=
  ⟨rfl, hf⟩

theorem spacerCell_halves {id : Option Nat} (hcell : cell.Narrow) :
    (spacerCell id cell).isWide = false ∧ (spacerCell id cell).isSpacer = true := by
  rw [Cell.isWide, Cell.isSpacer, spacerCell, Cell.flags_setHyperlinkId]
  exact ⟨hcell.1, rfl⟩

theorem leadingSpacer_narrow (hcell : cell.Narrow) : (leadingSpacer cell).Narrow := by
  constructor
  · rw [Cell.isWide, leadingSpacer, Cell.flags_setHyperlinkId]
    exact hcell.1
  · rw [Cell.isSpacer, leadingSpacer, Cell.flags_setHyperlinkId]
    exact hcell.2

theorem dropLeadingSpacer_succ (hflags : flags.wideCharSpacer = false) :
    h.dropLeadingSpacer row (col + 1) flags = some h := by
  rw [dropLeadingSpacer, if_neg]
  intro hc
  obtain hzero | hone := hc.2
  · exact absurd hzero.1 (Nat.succ_ne_zero col)
  · exact absurd hone.2 (by rw [hflags]; exact Bool.false_ne_true)

theorem Ready.writeWidePair (hr : h.Ready)
    (hf : ∀ cell, cell.Narrow → (f cell).isSpacer = false) (hwrite : h.writeWidePair c f = some after) :
    after.grid.Whole := by
  obtain ⟨first, hfirst, hwrite⟩ := Option.bind_eq_some_iff.mp hwrite
  obtain ⟨index, hindex, hwrite⟩ := Option.bind_eq_some_iff.mp hwrite
  obtain ⟨wide, -, hwrite⟩ := Option.bind_eq_some_iff.mp hwrite
  obtain ⟨moved, hmoved, hwrite⟩ := Option.bind_eq_some_iff.mp hwrite
  obtain ⟨second, hsecond, hadvance⟩ := Option.bind_eq_some_iff.mp hwrite
  apply advanceCursorByOneCell_whole _ hadvance
  obtain ⟨index₁, cell, cleared, raw, old, middle, hindex₁, -, hcleared, hraw, hold, hmiddle, rfl⟩ :=
    writeAtCursor_spec hfirst
  obtain rfl := moveCursorForward_spec hmoved
  obtain ⟨index₂, cell₂, cleared₂, raw₂, old₂, new, hindex₂, hcell₂, hcleared₂, hraw₂, hold₂, hnew, rfl⟩ :=
    writeAtCursor_spec hsecond
  have hready := hr.dropLeadingSpacer hcleared
  have hrow : cleared.cursorRow = some index₁ := by
    obtain rfl | ⟨changed, before, now, -, -, rfl⟩ := dropLeadingSpacer_spec hcleared
    · exact hindex₁
    · exact hindex₁
  obtain rfl : index₁ = index₂ := Option.some.inj (hrow.symm.trans hindex₂)
  have htakes := hready.cursor index₁ raw old hrow hraw hold
  have hopen := htakes.openAt_of_write hmiddle
  have hlt := (List.getElem?_eq_some_iff.mp hold).1
  have hraw' : (cleared.grid.raw.setRaw raw middle).fromGridIndex index₁ = some raw := by
    rw [Storage.fromGridIndex_setRaw, hraw]
  have hself : (cleared.grid.raw.setRaw raw middle).inner[raw]? = some middle := List.getElem?_set_self hlt
  -- The second write finds no spacer, and so changes this row only.
  have hnext : middle.inner[cleared.col + 1]? = some cell₂ := by
    obtain ⟨row, hget, hcell₂⟩ := Option.bind_eq_some_iff.mp hcell₂
    have hget' : (cleared.grid.raw.setRaw raw middle).get index₁ = some row := hget
    rw [Storage.get, hraw', Option.bind_eq_bind, Option.bind_some, hself] at hget'
    exact Option.some.inj hget' ▸ hcell₂
  have hsame := Option.some.inj ((dropLeadingSpacer_succ (hopen cell₂ hnext)).symm.trans hcleared₂)
  subst hsame
  obtain rfl : raw = raw₂ := Option.some.inj (hraw'.symm.trans hraw₂)
  obtain rfl : middle = old₂ := Option.some.inj (hself.symm.trans hold₂)
  have hnewWhole : new.Whole cleared.columns :=
    htakes.writePair (fun cell => wideCell_halves (hf _ (newCell_narrow hready.template c cell)))
      (fun cell => spacerCell_halves (newCell_narrow hready.template defaultChar cell)) hmiddle hnew
  refine ⟨?_, hready.template, hready.saved⟩
  intro row hmem
  obtain ⟨i, hi⟩ := List.getElem?_of_mem hmem
  have hget : ((cleared.grid.raw.inner.set raw middle).set raw new)[i]? = some row := hi
  rw [List.set_set] at hget
  by_cases heq : raw = i
  · subst heq
    rw [List.getElem?_set_self hlt] at hget
    exact Option.some.inj hget ▸ hnewWhole
  · rw [List.getElem?_set_ne heq] at hget
    exact hready.others index₁ raw hrow hraw i row (Ne.symm heq) hget

theorem writeWideChar_whole (hw : h.grid.Whole)
    (hf : ∀ cell, cell.Narrow → (f cell).isSpacer = false) (hwrite : h.writeWideChar c f = some after) :
    after.grid.Whole := by
  unfold writeWideChar at hwrite
  split at hwrite
  next =>
    split at hwrite
    next =>
      apply moveCursorForward_whole hw _ hwrite
      exact fun cursor hcursor => hcursor
    next =>
      obtain ⟨padded, hpadded, hwrite⟩ := Option.bind_eq_some_iff.mp hwrite
      obtain ⟨wrapped, hwrapped, hwrite⟩ := Option.bind_eq_some_iff.mp hwrite
      have hwhole := wrapline_whole (writeAtCursor_whole hw (fun _ => leadingSpacer_narrow) hpadded) hwrapped
      exact (Ready.of_whole hwhole).writeWidePair hf hwrite
  next => exact (Ready.of_whole hw).writeWidePair hf hwrite

theorem wrapIfNeeded_whole (hw : h.grid.Whole) (hwrap : h.wrapIfNeeded = some after) : after.grid.Whole := by
  unfold wrapIfNeeded at hwrap
  split at hwrap
  next => exact wrapline_whole hw hwrap
  next => exact Option.some.inj hwrap ▸ hw

theorem makeRoom_whole (hw : h.grid.Whole) (hroom : h.makeRoom 1 = some after) : after.grid.Whole := by
  unfold makeRoom at hroom
  split at hroom
  next hc =>
    rw [GridStorage.whole_iff] at hw ⊢
    apply editCursorRow_every hw _ hroom
    exact fun old new _ hold hnew => Row.makeRoom_one hold hc.2 hnew
  next => exact Option.some.inj hroom ▸ hw

/-- The room in the cursor's row for a wide character, which insert mode makes. -/
def InsertsWhole (h : GridHandler) : Prop :=
  h.mode.insert ∧ h.col + 2 < h.columns → ∀ row ∈ h.cursorLine, row.InsertsWhole h.columns h.col

theorem makeRoom_ready (hw : h.grid.Whole) (hsafe : h.InsertsWhole) (hroom : h.makeRoom 2 = some after) :
    after.Ready := by
  unfold makeRoom at hroom
  split at hroom
  next hc =>
    obtain ⟨index, hindex, hroom⟩ := Option.bind_eq_some_iff.mp hroom
    obtain ⟨storage, hstorage, rfl⟩ := Option.map_eq_some_iff.mp hroom
    obtain ⟨raw, old, new, hraw, hold, hnew, rfl⟩ := Storage.update_spec hstorage
    have hline : h.cursorLine = some old := by simp [cursorLine, hindex, Storage.get, hraw, hold]
    have hwhole := hw.rows old (List.mem_of_getElem? hold)
    have htakes : new.TakesPair h.columns h.col := Row.makeRoom_two hwhole hc.2 (hsafe hc old hline) hnew
    have hlt := (List.getElem?_eq_some_iff.mp hold).1
    have hat : ∀ index' raw', h.cursorRow = some index' →
        (h.grid.raw.setRaw raw new).fromGridIndex index' = some raw' → raw = raw' := by
      intro index' raw' hindex' hraw'
      rw [Storage.fromGridIndex_setRaw, ← Option.some.inj (hindex.symm.trans hindex'), hraw] at hraw'
      exact Option.some.inj hraw'
    refine ⟨hw.template, hw.saved, ?_, ?_⟩
    · intro index' raw' row hindex' hraw' hrow
      obtain rfl := hat index' raw' hindex' hraw'
      have hget : (h.grid.raw.inner.set raw new)[raw]? = some row := hrow
      rw [List.getElem?_set_self hlt] at hget
      exact Option.some.inj hget ▸ htakes
    · intro index' raw' hindex' hraw' i row hne hrow
      obtain rfl := hat index' raw' hindex' hraw'
      have hget : (h.grid.raw.inner.set raw new)[i]? = some row := hrow
      rw [List.getElem?_set_ne (Ne.symm hne)] at hget
      exact hw.rows row (List.mem_of_getElem? hget)
  next => exact Option.some.inj hroom ▸ Ready.of_whole hw

theorem Ready.writeWideChar (hr : h.Ready) (hroom : h.col + 1 < h.columns)
    (hf : ∀ cell, cell.Narrow → (f cell).isSpacer = false) (hwrite : h.writeWideChar c f = some after) :
    after.grid.Whole := by
  rw [GridHandler.writeWideChar, if_neg (Nat.not_le.mpr hroom)] at hwrite
  exact hr.writeWidePair hf hwrite

end GridHandler

end InfiniShell.Terminal
