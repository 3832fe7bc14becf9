import InfiniShell.Scrollback.StoredText

namespace InfiniShell.Scrollback

open Collections Terminal

namespace AttributeMap

structure Iter.At {A : Type} (it : Iter A) (m : AttributeMap A) (offset : Nat) : Prop where
  reads : it.Reads m
  curOffset : it.curOffset = offset

variable {A : Type}

theorem iterFrom_at (m : AttributeMap A) (offset : Nat) : (m.iterFrom offset).At m offset where
  reads := m.iterFrom_reads offset
  curOffset := by
    unfold iterFrom
    rfl

theorem Iter.At.nth {it : Iter A} {m : AttributeMap A} {offset : Nat} (h : it.At m offset) (n : Nat) :
    (it.nth n).1 = m.valueAt (offset + n) ∧ (it.nth n).2.At m (offset + n + 1) := by
  obtain ⟨hvalue, hreads, hoffset⟩ := h.reads.nth n
  rw [h.curOffset] at hvalue hoffset
  exact ⟨hvalue, hreads, hoffset⟩

end AttributeMap

def Grapheme.replay (g : Grapheme) : Cell :=
  match g.content with
  | [] => {}
  | c :: rest => rest.foldl (fun cell c => (cell.pushZerowidth c).1) { c }

variable {g : Grapheme}

theorem Grapheme.writeTo_empty (h : g.content ≠ []) : g.writeTo {} = some g.replay := by
  unfold writeTo replay
  cases hcontent : g.content with
  | nil => exact absurd hcontent h
  | cons c rest => rfl

theorem Grapheme.Sized.content_ne_nil (h : g.Sized) : g.content ≠ [] := by
  intro hnil
  have hbytes := h.bytes
  rw [hnil] at hbytes
  exact absurd hbytes (Nat.ne_of_lt g.info.pos)

namespace FlatStorage

def attributesAt (s : FlatStorage) (offset : Nat) : Attributes :=
  ⟨s.fgColorMap.valueAt offset, s.bgAndStyleMap.valueAt offset, s.hyperlinkIdMap.valueAt offset⟩

/-- The cell that shows a grapheme; the attributes are those of its last byte. -/
def shownCell (s : FlatStorage) (offset : Nat) (g : Grapheme) : Cell :=
  let attributes := s.attributesAt (offset + g.len - 1)
  let cell : Cell :=
    { g.replay with fg := attributes.fgColor, bg := attributes.bgAndStyle.bg, flags := attributes.bgAndStyle.flags }
  Cell.markIf s.endOfPromptMarker offset (cell.setHyperlinkId attributes.hyperlinkId)

def graphemeCells (s : FlatStorage) (offset : Nat) (g : Grapheme) : List Cell :=
  if g.cellWidth = 2 then
    [Cell.insertWideChar (s.shownCell offset g),
      Cell.insertWideCharSpacer (s.attributesAt (offset + g.len - 1)).hyperlinkId {}]
  else [s.shownCell offset g]

def lineCells (s : FlatStorage) : Nat → List Grapheme → List Cell
  | _, [] => []
  | offset, g :: gs => if g.startsNewRow then [] else s.graphemeCells offset g ++ lineCells s (offset + g.len) gs

variable {s : FlatStorage}

theorem graphemeCells_length (h : g.Sized) (offset : Nat) :
    (s.graphemeCells offset g).length = g.cellWidth := by
  unfold graphemeCells
  split
  next hwide => rw [hwide]; rfl
  next hnarrow => rw [h.width.resolve_right hnarrow]; rfl

end FlatStorage

def Row.partly (cells : List Cell) (rest : Nat) : Row := ⟨cells ++ List.replicate rest ({} : Cell), cells.length⟩

theorem Row.partly_put (cells : List Cell) (rest : Nat) (cell : Cell) :
    (Row.partly cells (rest + 1)).put cells.length cell = some (Row.partly (cells ++ [cell]) rest) := by
  unfold Row.partly Terminal.Row.put
  have hlt : cells.length < (cells ++ List.replicate (rest + 1) ({} : Cell)).length := by simp
  rw [if_pos hlt, List.set_append_right _ _ (Nat.le_refl _), Nat.sub_self, List.replicate_succ, List.set_cons_zero]
  simp

theorem Row.partly_modify (cells : List Cell) (rest : Nat) (f : Cell → Cell) :
    (Row.partly cells (rest + 1)).modify cells.length f = some (Row.partly (cells ++ [f {}]) rest) := by
  have hget : (Row.partly cells (rest + 1)).inner[cells.length]? = some {} := by
    simp [Row.partly, List.replicate_succ]
  unfold Terminal.Row.modify
  rw [hget]
  exact Row.partly_put cells rest (f {})

theorem Row.partly_modify_last (cells : List Cell) (cell : Cell) (rest : Nat) (f : Cell → Cell) :
    (Row.partly (cells ++ [cell]) rest).modify cells.length f = some (Row.partly (cells ++ [f cell]) rest) := by
  have hget : (Row.partly (cells ++ [cell]) rest).inner[cells.length]? = some cell := by
    simp [Row.partly]
  have hlt : cells.length < (cells ++ [cell] ++ List.replicate rest ({} : Cell)).length := by
    simp only [List.length_append, List.length_singleton]
    omega
  unfold Terminal.Row.modify
  rw [hget]
  change (Row.partly (cells ++ [cell]) rest).put cells.length (f cell) = _
  unfold Row.partly Terminal.Row.put
  rw [if_pos hlt]
  simp

theorem Row.partly_full (cells : List Cell) : (Row.partly cells 0).inner[cells.length]? = none := by
  simp [Row.partly]

namespace RowFill

/-- The fill has written these cells, and stands before the grapheme at `offset`. -/
structure At (s : FlatStorage) (offset : Nat) (cells : List Cell) (rest : Nat) (f : RowFill) : Prop where
  row : f.row = Row.partly cells rest
  currentOffset : f.currentOffset = offset
  fgColor : f.fgColorIter.At s.fgColorMap offset
  bgAndStyle : f.bgAndStyleIter.At s.bgAndStyleMap offset
  hyperlinkId : f.hyperlinkIdIter.At s.hyperlinkIdMap offset

variable {s : FlatStorage} {offset : Nat} {cells : List Cell} {rest : Nat} {f : RowFill}

variable (h : f.At s offset cells rest)
include h

theorem At.nextAttributes (g : Grapheme) :
    (f.nextAttributes g).1 = s.attributesAt (offset + g.len - 1) ∧ (f.nextAttributes g).2.row = f.row ∧
      (f.nextAttributes g).2.currentOffset = f.currentOffset ∧
      ∀ row rest' cells', row = Row.partly cells' rest' →
        ({ (f.nextAttributes g).2 with row, currentOffset := f.currentOffset + g.len } : RowFill).At s (offset + g.len)
          cells' rest' := by
  have hpos : 0 < g.len := g.info.pos
  have hlast : offset + (g.len - 1) = offset + g.len - 1 := by omega
  have hend : offset + (g.len - 1) + 1 = offset + g.len := by omega
  obtain ⟨hfg, hfgAt⟩ := h.fgColor.nth (g.len - 1)
  obtain ⟨hbg, hbgAt⟩ := h.bgAndStyle.nth (g.len - 1)
  obtain ⟨hid, hidAt⟩ := h.hyperlinkId.nth (g.len - 1)
  rw [hlast] at hfg hbg hid
  rw [hend] at hfgAt hbgAt hidAt
  refine ⟨?_, rfl, rfl, ?_⟩
  · unfold RowFill.nextAttributes FlatStorage.attributesAt
    simp only
    rw [hfg, hbg, hid]
  · intro row rest' cells' hrow
    refine ⟨hrow, ?_, hfgAt, hbgAt, hidAt⟩
    change f.currentOffset + g.len = _
    rw [h.currentOffset]

theorem At.place (hg : g.Sized) : f.place s.endOfPromptMarker g (s.attributesAt (offset + g.len - 1)) =
      if g.cellWidth ≤ rest then some (Row.partly (cells ++ s.graphemeCells offset g) (rest - g.cellWidth))
      else none := by
  have hocc : f.row.occ = cells.length := by rw [h.row]; rfl
  unfold RowFill.place
  rw [hocc, h.row, h.currentOffset]
  cases rest with
  | zero =>
    have hwidth : ¬ g.cellWidth ≤ 0 := by
      cases hg.width <;> omega
    rw [if_neg hwidth]
    simp only [Row.partly_full, Option.bind_eq_bind, Option.bind_none]
  | succ rest =>
    have hget : (Row.partly cells (rest + 1)).inner[cells.length]? = some {} := by
      simp [Row.partly, List.replicate_succ]
    simp only [hget, Option.bind_eq_bind, Option.bind_some, Grapheme.writeTo_empty hg.content_ne_nil, Row.partly_put]
    unfold FlatStorage.graphemeCells FlatStorage.shownCell
    by_cases hwide : g.cellWidth = 2
    · rw [if_pos hwide, if_pos hwide, Row.partly_modify_last, Option.bind_some, hwide]
      cases rest with
      | zero =>
        rw [if_neg (by omega)]
        unfold Terminal.Row.modify
        have hnone := Row.partly_full (cells ++ [Cell.insertWideChar (s.shownCell offset g)])
        rw [List.length_append, List.length_singleton] at hnone
        unfold FlatStorage.shownCell at hnone
        rw [hnone]
        rfl
      | succ rest =>
        rw [if_pos (by omega)]
        have hmodify := Row.partly_modify (cells ++ [Cell.insertWideChar (s.shownCell offset g)]) rest
          (Cell.insertWideCharSpacer (s.attributesAt (offset + g.len - 1)).hyperlinkId)
        rw [List.length_append, List.length_singleton, List.append_assoc] at hmodify
        exact hmodify
    · rw [if_neg hwide, if_neg hwide, hg.width.resolve_right hwide, if_pos (by omega)]
      rfl

theorem At.fill {gs : List Grapheme} (hsized : ∀ g ∈ gs, g.Sized)
    (htext : s.content.HoldsText offset (gs.map .grapheme)) :
    fill s (gs.map Grapheme.sizingInfo) f = if (s.lineCells offset gs).length ≤ rest then
      some (Row.partly (cells ++ s.lineCells offset gs) (rest - (s.lineCells offset gs).length)) else none := by
  induction gs generalizing f offset cells rest with
  | nil =>
    rw [List.map_nil, RowFill.fill, h.row, FlatStorage.lineCells, List.length_nil, if_pos (Nat.zero_le _), List.append_nil]
    rfl
  | cons g gs ih =>
    obtain ⟨hheld, hrest⟩ := htext
    have hg := hsized g List.mem_cons_self
    have hget := hheld.get
    have hbytes : byteLen (TextUnit.grapheme g).content = g.sizingInfo.utf8Bytes := hg.bytes
    rw [hbytes] at hget
    have hgrapheme : Grapheme.newFromStrAndInfo g.content g.sizingInfo = g := rfl
    have hwidth : g.cellWidth ≠ 0 := by
      cases hg.width <;> omega
    obtain ⟨hattributes, hrow, hcurrent, hnext⟩ := h.nextAttributes g
    have hplace' : (f.nextAttributes g).2.place s.endOfPromptMarker g (f.nextAttributes g).1 =
        f.place s.endOfPromptMarker g (s.attributesAt (offset + g.len - 1)) := by
      rw [hattributes]
      unfold RowFill.place
      rw [hrow, hcurrent]
    rw [List.map_cons, RowFill.fill, h.currentOffset, hget, FlatStorage.lineCells]
    simp only [Option.bind_eq_bind, Option.bind_some, TextUnit.content, hgrapheme]
    by_cases hbreak : g.startsNewRow = true
    · rw [if_pos hbreak, if_pos hbreak, h.row, List.length_nil, if_pos (Nat.zero_le _), List.append_nil]
      rfl
    · rw [if_neg hbreak, if_neg hbreak, if_neg hwidth, hplace', h.place hg, List.length_append,
        FlatStorage.graphemeCells_length hg]
      by_cases hfits : g.cellWidth ≤ rest
      · rw [if_pos hfits, Option.bind_some, hcurrent,
          ih (hnext _ _ _ rfl) (fun g hg => hsized g (List.mem_cons_of_mem _ hg)) hrest]
        have hle : (s.lineCells (offset + g.len) gs).length ≤ rest - g.cellWidth ↔
            g.cellWidth + (s.lineCells (offset + g.len) gs).length ≤ rest := by omega
        simp only [hle, List.append_assoc, Nat.sub_sub]
      · rw [if_neg hfits, Option.bind_none, if_neg (by omega)]

end RowFill

/-- The graphemes before the first that is a line break. -/
def TextRow.shown (row : TextRow) : List Grapheme := row.graphemes.takeWhile fun g => !g.startsNewRow

def TextRow.mark (row : TextRow) (cells : List Cell) : List Cell :=
  let cells := if row.newline then cells else cells.modify (cells.length - 1) Cell.insertWrapline
  if row.leading then cells.modify (cells.length - 1) Cell.insertLeadingWideCharSpacer else cells

theorem FlatStorage.lineCells_length (s : FlatStorage) (offset : Nat) {gs : List Grapheme} (h : ∀ g ∈ gs, g.Sized) :
    (s.lineCells offset gs).length = colsOf ((gs.takeWhile fun g => !g.startsNewRow).map Grapheme.sizingInfo) := by
  induction gs generalizing offset with
  | nil => rfl
  | cons g gs ih =>
    rw [lineCells, List.takeWhile_cons]
    by_cases hbreak : g.startsNewRow = true
    · simp [hbreak]
    · have hg := h g List.mem_cons_self
      simp only [hbreak, Bool.not_false, if_true, Bool.false_eq_true, if_false, List.map_cons, colsOf_cons,
        List.length_append, graphemeCells_length hg, ih (offset + g.len) fun g hg => h g (List.mem_cons_of_mem _ hg)]
      rfl

theorem Row.partly_sound {cells : List Cell} {rest columns : Nat} (h : cells.length + rest = columns) :
    (Row.partly cells rest).Sound columns where
  length := by simp [Row.partly, h]
  occ_le := by
    change cells.length ≤ columns
    omega
  clean := by
    refine ⟨.named .background, ?_⟩
    intro cell hcell
    simp only [Row.partly, List.drop_left] at hcell
    exact List.eq_of_mem_replicate hcell

variable {columns : Nat}

theorem Row.modifyLast_sound {row next : Row} (h : row.Sound columns) {f : Cell → Cell}
    (hmodify : Row.modifyLast row f = some next) : next.Sound columns := by
  unfold Row.modifyLast at hmodify
  split at hmodify
  next => cases hmodify
  next =>
    rw [← Option.some.inj hmodify]
    refine ⟨?_, ?_, .named .background, ?_⟩
    · rw [List.length_modify, h.length]
    · exact Nat.le_of_eq h.length
    · intro cell hcell
      rw [List.drop_of_length_le (by rw [List.length_modify])] at hcell
      cases hcell

theorem Entry.markLast_eq {entry : Entry} {row : Row} (h : row.Sound columns) (hpos : 0 < columns)
    {textRow : TextRow} (hnewline : entry.hasTrailingNewline = textRow.newline)
    (hleading : entry.endsWithLeadingWideCharSpacer = textRow.leading) :
    ∃ next, entry.markLast row = some next ∧ next.inner = textRow.mark row.inner ∧ next.Sound columns := by
  have hlast : ∀ {row : Row} (f : Cell → Cell), row.Sound columns → ∃ next, Row.modifyLast row f = some next ∧
      next.inner = row.inner.modify (row.inner.length - 1) f ∧ next.Sound columns := by
    intro row f h
    have hne : row.inner.length ≠ 0 := by
      rw [h.length]
      omega
    have hmodify : Row.modifyLast row f = some ⟨row.inner.modify (row.inner.length - 1) f, row.inner.length⟩ := by
      unfold Row.modifyLast
      rw [if_neg hne]
    exact ⟨_, hmodify, rfl, Row.modifyLast_sound h hmodify⟩
  have hlead : ∀ {row : Row}, row.Sound columns → ∃ next,
      (if textRow.leading then Row.modifyLast row Cell.insertLeadingWideCharSpacer else some row) = some next ∧
        next.inner = (if textRow.leading then
          row.inner.modify (row.inner.length - 1) Cell.insertLeadingWideCharSpacer else row.inner) ∧
        next.Sound columns := by
    intro row h
    cases textRow.leading with
    | true => exact hlast _ h
    | false => exact ⟨row, rfl, rfl, h⟩
  unfold Entry.markLast TextRow.mark
  rw [hnewline, hleading]
  cases textRow.newline with
  | true => exact hlead h
  | false =>
    obtain ⟨wrapped, hwrapped, hinner, hsound⟩ := hlast Cell.insertWrapline h
    simp only [Bool.false_eq_true, if_false, hwrapped, Option.bind_eq_bind, Option.bind_some, ← hinner]
    exact hlead hsound

namespace FlatStorage

def cellsOf (s : FlatStorage) (offset : Nat) (row : TextRow) : List Cell :=
  let cells := s.lineCells offset row.graphemes
  row.mark (cells ++ List.replicate (s.columns - cells.length) ({} : Cell))

variable {s : FlatStorage} {front : Nat} {rows : List TextRow} {i : Nat} {row : TextRow}

theorem Represents.rowText (h : s.Represents front rows) (hrow : rows[i]? = some row) :
    s.content.HoldsText (front + totalBytes (rows.take i)) (row.graphemes.map .grapheme) ∧
      ∀ g ∈ row.graphemes, g.Sized := by
  have hmem := List.mem_of_getElem? hrow
  obtain ⟨hlt, hget⟩ := List.getElem?_eq_some_iff.mp hrow
  have hsplit : textOf rows = textOf (rows.take i) ++ (row.units ++ textOf (rows.drop (i + 1))) := by
    have hdrop : rows.drop i = row :: rows.drop (i + 1) := by rw [List.drop_eq_getElem_cons hlt, hget]
    have hrows : rows = rows.take i ++ (row :: rows.drop (i + 1)) := by rw [← hdrop, List.take_append_drop]
    rw [hrows, textOf_append, ← hrows]
    rfl
  have htext := h.content.text
  rw [hsplit, Content.holdsText_append, Content.holdsText_append, ← totalBytes_eq] at htext
  refine ⟨(Content.holdsText_append.mp htext.2.1).1, ?_⟩
  intro g hg
  exact h.sized g (stored_iff.mp ⟨row, hmem, hg⟩)

theorem Represents.next (h : s.Represents front rows) (hrow : rows[i]? = some row)
    (hpos : 0 < s.columns) {buffer : Row} (hbuffer : buffer.Sound s.columns) :
    if colsOf (row.shown.map Grapheme.sizingInfo) ≤ s.columns then
      ∃ next, (RowIterator.mk s i buffer).next = some (some (next, ⟨s, i + 1, next⟩)) ∧
        next.inner = s.cellsOf (front + totalBytes (rows.take i)) row ∧ next.Sound s.columns
    else (RowIterator.mk s i buffer).next = none := by
  have hlt := (List.getElem?_eq_some_iff.mp hrow).1
  obtain ⟨htext, hsized⟩ := h.rowText hrow
  obtain ⟨entry, hentry, hdescribes⟩ := h.index.getEntry hrow
  have hstart : s.index.contentOffsetForRow i = some (front + totalBytes (rows.take i)) := by
    rw [h.index.contentOffsetForRow, if_pos hlt]
  have hrange : s.index.contentRangeForRow i =
      some (front + totalBytes (rows.take i), (s.index.contentOffsetForRow (i + 1)).getD s.index.contentLen) := by
    unfold Index.contentRangeForRow
    rw [hstart]
    rfl
  have hreset : buffer.reset {} = some (Row.partly [] s.columns) := hbuffer.reset hpos {}
  generalize front + totalBytes (rows.take i) = start at *
  have hat : RowFill.At s start [] s.columns ⟨Row.partly [] s.columns, start, s.fgColorMap.iterFrom start,
      s.bgAndStyleMap.iterFrom start, s.hyperlinkIdMap.iterFrom start⟩ :=
    ⟨rfl, rfl, AttributeMap.iterFrom_at _ _, AttributeMap.iterFrom_at _ _, AttributeMap.iterFrom_at _ _⟩
  have hfill := hat.fill hsized htext
  have hlen : (s.lineCells start row.graphemes).length = colsOf (row.shown.map Grapheme.sizingInfo) :=
    s.lineCells_length start hsized
  rw [List.nil_append] at hfill
  unfold RowIterator.next
  simp only [hrange, hreset, h.index.graphemeInfosForRow hrow, Option.bind_eq_bind, Option.bind_some]
  rw [TextRow.infos, hfill, ← hlen]
  split
  next hfits =>
    have hsound := Row.partly_sound (Nat.add_sub_cancel' hfits)
    obtain ⟨next, hmark, hinner, hnext⟩ := Entry.markLast_eq hsound hpos hdescribes.newline hdescribes.leading
    refine ⟨next, ?_, hinner, hnext⟩
    simp only [Option.bind_some, hentry, hmark]
  next => rfl

def materialised (s : FlatStorage) (i : Nat) : Option Row := do
  match ← (RowIterator.new s i).next with
  | none => none
  | some (row, _) => some row

def readGraphemes (c : Content) : Nat → List GraphemeInfo → Option (List Grapheme)
  | _, [] => some []
  | offset, info :: infos => do
    let content ← c.get offset (offset + info.utf8Bytes)
    (readGraphemes c (offset + info.utf8Bytes) infos).map (⟨info, content⟩ :: ·)

def storedRow (s : FlatStorage) (i : Nat) : Option TextRow := do
  let entry ← s.index.getEntry i
  let infos ← s.index.graphemeInfosForRow i
  let graphemes ← readGraphemes s.content entry.contentOffset infos
  some ⟨graphemes, entry.hasTrailingNewline, entry.endsWithLeadingWideCharSpacer⟩

theorem readGraphemes_eq {c : Content} {gs : List Grapheme} (hsized : ∀ g ∈ gs, g.Sized) {offset : Nat}
    (htext : c.HoldsText offset (gs.map .grapheme)) :
    readGraphemes c offset (gs.map Grapheme.sizingInfo) = some gs := by
  induction gs generalizing offset with
  | nil => rfl
  | cons g gs ih =>
    obtain ⟨hheld, hrest⟩ := htext
    have hget := hheld.get
    have hbytes : byteLen (TextUnit.grapheme g).content = g.sizingInfo.utf8Bytes :=
      (hsized g List.mem_cons_self).bytes
    rw [hbytes] at hget
    have hgs := ih (fun g hg => hsized g (List.mem_cons_of_mem _ hg)) hrest
    change readGraphemes c (offset + g.sizingInfo.utf8Bytes) _ = _ at hgs
    rw [List.map_cons, readGraphemes, hget, Option.bind_eq_bind, Option.bind_some, hgs]
    rfl

theorem Represents.storedRow (h : s.Represents front rows) (i : Nat) : s.storedRow i = rows[i]? := by
  unfold FlatStorage.storedRow
  cases hrow : rows[i]? with
  | none =>
    have hnone : s.index.getEntry i = none := by
      rw [Index.getEntry, List.getElem?_eq_none_iff, h.index.entries.length]
      exact List.getElem?_eq_none_iff.mp hrow
    rw [hnone]
    rfl
  | some row =>
    obtain ⟨entry, hentry, hdescribes⟩ := h.index.getEntry hrow
    obtain ⟨htext, hsized⟩ := h.rowText hrow
    rw [hentry, h.index.graphemeInfosForRow hrow]
    simp only [Option.bind_eq_bind, Option.bind_some]
    rw [hdescribes.start, TextRow.infos, readGraphemes_eq hsized htext, hdescribes.newline, hdescribes.leading]
    rfl

end FlatStorage

end InfiniShell.Scrollback
