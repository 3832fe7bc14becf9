import InfiniShell.Scrollback.MaterialisedRows
import Mathlib.Data.List.TakeWhile

namespace InfiniShell.Scrollback

open Collections Terminal

theorem CellType.ofCell_plain {cell : Cell} (h : cell.flags = styleMask cell.flags) :
    CellType.ofCell cell = .regularChar := by
  rw [CellType.ofCell, h]
  rfl

@[simp] theorem ofCell_insertWideChar (cell : Cell) : CellType.ofCell (Cell.insertWideChar cell) = .wideChar := by
  simp [CellType.ofCell, Cell.insertWideChar]

theorem ofCell_insertLeadingWideCharSpacer (cell : Cell) :
    CellType.ofCell (Cell.insertLeadingWideCharSpacer cell) =
      if CellType.ofCell cell = .regularChar then .leadingWideCharSpacer else CellType.ofCell cell := by
  unfold CellType.ofCell Cell.insertLeadingWideCharSpacer
  cases cell.flags.wideChar <;> cases cell.flags.wideCharSpacer <;> cases cell.flags.leadingWideCharSpacer <;> rfl

namespace FlatStorage

variable {s : FlatStorage} {front : Nat} {rows : List TextRow} (h : s.bgAndStyleMap.All BgAndStyle.Plain)
include h

theorem ofCell_shownCell (offset : Nat) (g : Grapheme) :
    CellType.ofCell (s.shownCell offset g) = .regularChar := by
  have hflags : (s.shownCell offset g).flags = (s.bgAndStyleMap.valueAt (offset + g.len - 1)).flags := by
    unfold shownCell Cell.markIf
    simp only
    split
    next =>
      split
      next => exact Cell.flags_setHyperlinkId _ _
      next => exact Cell.flags_setHyperlinkId _ _
    next => exact Cell.flags_setHyperlinkId _ _
  apply CellType.ofCell_plain
  rw [hflags]
  exact h.valueAt _

theorem graphemeCells_types {g : Grapheme} (hg : g.Sized) (offset : Nat) :
    (s.graphemeCells offset g).map CellType.ofCell =
      if g.cellWidth = 1 then [.regularChar] else [.wideChar, .wideCharSpacer] := by
  unfold graphemeCells
  by_cases hwide : g.cellWidth = 2
  · have hspacer : ∀ id, CellType.ofCell (Cell.insertWideCharSpacer id {}) = .wideCharSpacer := by
      intro id
      cases id <;> rfl
    rw [if_pos hwide, if_neg (by omega), List.map_cons, List.map_singleton, ofCell_insertWideChar, hspacer]
  · rw [if_neg hwide, if_pos (hg.width.resolve_right hwide), List.map_singleton, ofCell_shownCell h]

theorem lineCells_types {gs : List Grapheme} (hsized : ∀ g ∈ gs, g.Sized)
    (offset start : Nat) {col : Nat} (hlt : col < (s.lineCells offset gs).length) :
    ((s.lineCells offset gs).map CellType.ofCell)[col]? =
      some (cellTypeOfInfos ((gs.takeWhile fun g => !g.startsNewRow).map Grapheme.sizingInfo) start (start + col)) := by
  induction gs generalizing offset start col with
  | nil => exact absurd hlt (Nat.not_lt_zero _)
  | cons g gs ih =>
    have hg := hsized g List.mem_cons_self
    rw [lineCells] at hlt ⊢
    by_cases hbreak : g.startsNewRow = true
    · rw [if_pos hbreak] at hlt
      exact absurd hlt (Nat.not_lt_zero _)
    · rw [if_neg hbreak] at hlt ⊢
      rw [List.length_append, graphemeCells_length hg] at hlt
      have hnot : (!g.startsNewRow) = true := by simpa using hbreak
      rw [List.map_append, graphemeCells_types h hg, List.takeWhile_cons, if_pos hnot, List.map_cons, cellTypeOfInfos]
      have hinfo : g.sizingInfo.cellWidth = g.cellWidth := rfl
      rw [hinfo]
      by_cases hin : col < g.cellWidth
      · have hlow : start + col < start + g.cellWidth := by omega
        rw [if_pos hlow]
        by_cases hone : g.cellWidth = 1
        · have hcol : col = 0 := by omega
          simp [hone, hcol]
        · have htwo := hg.width.resolve_left hone
          rw [if_neg hone, if_neg hone]
          obtain rfl | rfl : col = 0 ∨ col = 1 := by omega
          · simp
          · simp
      · have hsub : col - g.cellWidth < (s.lineCells (offset + g.len) gs).length := by omega
        have hrest := ih (fun g hg => hsized g (List.mem_cons_of_mem _ hg)) (offset + g.len) (start + g.cellWidth) hsub
        have hcol : start + g.cellWidth + (col - g.cellWidth) = start + col := by omega
        have hlen : (if g.cellWidth = 1 then [CellType.regularChar] else [.wideChar, .wideCharSpacer]).length =
            g.cellWidth := by
          split
          next hone => exact hone.symm
          next hone => exact (hg.width.resolve_left hone).symm
        have hhigh : ¬ start + col < start + g.cellWidth := by omega
        rw [if_neg hhigh, List.getElem?_append_right (by rw [hlen]; omega), hlen, hrest, hcol]

end FlatStorage

theorem TextRow.mark_types (row : TextRow) (cells : List Cell) (col : Nat) :
    ((row.mark cells)[col]?).map CellType.ofCell = ((cells[col]?).map CellType.ofCell).map fun type =>
      if row.leading = true ∧ col = cells.length - 1 ∧ type = .regularChar then .leadingWideCharSpacer else type := by
  have hwrap : ∀ cells : List Cell, (((if row.newline then cells else
      cells.modify (cells.length - 1) Cell.insertWrapline)[col]?).map CellType.ofCell =
        (cells[col]?).map CellType.ofCell) := by
    intro cells
    cases row.newline with
    | true => rfl
    | false =>
      simp only [Bool.false_eq_true, if_false, List.getElem?_modify]
      cases cells[col]? with
      | none => rfl
      | some cell =>
        simp only [Option.map_eq_map, Option.map_some]
        split <;> rfl
  have hlen : (if row.newline then cells else cells.modify (cells.length - 1) Cell.insertWrapline).length =
      cells.length := by
    split
    next => rfl
    next => exact List.length_modify _ _ _
  unfold TextRow.mark
  simp only
  cases hleading : row.leading with
  | false =>
    rw [if_neg Bool.false_ne_true, hwrap]
    cases cells[col]? <;> rfl
  | true =>
    rw [if_pos rfl, hlen, List.getElem?_modify, ← hwrap cells]
    cases (if row.newline then cells else cells.modify (cells.length - 1) Cell.insertWrapline)[col]? with
    | none => rfl
    | some cell =>
      simp only [Option.map_eq_map, Option.map_some, true_and]
      by_cases hcol : cells.length - 1 = col
      · rw [if_pos hcol, ofCell_insertLeadingWideCharSpacer]
        simp [hcol]
      · rw [if_neg hcol, if_neg (fun h => hcol h.1.symm)]

namespace FlatStorage

variable {s : FlatStorage} {front : Nat} {rows : List TextRow}

theorem Represents.cellType (h : s.Represents front rows) {i : Nat} {row : TextRow} (hrow : rows[i]? = some row)
    (col : Nat) : s.cellType i col = some (if row.leading = true ∧ col = s.columns - 1 then .leadingWideCharSpacer
      else cellTypeOfInfos row.infos 0 col) := by
  obtain ⟨entry, hentry, hdescribes⟩ := h.index.getEntry hrow
  obtain ⟨runs, hencodes, hsizing, hruns⟩ := Index.runsOfEntry_eq hdescribes
  obtain ⟨-, hsized⟩ := h.rowText hrow
  have hnarrow : Narrow row.infos := by
    intro info hinfo
    obtain ⟨g, hg, rfl⟩ := List.mem_map.mp hinfo
    exact (hsized g hg).width
  have htypes : Index.cellTypeInRuns runs 0 col = cellTypeOfInfos row.infos 0 col := by
    rw [← hencodes.expand]
    exact cellTypeInRuns_eq (hencodes.expand ▸ hnarrow) hencodes.spec.2 (Nat.zero_le _)
  unfold FlatStorage.cellType Index.cellType
  rw [hentry, Option.bind_eq_bind, Option.bind_some, hdescribes.leading, h.columns, ← htypes]
  split
  next => rfl
  next =>
    unfold Index.runsOfEntry at hruns
    rw [hsizing] at hruns ⊢
    match runs with
    | [] => rfl
    | [run] =>
      simp only [sizingOf, Index.cellTypeInRuns, Nat.zero_add, Nat.sub_zero]
      by_cases hle : run.cols ≤ col
      · rw [if_pos hle, if_neg (Nat.not_lt.mpr hle)]
      · rw [if_neg hle, if_pos (Nat.not_le.mp hle)]
    | first :: second :: rest =>
      simp only [sizingOf] at hruns ⊢
      rw [hruns]
      rfl

end FlatStorage

variable {start col : Nat}

theorem cellTypeOfInfos_append (l r : List GraphemeInfo) (hle : start ≤ col) :
    cellTypeOfInfos (l ++ r) start col =
      if col < start + colsOf l then cellTypeOfInfos l start col else cellTypeOfInfos r (start + colsOf l) col := by
  induction l generalizing start with
  | nil =>
    have hnot : ¬ col < start + colsOf [] := by
      rw [colsOf_nil]
      omega
    rw [if_neg hnot]
    rfl
  | cons info l ih =>
    rw [List.cons_append, cellTypeOfInfos, cellTypeOfInfos, colsOf_cons, ← Nat.add_assoc]
    by_cases hin : col < start + info.cellWidth
    · rw [if_pos hin, if_pos hin, if_pos (Nat.lt_of_lt_of_le hin (Nat.le_add_right _ _))]
    · rw [if_neg hin, if_neg hin, ih (Nat.not_lt.mp hin)]

theorem cellTypeOfInfos_past (infos : List GraphemeInfo) (hle : start + colsOf infos ≤ col) :
    cellTypeOfInfos infos start col = .regularChar := by
  have happend := cellTypeOfInfos_append infos [] (Nat.le_trans (Nat.le_add_right _ _) hle)
  rw [List.append_nil, if_neg (Nat.not_lt.mpr hle)] at happend
  exact happend

theorem cellTypeOfInfos_wide (l r : List GraphemeInfo) (info : GraphemeInfo) (hwide : info.cellWidth = 2) (start : Nat) :
    cellTypeOfInfos (l ++ info :: r) start (start + colsOf l) = .wideChar ∧
      cellTypeOfInfos (l ++ info :: r) start (start + colsOf l + 1) = .wideCharSpacer := by
  constructor
  · rw [cellTypeOfInfos_append _ _ (Nat.le_add_right _ _), if_neg (Nat.lt_irrefl _), cellTypeOfInfos, hwide,
      if_pos (by omega)]
    simp
  · rw [cellTypeOfInfos_append _ _ (by omega), if_neg (by omega), cellTypeOfInfos, hwide, if_pos (by omega)]
    simp

theorem exists_wide_of_ne {infos : List GraphemeInfo} (hnarrow : Narrow infos) (hle : start ≤ col)
    (hne : cellTypeOfInfos infos start col ≠ .regularChar) : ∃ l info r, infos = l ++ info :: r ∧
      info.cellWidth = 2 ∧ (col = start + colsOf l ∨ col = start + colsOf l + 1) := by
  induction infos generalizing start with
  | nil => exact absurd rfl hne
  | cons info infos ih =>
    rw [cellTypeOfInfos] at hne
    by_cases hin : col < start + info.cellWidth
    · rw [if_pos hin] at hne
      have hwide : info.cellWidth = 2 := by
        apply (hnarrow info List.mem_cons_self).resolve_left
        intro hone
        exact hne (if_pos hone)
      refine ⟨[], info, infos, rfl, hwide, ?_⟩
      rw [colsOf_nil]
      omega
    · rw [if_neg hin] at hne
      obtain ⟨l, found, r, hinfos, hwide, hcol⟩ :=
        ih (fun info hinfo => hnarrow info (List.mem_cons_of_mem _ hinfo)) (Nat.not_lt.mp hin) hne
      refine ⟨info :: l, found, r, by rw [hinfos, List.cons_append], hwide, ?_⟩
      rw [colsOf_cons]
      omega

namespace TextRow

def Fits (row : TextRow) (columns : Nat) : Prop := 0 < columns ∧ colsOf (row.shown.map Grapheme.sizingInfo) ≤ columns

/-- The wide graphemes before the end are shown, and no spacer at the end stands on a second cell. -/
def WideShown (row : TextRow) (columns : Nat) : Prop :=
  ∀ l g r, row.graphemes = l ++ g :: r → g.cellWidth = 2 →
    colsOf (l.map Grapheme.sizingInfo) < columns - row.leading.toNat →
      (∀ other ∈ l ++ [g], other.startsNewRow = false) ∧
        ¬ (row.leading = true ∧ colsOf (l.map Grapheme.sizingInfo) + 2 = columns)

variable {row : TextRow} {l r : List Grapheme}

theorem shown_of_all (hrow : row.graphemes = l ++ r)
    (hall : ∀ g ∈ l, g.startsNewRow = false) : ∃ t, row.shown = l ++ t := by
  refine ⟨r.takeWhile fun g => !g.startsNewRow, ?_⟩
  rw [shown, hrow, List.takeWhile_append_of_pos]
  intro g hg
  rw [hall g hg]
  rfl

theorem shown_of_break {g : Grapheme} (hrow : row.graphemes = l ++ g :: r)
    (hbreak : ¬ ∀ other ∈ l ++ [g], other.startsNewRow = false) : ∃ t, l = row.shown ++ t := by
  rw [shown, hrow, List.takeWhile_append]
  split
  next hlen =>
    have hall : ∀ other ∈ l, other.startsNewRow = false := by
      intro other hother
      have heq := (List.takeWhile_prefix fun g : Grapheme => !g.startsNewRow).eq_of_length hlen
      simpa using List.takeWhile_eq_self_iff.mp heq other hother
    have hg : g.startsNewRow = true := by
      apply Classical.byContradiction
      intro hg
      apply hbreak
      intro other hother
      cases List.mem_append.mp hother with
      | inl hother => exact hall other hother
      | inr hother =>
        rw [List.mem_singleton.mp hother]
        exact Bool.eq_false_iff.mpr hg
    exact ⟨[], by simp [hg]⟩
  next =>
    obtain ⟨t, ht⟩ := List.takeWhile_prefix (fun g : Grapheme => !g.startsNewRow) (l := l)
    exact ⟨t, ht.symm⟩

/-- The types by the index and by the flags of the produced cells agree exactly if the wide graphemes are shown. -/
theorem types_agree_iff {columns : Nat} (hnarrow : Narrow row.infos) (hfits : row.Fits columns) :
    (∀ col, col < columns →
      (if row.leading = true ∧ col = columns - 1 then CellType.leadingWideCharSpacer
        else cellTypeOfInfos row.infos 0 col) =
      if row.leading = true ∧ col = columns - 1 ∧
          cellTypeOfInfos (row.shown.map Grapheme.sizingInfo) 0 col = .regularChar then .leadingWideCharSpacer
        else cellTypeOfInfos (row.shown.map Grapheme.sizingInfo) 0 col) ↔ row.WideShown columns := by
  have hshown : ∃ rest, row.graphemes = row.shown ++ rest :=
    ⟨_, (List.takeWhile_append_dropWhile (p := fun g : Grapheme => !g.startsNewRow)).symm⟩
  have hnarrow' : Narrow (row.shown.map Grapheme.sizingInfo) := by
    obtain ⟨rest, hrest⟩ := hshown
    intro info hinfo
    apply hnarrow info
    rw [TextRow.infos, hrest, List.map_append]
    exact List.mem_append_left _ hinfo
  constructor
  · intro hagree l g r hrow hwide hlt
    have hinfos : row.infos = l.map Grapheme.sizingInfo ++ g.sizingInfo :: r.map Grapheme.sizingInfo := by
      rw [TextRow.infos, hrow, List.map_append, List.map_cons]
    have hcol := hagree (colsOf (l.map Grapheme.sizingInfo)) (by omega)
    have hnotlast : ¬ (row.leading = true ∧ colsOf (l.map Grapheme.sizingInfo) = columns - 1) := by
      rintro ⟨hleading, heq⟩
      rw [hleading] at hlt
      simp only [Bool.toNat_true] at hlt
      omega
    have htypes := cellTypeOfInfos_wide (l.map Grapheme.sizingInfo) (r.map Grapheme.sizingInfo) g.sizingInfo hwide 0
    rw [Nat.zero_add, ← hinfos] at htypes
    rw [if_neg hnotlast, if_neg (fun h => hnotlast ⟨h.1, h.2.1⟩), htypes.1] at hcol
    have hall : ∀ other ∈ l ++ [g], other.startsNewRow = false := by
      apply Classical.byContradiction
      intro hbreak
      obtain ⟨t, ht⟩ := shown_of_break hrow hbreak
      rw [cellTypeOfInfos_past _ (by rw [ht, List.map_append, colsOf_append]; omega)] at hcol
      cases hcol
    refine ⟨hall, ?_⟩
    rintro ⟨hleading, hend⟩
    obtain ⟨t, ht⟩ := shown_of_all (l := l ++ [g]) (r := r) (by rw [hrow, List.append_assoc, List.singleton_append]) hall
    have hspacer := (cellTypeOfInfos_wide (l.map Grapheme.sizingInfo) (t.map Grapheme.sizingInfo) g.sizingInfo hwide 0).2
    have hmap : row.shown.map Grapheme.sizingInfo =
        l.map Grapheme.sizingInfo ++ g.sizingInfo :: t.map Grapheme.sizingInfo := by
      rw [ht, List.map_append, List.map_append, List.append_assoc]
      rfl
    have hlast := hagree (columns - 1) (by omega)
    have hcolumn : 0 + colsOf (l.map Grapheme.sizingInfo) + 1 = columns - 1 := by omega
    rw [hcolumn, ← hmap] at hspacer
    rw [if_pos ⟨hleading, rfl⟩, hspacer, if_neg (by simp)] at hlast
    cases hlast
  · intro hwideShown col hlt
    -- A wide grapheme of the index at this column, where there is no spacer.
    have hsplit : ∀ l info r, row.infos = l ++ info :: r → info.cellWidth = 2 →
        colsOf l < columns - row.leading.toNat → ∃ t, row.shown.map Grapheme.sizingInfo = l ++ info :: t ∧
          ¬ (row.leading = true ∧ colsOf l + 2 = columns) := by
      intro l info r hinfos hwide hcols
      obtain ⟨gl, gr, hgs, rfl, hgr⟩ := List.map_eq_append_iff.mp hinfos
      obtain ⟨g, gr, rfl, rfl, rfl⟩ := List.map_eq_cons_iff.mp hgr
      obtain ⟨hall, hend⟩ := hwideShown gl g gr hgs hwide hcols
      obtain ⟨t, ht⟩ := shown_of_all (l := gl ++ [g]) (r := gr)
        (by rw [hgs, List.append_assoc, List.singleton_append]) hall
      refine ⟨t.map Grapheme.sizingInfo, ?_, hend⟩
      rw [ht, List.map_append, List.map_append, List.append_assoc]
      rfl
    by_cases hlast : row.leading = true ∧ col = columns - 1
    · obtain ⟨hleading, hcol⟩ := hlast
      have hregular : cellTypeOfInfos (row.shown.map Grapheme.sizingInfo) 0 col = .regularChar := by
        apply Classical.byContradiction
        intro hne
        obtain ⟨l, info, r, hinfos, hwide, hat⟩ := exists_wide_of_ne hnarrow' (Nat.zero_le _) hne
        have hcols := hfits.2
        rw [hinfos, colsOf_append, colsOf_cons, hwide] at hcols
        obtain ⟨rest, hrest⟩ := hshown
        have hlimit : colsOf l < columns - row.leading.toNat := by
          rw [hleading]
          simp only [Bool.toNat_true]
          omega
        obtain ⟨_, -, hend⟩ := hsplit l info (r ++ rest.map Grapheme.sizingInfo)
          (by rw [TextRow.infos, hrest, List.map_append, hinfos, List.append_assoc, List.cons_append]) hwide hlimit
        exact hend ⟨hleading, by omega⟩
      rw [if_pos ⟨hleading, hcol⟩, if_pos ⟨hleading, hcol, hregular⟩]
    · rw [if_neg hlast, if_neg (fun h => hlast ⟨h.1, h.2.1⟩)]
      have hlimit : col < columns - row.leading.toNat := by
        cases hleading : row.leading with
        | false => simpa using hlt
        | true =>
          simp only [Bool.toNat_true]
          have hne : col ≠ columns - 1 := fun heq => hlast ⟨hleading, heq⟩
          omega
      obtain ⟨rest, hrest⟩ := hshown
      have hinfos : row.infos = row.shown.map Grapheme.sizingInfo ++ rest.map Grapheme.sizingInfo := by
        rw [TextRow.infos, hrest, List.map_append]
      by_cases hin : col < 0 + colsOf (row.shown.map Grapheme.sizingInfo)
      · rw [hinfos, cellTypeOfInfos_append _ _ (Nat.zero_le _), if_pos hin]
      · rw [cellTypeOfInfos_past _ (Nat.not_lt.mp hin)]
        apply Classical.byContradiction
        intro hne
        obtain ⟨l, info, r, hl, hwide, hat⟩ := exists_wide_of_ne hnarrow (Nat.zero_le _) hne
        obtain ⟨t, ht, -⟩ := hsplit l info r hl hwide (by omega)
        rw [ht, colsOf_append, colsOf_cons, hwide] at hin
        omega

end TextRow

namespace FlatStorage

variable {s : FlatStorage} {front : Nat} {rows : List TextRow}

theorem Represents.materialised_types (h : s.Represents front rows) {i : Nat} {row : TextRow}
    (hrow : rows[i]? = some row) : (∃ shown, s.materialised i = some shown ∧
      ∀ col, col < s.columns → s.cellType i col = shown.inner[col]?.map CellType.ofCell) ↔
        row.Fits s.columns ∧ row.WideShown s.columns := by
  by_cases hpos : 0 < s.columns
  · obtain ⟨-, hsized⟩ := h.rowText hrow
    have hnarrow : Narrow row.infos := by
      intro info hinfo
      obtain ⟨g, hg, rfl⟩ := List.mem_map.mp hinfo
      exact (hsized g hg).width
    have hnext := h.next hrow hpos (Row.new_sound s.columns)
    by_cases hfits : colsOf (row.shown.map Grapheme.sizingInfo) ≤ s.columns
    · rw [if_pos hfits] at hnext
      obtain ⟨shown, hshown, hinner, hsound⟩ := hnext
      have hmaterialised : s.materialised i = some shown := by
        unfold materialised RowIterator.new
        rw [hshown]
        rfl
      have hlen := s.lineCells_length (front + totalBytes (rows.take i)) hsized
      change _ = colsOf (row.shown.map Grapheme.sizingInfo) at hlen
      -- The types of the produced cells, by the sizes of the shown graphemes.
      have htypes : ∀ col, col < s.columns → shown.inner[col]?.map CellType.ofCell =
          some (if row.leading = true ∧ col = s.columns - 1 ∧
              cellTypeOfInfos (row.shown.map Grapheme.sizingInfo) 0 col = .regularChar then .leadingWideCharSpacer
            else cellTypeOfInfos (row.shown.map Grapheme.sizingInfo) 0 col) := by
        intro col hlt
        rw [hinner, cellsOf, TextRow.mark_types]
        generalize hcells : s.lineCells (front + totalBytes (rows.take i)) row.graphemes = cells at hlen
        have htotal : (cells ++ List.replicate (s.columns - cells.length) ({} : Cell)).length = s.columns := by
          rw [List.length_append, List.length_replicate]
          omega
        have hat : (cells ++ List.replicate (s.columns - cells.length) ({} : Cell))[col]?.map CellType.ofCell =
            some (cellTypeOfInfos (row.shown.map Grapheme.sizingInfo) 0 col) := by
          by_cases hin : col < cells.length
          · have hline := lineCells_types h.styles hsized (front + totalBytes (rows.take i)) 0 (hcells ▸ hin)
            rw [hcells, List.getElem?_map, Nat.zero_add] at hline
            rw [List.getElem?_append_left hin]
            exact hline
          · rw [List.getElem?_append_right (Nat.not_lt.mp hin), List.getElem?_replicate, if_pos (by omega),
              cellTypeOfInfos_past _ (by omega)]
            rfl
        rw [hat, Option.map_some, htotal]
      rw [and_iff_right (show row.Fits s.columns from ⟨hpos, hfits⟩), ← TextRow.types_agree_iff hnarrow ⟨hpos, hfits⟩]
      constructor
      · rintro ⟨other, hother, hagree⟩ col hlt
        obtain rfl := Option.some.inj (hmaterialised.symm.trans hother)
        have hcol := hagree col hlt
        rw [h.cellType hrow, htypes col hlt] at hcol
        exact Option.some.inj hcol
      · intro hagree
        refine ⟨shown, hmaterialised, ?_⟩
        intro col hlt
        rw [h.cellType hrow, htypes col hlt, hagree col hlt]
    · rw [if_neg hfits] at hnext
      have hnone : s.materialised i = none := by
        unfold materialised RowIterator.new
        rw [hnext]
        rfl
      simp [hnone, TextRow.Fits, hfits]
  · have hzero : s.columns = 0 := Nat.eq_zero_of_not_pos hpos
    have hnone : s.materialised i = none := by
      obtain ⟨hlt, -⟩ := List.getElem?_eq_some_iff.mp hrow
      have hstart := h.index.contentOffsetForRow i
      rw [if_pos hlt] at hstart
      unfold materialised RowIterator.new RowIterator.next Index.contentRangeForRow
      simp only [hstart, hzero]
      rfl
    simp [hnone, TextRow.Fits, hpos]

/-- Index and produced row agree on the cells exactly if the row is produced with its wide graphemes shown. -/
theorem cell_types_agree_iff (columns : Nat) (maxRows : Option Nat) (steps : List Step) (s : FlatStorage)
    (hrun : (new columns maxRows).run steps = some s) (i : Nat) (hi : i < s.totalRows) :
    ∃ row, s.storedRow i = some row ∧ ((∃ shown, s.materialised i = some shown ∧
      ∀ col, col < s.columns → s.cellType i col = shown.inner[col]?.map CellType.ofCell) ↔
        row.Fits s.columns ∧ row.WideShown s.columns) := by
  obtain ⟨front, rows, h⟩ := (new_represents columns maxRows).run hrun
  rw [totalRows, h.index.len] at hi
  have hrow : rows[i]? = some rows[i] := List.getElem?_eq_getElem hi
  exact ⟨rows[i], (h.storedRow i).trans hrow, h.materialised_types hrow⟩

def wideCell (c : Char) : Cell := { c, flags := { wideChar := true } }

def wideSpacer : Cell := { flags := { wideCharSpacer := true } }

theorem cell_types_agree_iff_wide : ∃ s, (new 3 none).run [.pushRows [⟨[{ c := 'a' }, wideCell '中', wideSpacer], 3⟩]] =
    some s ∧ ∃ shown, s.materialised 0 = some shown ∧
      ∀ col, col < s.columns → s.cellType 0 col = shown.inner[col]?.map CellType.ofCell := by
  have hcomputed : ((new 3 none).run [.pushRows [⟨[{ c := 'a' }, wideCell '中', wideSpacer], 3⟩]]).map
      (fun s => decide (s.totalRows = 1 ∧ s.columns = 3 ∧ s.storedRow 0 = some
        ⟨[⟨⟨1, 1, by decide⟩, ['a']⟩, ⟨⟨2, 3, by decide⟩, ['中']⟩], true, false⟩)) = some true := by decide +kernel
  obtain ⟨s, hrun, hstate⟩ := Option.map_eq_some_iff.mp hcomputed
  obtain ⟨htotal, hcolumns, hstored⟩ := of_decide_eq_true hstate
  refine ⟨s, hrun, ?_⟩
  obtain ⟨row, hrow, hiff⟩ := cell_types_agree_iff 3 none _ s hrun 0 (by omega)
  obtain rfl := Option.some.inj (hrow.symm.trans hstored)
  apply hiff.mpr
  rw [hcolumns]
  constructor
  · constructor <;> decide
  · intro l g r hsplit _ _
    have hall : ∀ other ∈ l ++ [g], other.startsNewRow = false := by
      intro other hother
      have hmem : other ∈ l ++ g :: r := by
        rw [List.append_cons]
        exact List.mem_append_left r hother
      rw [← hsplit] at hmem
      clear hother
      revert other
      decide
    exact ⟨hall, fun hleading => nomatch hleading.1⟩

/-- A line feed, as the special graphics of `e`, ends the produced row and hides the wide character behind it. -/
theorem cell_types_disagree : ¬ ∀ (columns : Nat) (maxRows : Option Nat) (steps : List Step) (s : FlatStorage),
    (new columns maxRows).run steps = some s → ∀ i, i < s.totalRows → ∃ shown, s.materialised i = some shown ∧
      ∀ col, col < s.columns → s.cellType i col = shown.inner[col]?.map CellType.ofCell := by
  intro hall
  have hcomputed : ((new 3 none).run [.pushRows [⟨[{ c := '\n' }, wideCell '中', wideSpacer], 3⟩]]).map
      (fun s => decide (s.totalRows = 1 ∧ s.columns = 3 ∧ s.cellType 0 1 = some .wideChar ∧
        (s.materialised 0).map (fun shown => shown.inner[1]?.map CellType.ofCell) = some (some .regularChar))) =
          some true := by decide +kernel
  obtain ⟨s, hrun, hstate⟩ := Option.map_eq_some_iff.mp hcomputed
  obtain ⟨htotal, hcolumns, htype, hcell⟩ := of_decide_eq_true hstate
  obtain ⟨shown, hshown, hagree⟩ := hall 3 none _ s hrun 0 (by omega)
  rw [hshown] at hcell
  have hwide := hagree 1 (by omega)
  have hregular : shown.inner[1]?.map CellType.ofCell = some .regularChar := Option.some.inj hcell
  rw [htype, hregular] at hwide
  exact absurd hwide (by decide)

end FlatStorage

end InfiniShell.Scrollback
