import InfiniShell.Scrollback.Layout
import InfiniShell.Scrollback.Storage

namespace InfiniShell.Scrollback

open Collections Terminal

/-- The lengths of these pieces are those of their contents. -/
def SizedText (text : List TextUnit) : Prop := ∀ g, TextUnit.grapheme g ∈ text → g.Sized

theorem SizedText.byteLen {text : List TextUnit} (h : SizedText text) {u : TextUnit} (hu : u ∈ text) :
    byteLen u.content = u.len := by
  cases u with
  | grapheme g => exact (h g hu).bytes
  | newline => decide

theorem TextUnit.len_pos (u : TextUnit) : 0 < u.len := by
  cases u with
  | grapheme g => exact g.info.pos
  | newline => exact Nat.one_pos

variable {l r : List TextUnit}

theorem SizedText.append (hl : SizedText l) (hr : SizedText r) : SizedText (l ++ r) := by
  intro g hg
  cases List.mem_append.mp hg with
  | inl hg => exact hl g hg
  | inr hg => exact hr g hg

theorem SizedText.of_subset (h : SizedText r) (hsub : l ⊆ r) : SizedText l :=
  fun g hg => h g (hsub hg)

namespace Content

def HoldsText (c : Content) : Nat → List TextUnit → Prop
  | _, [] => True
  | offset, u :: text => c.HoldsAt offset u.content ∧ HoldsText c (offset + u.len) text

variable {c next : Content} {offset : Nat} {text : List TextUnit} {l r : List TextUnit}

theorem holdsText_append :
    c.HoldsText offset (l ++ r) ↔ c.HoldsText offset l ∧ c.HoldsText (offset + TextUnit.totalLen l) r := by
  induction l generalizing offset with
  | nil => simp [HoldsText]
  | cons u l ih =>
    rw [List.cons_append, HoldsText, HoldsText, ih, TextUnit.totalLen_cons, Nat.add_assoc, and_assoc]

theorem HoldsText.imp (h : c.HoldsText offset text)
    (hkeep : ∀ k u, u ∈ text → offset ≤ k → k + u.len ≤ offset + TextUnit.totalLen text →
      c.HoldsAt k u.content → next.HoldsAt k u.content) : next.HoldsText offset text := by
  induction text generalizing offset with
  | nil => trivial
  | cons u text ih =>
    obtain ⟨hu, htext⟩ := h
    have hlen := TextUnit.totalLen_cons u text
    refine ⟨hkeep offset u List.mem_cons_self (Nat.le_refl _) (by omega) hu, ?_⟩
    apply ih htext
    intro k v hv hle hk
    exact hkeep k v (List.mem_cons_of_mem _ hv) (by omega) (by omega)

/-- The content is this text from `front` on. -/
structure Is (c : Content) (front : Nat) (text : List TextUnit) : Prop where
  chained : c.Chained
  endOffset : c.endOffset = front + TextUnit.totalLen text
  text : c.HoldsText front text

variable {front : Nat}

theorem new_is : new.Is 0 [] := ⟨new_chained, rfl, trivial⟩

theorem Is.push (h : c.Is front text) {u : TextUnit} {g : Grapheme} (hcontent : g.content = u.content)
    (hlen : byteLen u.content = u.len) (hpush : c.pushGrapheme g = some next) : next.Is front (text ++ [u]) := by
  obtain ⟨hchained, hend, hheld, hkeep⟩ := h.chained.pushGrapheme hpush
  rw [h.endOffset, hcontent] at hheld
  refine ⟨hchained, ?_, holdsText_append.mpr ⟨?_, hheld, trivial⟩⟩
  · rw [hend, h.endOffset, hcontent, hlen, TextUnit.totalLen_append, Nat.add_assoc]
    rfl
  · apply h.text.imp
    intro k v _ _ hk
    apply hkeep k v.content
    have hpos := v.len_pos
    rw [h.endOffset]
    omega

theorem Is.foldlM {gs : List Grapheme} (h : c.Is front text) (hsized : ∀ g ∈ gs, g.Sized)
    (hfold : gs.foldlM Content.pushGrapheme c = some next) : next.Is front (text ++ gs.map .grapheme) := by
  induction gs generalizing c text with
  | nil =>
    obtain rfl := Option.some.inj hfold
    rwa [List.map_nil, List.append_nil]
  | cons g gs ih =>
    rw [List.foldlM_cons, Option.bind_eq_bind, Option.bind_eq_some_iff] at hfold
    obtain ⟨d, hpush, hrest⟩ := hfold
    rw [List.map_cons, List.append_cons]
    exact ih (h.push (u := .grapheme g) rfl (hsized g List.mem_cons_self).bytes hpush)
      (fun g hg => hsized g (List.mem_cons_of_mem _ hg)) hrest

theorem Is.cutAt (h : c.Is front (l ++ r)) : c.CutAt (front + TextUnit.totalLen l) := by
  cases r with
  | nil =>
    have hend := h.endOffset
    rw [List.append_nil] at hend
    rw [← hend]
    exact h.chained.cutAt_end
  | cons u r => exact (holdsText_append.mp h.text).2.1.cutAt

theorem Is.truncate (h : c.Is front (l ++ r)) (hsized : SizedText (l ++ r)) :
    ∃ next, c.truncate (front + TextUnit.totalLen l) = some next ∧ next.Is front l := by
  obtain ⟨next, htruncate, hchained, hend, hkeep⟩ := h.chained.truncate h.cutAt
  refine ⟨next, htruncate, hchained, hend, ?_⟩
  apply (holdsText_append.mp h.text).1.imp
  intro k u hu _ hk
  have hlen := hsized.byteLen (List.mem_append_left r hu)
  apply hkeep k u.content
  · rw [hlen]
    exact u.len_pos
  · rwa [hlen]

theorem Is.truncateFront (h : c.Is front (l ++ r)) :
    (c.truncateFront (front + TextUnit.totalLen l)).Is (front + TextUnit.totalLen l) r := by
  refine ⟨h.chained.truncateFront _, ?_, ?_⟩
  · rw [endOffset_truncateFront, h.endOffset, TextUnit.totalLen_append, Nat.add_assoc]
  · apply (holdsText_append.mp h.text).2.imp
    intro k u _ hle _ hold
    exact hold.truncateFront hle

end Content

theorem EntryBuilder.Builds.foldlM {b next : EntryBuilder} {gs ms : List Grapheme} {leading : Bool}
    (h : b.Builds ⟨gs, false, leading⟩)
    (hfold : (ms.map Grapheme.sizingInfo).foldlM EntryBuilder.processGraphemeInfoUnchecked b = some next) :
    next.Builds ⟨gs ++ ms, false, leading⟩ := by
  induction ms generalizing b gs with
  | nil =>
    obtain rfl := Option.some.inj hfold
    rwa [List.append_nil]
  | cons g ms ih =>
    rw [List.map_cons, List.foldlM_cons, Option.bind_eq_bind, Option.bind_eq_some_iff] at hfold
    obtain ⟨d, hpush, hrest⟩ := hfold
    rw [List.append_cons]
    exact ih (h.push hpush) hrest

/-- Only styling, none of the flags that say what a cell is. -/
def BgAndStyle.Plain (style : BgAndStyle) : Prop := style.flags = styleMask style.flags

theorem BgAndStyle.ofCell_plain (cell : Cell) : (BgAndStyle.ofCell cell).Plain := rfl

/-- The storage holds these rows, the first of which starts at `front`. -/
structure FlatStorage.Represents (s : FlatStorage) (front : Nat) (rows : List TextRow) : Prop where
  index : s.index.Holds front rows
  columns : s.index.columns = s.columns
  content : s.content.Is front (textOf rows)
  sized : SizedText (textOf rows)
  styles : s.bgAndStyleMap.All BgAndStyle.Plain

/-- The graphemes of the cells, behind empty cells that are not stored yet, but for empty cells at the end. -/
def Reads (pending : Nat) (cells : List Cell) (gs : List Grapheme) : Prop :=
  ∃ skipped, List.replicate pending (some Grapheme.emptyCell) ++
    (cells.filter fun cell => !Cell.isSpacer cell).map Grapheme.newFromCell =
      (gs ++ List.replicate skipped Grapheme.emptyCell).map some

/-- No spacer but the last cell stands behind an empty cell. -/
def Spaced : Bool → List Cell → Prop
  | _, [] => True
  | blank, cell :: cells => (Cell.isSpacer cell = true → cells ≠ [] → blank = false) ∧ Spaced cell.isEmpty cells

/-- Spacers stand behind cells with content, and empty cells are narrow. -/
structure Row.Spread (row : Row) : Prop where
  spaced : Spaced false (row.inner.take row.occ)
  empty : ∀ cell ∈ row.inner.take row.occ, cell.isEmpty = true → Grapheme.newFromCell cell = some .emptyCell

/-- The text that is stored for the row. -/
structure Row.Shows (columns : Nat) (row : Row) (text : TextRow) : Prop where
  graphemes : Reads 0 (row.inner.take row.occ) text.graphemes
  newline : Row.softWraps row columns = some (!text.newline)
  leading : text.leading = (row.inner.take row.occ).any fun cell => cell.flags.leadingWideCharSpacer

structure RowPush.Filling (s : FlatStorage) (front : Nat) (rows : List TextRow) (gs : List Grapheme) (leading : Bool)
    (p : RowPush) : Prop where
  index : p.storage.index = s.index
  columns : p.storage.columns = s.columns
  maxRows : p.storage.maxRows = s.maxRows
  content : p.storage.content.Is front (textOf rows ++ gs.map .grapheme)
  sized : ∀ g ∈ gs, g.Sized
  builder : p.builder.Builds ⟨gs, false, leading⟩
  styles : p.storage.bgAndStyleMap.All BgAndStyle.Plain

namespace RowPush

variable {s : FlatStorage} {front : Nat} {rows : List TextRow} {gs ms : List Grapheme} {leading : Bool} {p q : RowPush}

section

variable (h : Filling s front rows gs leading p)
include h

theorem Filling.stores (hsized : ∀ g ∈ ms, g.Sized) (hstores : p.Stores ms q) :
    Filling s front rows (gs ++ ms) leading q where
  index := by
    rw [hstores.frame]
    exact h.index
  columns := by
    rw [hstores.frame]
    exact h.columns
  maxRows := by
    rw [hstores.frame]
    exact h.maxRows
  content := by
    rw [List.map_append, ← List.append_assoc]
    exact h.content.foldlM hsized hstores.content
  sized := fun g hg => (List.mem_append.mp hg).elim (h.sized g) (hsized g)
  builder := h.builder.foldlM hstores.builder
  styles := by
    rw [hstores.frame]
    exact h.styles

theorem Filling.note (cell : Cell) (g : Grapheme) : Filling s front rows gs leading (p.note cell g) := by
  refine ⟨h.index, h.columns, h.maxRows, h.content, h.sized, h.builder, ?_⟩
  unfold RowPush.note RowPush.noteAttributes
  simp only
  split
  next => exact h.styles.pushAttributeChange _ (BgAndStyle.ofCell_plain cell)
  next => exact h.styles

theorem Filling.pushCell {cell : Cell} (hpush : p.pushCell cell = some q) :
    ∃ ms, Filling s front rows (gs ++ ms) (leading || cell.flags.leadingWideCharSpacer) q ∧ q.idx = p.idx + 1 ∧
      (Cell.isSpacer cell = true ∧ ms = [] ∧ q.lastCell = q.idx ∨ Cell.isSpacer cell = false ∧
        ∃ g, Grapheme.newFromCell cell = some g ∧ (cell.isEmpty = true ∧ ms = [] ∧ q.lastCell = p.lastCell ∨
          ms = List.replicate (p.idx - p.lastCell).toNat .emptyCell ++ [g] ∧ q.lastCell = q.idx)) := by
  cases pushCell_cases hpush with
  | inl hcase =>
    obtain ⟨hspacer, rfl⟩ := hcase
    refine ⟨[], ⟨h.index, h.columns, h.maxRows, ?_, ?_, ?_, h.styles⟩, rfl, .inl ⟨hspacer, rfl, rfl⟩⟩
    · rw [List.append_nil]
      exact h.content
    · rw [List.append_nil]
      exact h.sized
    · rw [List.append_nil]
      simp only
      split
      next hleading =>
        rw [hleading, Bool.or_true]
        exact h.builder.leading_row
      next hleading =>
        rw [Bool.eq_false_iff.mpr hleading, Bool.or_false]
        exact h.builder
  | inr hcase =>
    obtain ⟨hspacer, g, hg, hcase⟩ := hcase
    rw [(Bool.or_eq_false_iff.mp hspacer).2, Bool.or_false]
    cases hcase with
    | inl hcase =>
      obtain ⟨hneeded, rfl⟩ := hcase
      refine ⟨[], (List.append_nil gs).symm ▸ h.note cell g, rfl, .inr ⟨hspacer, g, hg, .inl ⟨?_, rfl, rfl⟩⟩⟩
      simp only [RowPush.needsProcessing, Bool.or_eq_false_iff, Bool.not_eq_false'] at hneeded
      exact hneeded.1.1.1.1
    | inr hcase =>
      have hnote := h.note cell g
      have hlast : Filling s front rows gs leading { p.note cell g with lastCell := (p.note cell g).idx } :=
        ⟨hnote.index, hnote.columns, hnote.maxRows, hnote.content, hnote.sized, hnote.builder, hnote.styles⟩
      have hstores := process_spec hcase.2
      have hpending : (p.note cell g).pending = (p.idx - p.lastCell).toNat := by
        unfold RowPush.pending
        change (p.idx + 1 - 1 - p.lastCell).toNat = _
        rw [Int.add_sub_cancel]
      rw [hpending] at hstores
      refine ⟨_, hlast.stores ?_ hstores, ?_, .inr ⟨hspacer, g, hg, .inr ⟨rfl, ?_⟩⟩⟩
      · intro m hm
        cases List.mem_append.mp hm with
        | inl hm =>
          rw [List.eq_of_mem_replicate hm]
          exact Grapheme.emptyCell_sized
        | inr hm =>
          rw [List.mem_singleton.mp hm]
          exact Grapheme.newFromCell_sized hg
      · rw [hstores.frame]
        rfl
      · rw [hstores.frame]

theorem Filling.foldlM {cells : List Cell} (hfold : cells.foldlM RowPush.pushCell p = some q) :
    ∃ ms, Filling s front rows (gs ++ ms) (leading || cells.any fun cell => cell.flags.leadingWideCharSpacer) q ∧
      ∀ blank, Spaced blank cells → (∀ cell ∈ cells, cell.isEmpty = true → Grapheme.newFromCell cell = some .emptyCell) →
        p.lastCell ≤ p.idx → (blank = false → p.lastCell = p.idx) → Reads (p.idx - p.lastCell).toNat cells ms := by
  induction cells generalizing p gs leading with
  | nil =>
    obtain rfl := Option.some.inj hfold
    refine ⟨[], ?_, fun _ _ _ _ _ => ⟨(p.idx - p.lastCell).toNat, by simp⟩⟩
    rw [List.append_nil, List.any_nil, Bool.or_false]
    exact h
  | cons cell cells ih =>
    rw [List.foldlM_cons, Option.bind_eq_bind, Option.bind_eq_some_iff] at hfold
    obtain ⟨u, hpush, hrest⟩ := hfold
    obtain ⟨ms, hu, hidx, hcell⟩ := h.pushCell hpush
    obtain ⟨ms', hq, hreads⟩ := ih hu hrest
    rw [List.append_assoc, Bool.or_assoc] at hq
    refine ⟨_, hq, ?_⟩
    intro blank hspaced hempty hle hblank
    have hnext := hreads cell.isEmpty hspaced.2 fun cell hcell => hempty cell (List.mem_cons_of_mem _ hcell)
    obtain ⟨hspacer, rfl, hlast⟩ | ⟨hspacer, g, hg, hcell⟩ := hcell
    · have hall := hnext (by omega) fun _ => hlast
      rw [hlast, Int.sub_self] at hall
      obtain ⟨skipped, heq⟩ := hall
      cases cells with
      | nil =>
        have hnone : ms' = [] ∧ skipped = 0 := by simpa using heq
        rw [hnone.1]
        exact ⟨(p.idx - p.lastCell).toNat, by simp [hspacer]⟩
      | cons next cells =>
        rw [hblank (hspaced.1 hspacer (List.cons_ne_nil _ _)), Int.sub_self]
        exact ⟨skipped, by simpa [hspacer] using heq⟩
    · obtain ⟨hskip, rfl, hlast⟩ | ⟨rfl, hlast⟩ := hcell
      · have hzero := hempty cell List.mem_cons_self hskip
        obtain ⟨skipped, heq⟩ := hnext (by omega) fun hfilled => absurd (hskip.symm.trans hfilled) (by simp)
        have hcount : (u.idx - u.lastCell).toNat = (p.idx - p.lastCell).toNat + 1 := by omega
        rw [hcount, List.replicate_succ', List.append_assoc] at heq
        exact ⟨skipped, by simpa [hspacer, hzero] using heq⟩
      · have hall := hnext (by omega) fun _ => hlast
        rw [hlast, Int.sub_self] at hall
        obtain ⟨skipped, heq⟩ := hall
        exact ⟨skipped, by simpa [hspacer, hg] using heq⟩

end

theorem Filling.finish (hs : s.Represents front rows) (h : Filling s front rows gs leading p) {rowSoftWraps : Bool}
    {t : FlatStorage} (hfinish : p.finish rowSoftWraps = some t) :
    t.Represents front (rows ++ [⟨gs, !rowSoftWraps, leading⟩]) ∧ t.columns = s.columns ∧ t.maxRows = s.maxRows := by
  have hindex : p.storage.index.Holds front rows := h.index ▸ hs.index
  have hcolumns : p.storage.index.columns = p.storage.columns := by rw [h.index, h.columns, hs.columns]
  have hgraphemes : SizedText (gs.map .grapheme) := by
    intro g hg
    obtain ⟨g', hg', heq⟩ := List.mem_map.mp hg
    obtain rfl := TextUnit.grapheme.inj heq
    exact h.sized g' hg'
  unfold RowPush.finish at hfinish
  split at hfinish
  next hwraps =>
    rw [← Option.some.inj hfinish, hwraps]
    have hunits : textOf [⟨gs, !true, leading⟩] = gs.map .grapheme := by simp [textOf, TextRow.units]
    refine ⟨⟨h.builder.appendToIndex hindex, hcolumns, ?_, ?_, h.styles⟩, h.columns, h.maxRows⟩
    · rw [textOf_append, hunits]
      exact h.content
    · rw [textOf_append, hunits]
      exact hs.sized.append hgraphemes
  next hwraps =>
    rw [Option.bind_eq_bind, Option.bind_eq_some_iff] at hfinish
    obtain ⟨content, hpush, hnext⟩ := hfinish
    rw [← Option.some.inj hnext, Bool.eq_false_iff.mpr hwraps]
    have hunits : textOf [⟨gs, !false, leading⟩] = gs.map .grapheme ++ [.newline] := by simp [textOf, TextRow.units]
    refine ⟨⟨h.builder.newline_row.appendToIndex hindex, hcolumns, ?_, ?_, h.styles⟩, h.columns, h.maxRows⟩
    · rw [textOf_append, hunits, ← List.append_assoc]
      exact h.content.push (u := .newline) rfl (by decide) hpush
    · rw [textOf_append, hunits, ← List.append_assoc]
      exact (hs.sized.append hgraphemes).append (by simp [SizedText])

end RowPush

theorem textOf_subset {rows rows' : List TextRow} (h : rows ⊆ rows') : textOf rows ⊆ textOf rows' := by
  intro u hu
  obtain ⟨row, hrow, hu⟩ := List.mem_flatMap.mp hu
  exact List.mem_flatMap.mpr ⟨row, h hrow, hu⟩

namespace FlatStorage

variable {s t : FlatStorage} {front : Nat} {rows : List TextRow}

theorem new_represents (columns : Nat) (maxRows : Option Nat) : (new columns maxRows).Represents 0 [] :=
  ⟨Index.new_holds columns, rfl, Content.new_is, by simp [SizedText, textOf], AttributeMap.new_all rfl⟩

theorem Represents.startRow (h : s.Represents front rows) (attributes : Attributes) :
    RowPush.Filling s front rows [] false (s.startRow attributes) :=
  ⟨rfl, rfl, rfl, by simpa [FlatStorage.startRow] using h.content, by simp, EntryBuilder.new_builds, h.styles⟩

theorem Represents.pushRow {sa ta : FlatStorage × Attributes} (h : sa.1.Represents front rows) {row : Row}
    (hpush : pushRow sa row = some ta) : ∃ textRow, ta.1.Represents front (rows ++ [textRow]) ∧
      ta.1.columns = sa.1.columns ∧ ta.1.maxRows = sa.1.maxRows ∧ (Row.Spread row → Row.Shows sa.1.columns row textRow) := by
  unfold FlatStorage.pushRow at hpush
  simp only [Option.bind_eq_bind, Option.bind_eq_some_iff] at hpush
  obtain ⟨cells, hcells, p, hp, wraps, hwraps, t, hfinish, hnext⟩ := hpush
  obtain ⟨gs, hfilling, hreads⟩ := (h.startRow sa.2).foldlM hp
  obtain ⟨ht, hcolumns, hmaxRows⟩ := RowPush.Filling.finish h hfilling hfinish
  rw [← Option.some.inj hnext]
  refine ⟨_, ht, hcolumns, hmaxRows, ?_⟩
  unfold Row.dirtyCells at hcells
  split at hcells
  next =>
    rw [← Option.some.inj hcells] at hreads
    intro hspread
    have hall := hreads false hspread.spaced hspread.empty (Int.le_refl _) fun _ => rfl
    refine ⟨hall, ?_, ?_⟩
    · rw [hwraps, Bool.not_not]
    · simp_all
  next => cases hcells

/-- The rows that the limit leaves. -/
def newest (maxRows : Option Nat) (rows : List TextRow) : List TextRow :=
  match maxRows with
  | some maxRows => rows.drop (rows.length - maxRows)
  | none => rows

/-- The storage as a list of rows. -/
structure HeldRows where
  columns : Nat
  rows : List TextRow

/-- What the operations are to do with the list. -/
def HeldRows.Next (maxRows : Option Nat) (m next : HeldRows) : Step → Prop
  | .pushRows pushed =>
    ∃ more, List.Forall₂ (Row.Shows m.columns) pushed more ∧ next = ⟨m.columns, newest maxRows (m.rows ++ more)⟩
  | .pushRowsWithoutTruncation pushed =>
    ∃ more, List.Forall₂ (Row.Shows m.columns) pushed more ∧ next = ⟨m.columns, m.rows ++ more⟩
  | .applyMaxRows => next = ⟨m.columns, newest maxRows m.rows⟩
  | .popRows count => next = ⟨m.columns, m.rows.take (m.rows.length - count)⟩
  | .truncateRowsFront count => next = ⟨m.columns, m.rows.drop count⟩
  | .clear => next = ⟨m.columns, []⟩
  | .setColumns columns =>
    next = ⟨columns, if m.columns = columns then m.rows else rewrap columns (textOf m.rows)⟩

inductive HeldRows.Run (maxRows : Option Nat) : HeldRows → List Step → HeldRows → Prop
  | nil (m : HeldRows) : Run maxRows m [] m
  | cons {m middle last : HeldRows} {step : Step} {steps : List Step} :
      Next maxRows m middle step → Run maxRows middle steps last → Run maxRows m (step :: steps) last

def Step.Spread : Step → Prop
  | .pushRows rows | .pushRowsWithoutTruncation rows => ∀ row ∈ rows, Row.Spread row
  | _ => True

theorem truncateRowsFront_frame (s : FlatStorage) (count : Nat) :
    (s.truncateRowsFront count).columns = s.columns ∧ (s.truncateRowsFront count).maxRows = s.maxRows := by
  unfold truncateRowsFront
  split <;> exact ⟨rfl, rfl⟩

variable (h : s.Represents front rows)
include h

theorem Represents.pushRowsInternal {pushed : List Row} (hpush : s.pushRowsInternal pushed = some t) :
    ∃ more, t.Represents front (rows ++ more) ∧ t.columns = s.columns ∧ t.maxRows = s.maxRows ∧
      ((∀ row ∈ pushed, Row.Spread row) → List.Forall₂ (Row.Shows s.columns) pushed more) := by
  obtain ⟨ta, hfold, rfl⟩ := Option.map_eq_some_iff.mp hpush
  have hloop : ∀ (pushed : List Row) (sa : FlatStorage × Attributes) (rows : List TextRow), sa.1.Represents front rows →
      pushed.foldlM FlatStorage.pushRow sa = some ta → ∃ more, ta.1.Represents front (rows ++ more) ∧
        ta.1.columns = sa.1.columns ∧ ta.1.maxRows = sa.1.maxRows ∧
          ((∀ row ∈ pushed, Row.Spread row) → List.Forall₂ (Row.Shows sa.1.columns) pushed more) := by
    intro pushed
    induction pushed with
    | nil =>
      intro sa rows h hfold
      obtain rfl := Option.some.inj hfold
      exact ⟨[], by rwa [List.append_nil], rfl, rfl, fun _ => .nil⟩
    | cons row pushed ih =>
      intro sa rows h hfold
      rw [List.foldlM_cons, Option.bind_eq_bind, Option.bind_eq_some_iff] at hfold
      obtain ⟨ua, hrow, hrest⟩ := hfold
      obtain ⟨textRow, hu, hcolumns, hmaxRows, hshows⟩ := Represents.pushRow h hrow
      obtain ⟨more, ht, hcolumns', hmaxRows', hall⟩ := ih ua _ hu hrest
      rw [List.append_assoc] at ht
      rw [hcolumns] at hcolumns' hall
      refine ⟨_, ht, hcolumns', hmaxRows'.trans hmaxRows, ?_⟩
      intro hspread
      obtain ⟨hfirst, hspread⟩ := List.forall_mem_cons.mp hspread
      exact .cons (hshows hfirst) (hall hspread)
  exact hloop pushed (s, s.tails) rows h hfold

theorem Represents.truncate (n : Nat) : ∃ t, s.truncate n = some t ∧ t.Represents front (rows.take n) ∧
    t.columns = s.columns ∧ t.maxRows = s.maxRows := by
  obtain ⟨hindex, hlen⟩ := h.index.truncate n
  have htext : textOf rows = textOf (rows.take n) ++ textOf (rows.drop n) := by
    rw [← textOf_append, List.take_append_drop]
  have hcontent := h.content
  have hsized := h.sized
  rw [htext] at hcontent hsized
  obtain ⟨content, htruncate, hnext⟩ := hcontent.truncate hsized
  rw [← totalBytes_eq, ← hlen] at htruncate
  unfold FlatStorage.truncate
  simp only [htruncate, Option.bind_eq_bind, Option.bind_some]
  refine ⟨_, rfl, ⟨hindex, ?_, hnext, h.sized.of_subset (textOf_subset (List.take_subset _ _)), h.styles.truncate _⟩,
    rfl, rfl⟩
  have hcolumns : (s.index.truncate n).1.columns = s.index.columns := by
    unfold Index.truncate
    split <;> rfl
  rw [hcolumns, h.columns]

theorem Represents.truncateRowsFront (count : Nat) :
    (s.truncateRowsFront count).Represents (front + totalBytes (rows.take count)) (rows.drop count) := by
  unfold FlatStorage.truncateRowsFront
  split
  next hzero =>
    rw [hzero]
    exact h
  next =>
    have hcount : rows.take (min count s.totalRows) = rows.take count ∧
        rows.drop (min count s.totalRows) = rows.drop count := by
      rw [totalRows, h.index.len]
      cases Nat.le_total count rows.length with
      | inl hle => rw [Nat.min_eq_left hle]; exact ⟨rfl, rfl⟩
      | inr hle =>
        rw [Nat.min_eq_right hle, List.take_length, List.take_of_length_le hle, List.drop_length,
          List.drop_eq_nil_of_le hle]
        exact ⟨rfl, rfl⟩
    obtain ⟨hindex, hstart⟩ := h.index.truncateFront (min count s.totalRows)
    rw [hcount.1, hcount.2] at hindex
    rw [hcount.1] at hstart
    have htext : textOf rows = textOf (rows.take count) ++ textOf (rows.drop count) := by
      rw [← textOf_append, List.take_append_drop]
    have hcontent := h.content
    rw [htext] at hcontent
    refine ⟨hindex, h.columns, ?_, h.sized.of_subset (textOf_subset (List.drop_subset _ _)), h.styles.truncateFront _⟩
    simp only [hstart]
    rw [totalBytes_eq]
    exact hcontent.truncateFront

theorem Represents.applyMaxRows : (∃ front', s.applyMaxRows.Represents front' (newest s.maxRows rows)) ∧
    s.applyMaxRows.columns = s.columns ∧ s.applyMaxRows.maxRows = s.maxRows := by
  unfold FlatStorage.applyMaxRows
  cases hlimit : s.maxRows with
  | none => exact ⟨⟨_, h⟩, rfl, hlimit⟩
  | some maxRows =>
    simp only [newest]
    rw [h.index.len]
    split
    next => exact ⟨⟨_, h.truncateRowsFront _⟩, hlimit ▸ truncateRowsFront_frame s _⟩
    next hlt =>
      rw [Nat.sub_eq_zero_of_le (Nat.le_of_not_le hlt), List.drop_zero]
      exact ⟨⟨_, h⟩, rfl, hlimit⟩

theorem Represents.setColumns {newColumns : Nat}
    (hset : s.setColumns newColumns = some t) : t.Represents front
      (if s.columns = newColumns then rows else rewrap newColumns (textOf rows)) ∧
        t.columns = newColumns ∧ t.maxRows = s.maxRows ∧ t.content = s.content := by
  unfold FlatStorage.setColumns at hset
  split at hset
  next heq =>
    obtain rfl := Option.some.inj hset
    rw [if_pos heq]
    exact ⟨h, heq, rfl, rfl⟩
  next hne =>
    obtain ⟨index, hrebuild, rfl⟩ := Option.map_eq_some_iff.mp hset
    have hwidth : ∀ g, Stored rows g → g.cellWidth ≠ 0 := by
      intro g hg
      cases (h.sized g (stored_iff.mp hg)).width <;> omega
    obtain ⟨hindex, hcolumns⟩ := h.index.rebuild hwidth hrebuild
    rw [if_neg hne]
    exact ⟨⟨hindex, hcolumns, (rewrap_text newColumns (textOf rows)).symm ▸ h.content,
      (rewrap_text newColumns (textOf rows)).symm ▸ h.sized, h.styles⟩, rfl, rfl, rfl⟩

theorem Represents.popRows {count : Nat} {popped : List Row × FlatStorage} (hpop : s.popRows count = some popped) :
    popped.2.Represents front (rows.take (rows.length - count)) ∧ popped.2.columns = s.columns ∧
      popped.2.maxRows = s.maxRows := by
  unfold FlatStorage.popRows at hpop
  simp only [Option.bind_eq_bind, Option.bind_eq_some_iff] at hpop
  obtain ⟨popped, -, t, htruncate, hnext⟩ := hpop
  rw [totalRows, h.index.len] at htruncate
  obtain ⟨u, hu, hrepresents⟩ := h.truncate (rows.length - count)
  rw [← Option.some.inj hnext]
  rwa [← Option.some.inj (hu.symm.trans htruncate)]

theorem Represents.step {next : Step} (hstep : s.step next = some t) :
    ∃ front' m, t.Represents front' m.rows ∧ t.columns = m.columns ∧ t.maxRows = s.maxRows ∧
      (next.Spread → HeldRows.Next s.maxRows ⟨s.columns, rows⟩ m next) := by
  cases next with
  | pushRows pushed =>
    obtain ⟨u, hpush, rfl⟩ := Option.map_eq_some_iff.mp hstep
    obtain ⟨more, hu, hcolumns, hmaxRows, hshows⟩ := h.pushRowsInternal hpush
    obtain ⟨⟨front', ht⟩, hcapped, hlimit⟩ := hu.applyMaxRows
    rw [hmaxRows] at ht
    exact ⟨_, ⟨_, _⟩, ht, hcapped.trans hcolumns, hlimit.trans hmaxRows, fun hspread => ⟨more, hshows hspread, rfl⟩⟩
  | pushRowsWithoutTruncation pushed =>
    obtain ⟨more, ht, hcolumns, hmaxRows, hshows⟩ := h.pushRowsInternal hstep
    exact ⟨_, ⟨_, _⟩, ht, hcolumns, hmaxRows, fun hspread => ⟨more, hshows hspread, rfl⟩⟩
  | applyMaxRows =>
    obtain rfl := Option.some.inj hstep
    obtain ⟨⟨front', ht⟩, hframe⟩ := h.applyMaxRows
    exact ⟨_, ⟨_, _⟩, ht, hframe.1, hframe.2, fun _ => rfl⟩
  | popRows count =>
    obtain ⟨popped, hpop, rfl⟩ := Option.map_eq_some_iff.mp hstep
    obtain ⟨ht, hcolumns, hmaxRows⟩ := h.popRows hpop
    exact ⟨_, ⟨_, _⟩, ht, hcolumns, hmaxRows, fun _ => rfl⟩
  | truncateRowsFront count =>
    obtain rfl := Option.some.inj hstep
    have hframe := s.truncateRowsFront_frame count
    exact ⟨_, ⟨_, _⟩, h.truncateRowsFront count, hframe.1, hframe.2, fun _ => rfl⟩
  | clear =>
    obtain ⟨u, hu, hrepresents, hcolumns, hmaxRows⟩ := h.truncate 0
    obtain rfl := Option.some.inj (hu.symm.trans hstep)
    exact ⟨_, ⟨_, _⟩, hrepresents, hcolumns, hmaxRows, fun _ => rfl⟩
  | setColumns newColumns =>
    obtain ⟨ht, hcolumns, hmaxRows, -⟩ := h.setColumns hstep
    exact ⟨_, ⟨newColumns, _⟩, ht, hcolumns, hmaxRows, fun _ => rfl⟩

theorem Represents.follows {steps : List Step} (hrun : s.run steps = some t) :
    ∃ front' m, t.Represents front' m.rows ∧ t.columns = m.columns ∧
      ((∀ next ∈ steps, next.Spread) → HeldRows.Run s.maxRows ⟨s.columns, rows⟩ steps m) := by
  induction steps generalizing s front rows with
  | nil =>
    obtain rfl := Option.some.inj hrun
    exact ⟨front, ⟨s.columns, rows⟩, h, rfl, fun _ => .nil _⟩
  | cons next steps ih =>
    rw [FlatStorage.run, List.foldlM_cons, Option.bind_eq_bind, Option.bind_eq_some_iff] at hrun
    obtain ⟨u, hstep, hrest⟩ := hrun
    obtain ⟨_, m, hu, hcolumns, hmaxRows, hnext⟩ := h.step hstep
    obtain ⟨_, last, ht, hlast, hruns⟩ := ih hu hrest
    rw [hmaxRows, hcolumns] at hruns
    refine ⟨_, last, ht, hlast, ?_⟩
    intro hspread
    obtain ⟨hfirst, hspread⟩ := List.forall_mem_cons.mp hspread
    exact .cons (hnext hfirst) (hruns hspread)

theorem Represents.run {steps : List Step} (hrun : s.run steps = some t) :
    ∃ front' rows', t.Represents front' rows' := by
  obtain ⟨_, _, ht, -⟩ := h.follows hrun
  exact ⟨_, _, ht⟩

end FlatStorage

end InfiniShell.Scrollback
