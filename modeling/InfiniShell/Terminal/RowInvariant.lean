import InfiniShell.Terminal.GridHandler

namespace InfiniShell.Terminal

theorem foldlM_preserves {S I : Type} {P : S → Prop} {f : S → I → Option S}
    (hf : ∀ s i after, P s → f s i = some after → P after) {indices : List I} {s after : S} (h : P s)
    (hfold : indices.foldlM f s = some after) : P after := by
  induction indices generalizing s with
  | nil => exact Option.some.inj hfold ▸ h
  | cons i indices ih =>
    obtain ⟨next, hnext, hfold⟩ := Option.bind_eq_some_iff.mp hfold
    exact ih (hf s i next h hnext) hfold

theorem exists_of_mem_mapM {I S : Type} {f : I → Option S} {indices : List I} {results : List S}
    (h : indices.mapM f = some results) {s : S} (hs : s ∈ results) : ∃ i ∈ indices, f i = some s := by
  induction indices generalizing results with
  | nil =>
    obtain rfl := Option.some.inj h
    cases hs
  | cons i indices ih =>
    rw [List.mapM_cons] at h
    obtain ⟨first, hfirst, h⟩ := Option.bind_eq_some_iff.mp h
    obtain ⟨rest, hrest, h⟩ := Option.bind_eq_some_iff.mp h
    obtain rfl := Option.some.inj h
    cases List.mem_cons.mp hs with
    | inl heq => exact ⟨i, List.mem_cons_self, heq ▸ hfirst⟩
    | inr hmem =>
      obtain ⟨i', hi', hs'⟩ := ih hrest hmem
      exact ⟨i', List.mem_cons_of_mem i hi', hs'⟩

/-- What the storage keeps of rows and templates when it makes, resets, cuts and moves rows. -/
structure RowInvariant (p : Nat → Row → Prop) (q : Cell → Prop) : Prop where
  length : ∀ {columns : Nat} {row : Row}, p columns row → row.inner.length = columns
  new : ∀ columns : Nat, p columns (Row.new columns)
  rowReset : ∀ {columns : Nat} {row after : Row} {template : Cell}, p columns row →
    row.reset template = some after → p columns after
  rowShrink : ∀ {columns target : Nat} {row after : Row}, p columns row → target < columns →
    row.shrinkWithoutReflow target = some after → p target after
  template : q {}

theorem Row.grow_new (columns : Nat) : (Row.new columns).grow columns = Row.new columns := by
  simp [Row.grow, Row.new]

namespace Storage

variable {p : Row → Prop} {s after : Storage}

def Every (p : Row → Prop) (s : Storage) : Prop := ∀ row ∈ s.inner, p row

variable {index : Nat} {f : Row → Option Row}

theorem update_spec (hupdate : s.update index f = some after) :
    ∃ raw row row', s.fromGridIndex index = some raw ∧ s.inner[raw]? = some row ∧ f row = some row' ∧
      after = s.setRaw raw row' := by
  obtain ⟨raw, hraw, hupdate⟩ := Option.bind_eq_some_iff.mp hupdate
  obtain ⟨row, hrow, hupdate⟩ := Option.bind_eq_some_iff.mp hupdate
  obtain ⟨row', hrow', hupdate⟩ := Option.bind_eq_some_iff.mp hupdate
  exact ⟨raw, row, row', hraw, hrow, hrow', (Option.some.inj hupdate).symm⟩

theorem fromGridIndex_setRaw (s : Storage) (raw : Nat) (row : Row) (index : Nat) :
    (s.setRaw raw row).fromGridIndex index = s.fromGridIndex index := by
  have hlen : (s.setRaw raw row).inner.length = s.inner.length := List.length_set
  unfold fromGridIndex
  rw [hlen]
  rfl

theorem Every.setRaw (h : s.Every p) {raw : Nat} {row : Row} (hrow : p row) : (s.setRaw raw row).Every p := by
  intro other hother
  cases List.mem_or_eq_of_mem_set hother with
  | inl hold => exact h other hold
  | inr hnew => exact hnew ▸ hrow

theorem Every.update (h : s.Every p)
    (hf : ∀ row row', s.get index = some row → p row → f row = some row' → p row')
    (hupdate : s.update index f = some after) : after.Every p := by
  obtain ⟨raw, row, row', hraw, hrow, hrow', rfl⟩ := update_spec hupdate
  have hget : s.get index = some row := by simp [get, hraw, hrow]
  exact h.setRaw (hf row row' hget (h row (List.mem_of_getElem? hrow)) hrow')

theorem Every.updateLine (h : s.Every p) {line : Nat}
    (hf : ∀ row row', p row → f row = some row' → p row') (hupdate : s.updateLine line f = some after) :
    after.Every p := by
  obtain ⟨index, -, hupdate⟩ := Option.bind_eq_some_iff.mp hupdate
  exact h.update (fun row row' _ => hf row row') hupdate

variable {a b : Nat}

theorem Every.swap (h : s.Every p) (hswap : s.swap a b = some after) : after.Every p := by
  obtain ⟨i, -, hswap⟩ := Option.bind_eq_some_iff.mp hswap
  obtain ⟨j, -, hswap⟩ := Option.bind_eq_some_iff.mp hswap
  obtain ⟨rowA, hA, hswap⟩ := Option.bind_eq_some_iff.mp hswap
  obtain ⟨rowB, hB, hswap⟩ := Option.bind_eq_some_iff.mp hswap
  obtain rfl := Option.some.inj hswap
  exact (h.setRaw (h rowB (List.mem_of_getElem? hB))).setRaw (h rowA (List.mem_of_getElem? hA))

theorem Every.swapLines (h : s.Every p) (hswap : s.swapLines a b = some after) : after.Every p := by
  obtain ⟨i, -, hswap⟩ := Option.bind_eq_some_iff.mp hswap
  obtain ⟨j, -, hswap⟩ := Option.bind_eq_some_iff.mp hswap
  exact h.swap hswap

theorem Every.rotate (h : s.Every p) {count : Int} (hrotate : s.rotate count = some after) : after.Every p := by
  unfold Storage.rotate at hrotate
  split at hrotate
  next => exact Option.some.inj hrotate ▸ h
  next => cases hrotate

theorem Every.rezero (h : s.Every p) : s.rezero.Every p := by
  unfold Storage.rezero
  split
  next => exact h
  next => exact fun row hrow => h row (List.mem_rotate.mp hrow)

theorem Every.truncateUnusedRows (h : s.Every p) : s.truncateUnusedRows.Every p :=
  fun row hrow => h.rezero row (List.mem_of_mem_take hrow)

theorem Every.shrinkLines (h : s.Every p) {shrinkage : Nat} (hshrink : s.shrinkLines shrinkage = some after) :
    after.Every p := by
  obtain ⟨len, -, hshrink⟩ := Option.bind_eq_some_iff.mp hshrink
  obtain rfl := Option.some.inj hshrink
  have hlen : ({ s with len } : Storage).Every p := h
  simp only
  split
  next => exact hlen.truncateUnusedRows
  next => exact hlen

theorem Every.shrinkVisibleLines (h : s.Every p) {next : Nat} (hshrink : s.shrinkVisibleLines next = some after) :
    after.Every p := by
  obtain ⟨shrinkage, -, hshrink⟩ := Option.bind_eq_some_iff.mp hshrink
  obtain ⟨shrunk, hlines, hshrink⟩ := Option.bind_eq_some_iff.mp hshrink
  obtain rfl := Option.some.inj hshrink
  have hshrunk := h.shrinkLines hlines
  exact hshrunk

theorem Every.swapFromBottom {rows distance i : Nat} (h : s.Every p)
    (hswap : GridStorage.swapFromBottom rows distance s i = some after) : after.Every p := by
  obtain ⟨index, -, hswap⟩ := Option.bind_eq_some_iff.mp hswap
  obtain ⟨target, -, hswap⟩ := Option.bind_eq_some_iff.mp hswap
  exact h.swap hswap

theorem Every.replaceRows {p' : Row → Prop} (h : s.Every p) {f : List Row → Option (List Row)}
    (hf : ∀ rows rows', rows = s.truncateUnusedRows.inner → (∀ row ∈ rows, p row) → f rows = some rows' →
      ∀ row ∈ rows', p' row)
    (hreplace : s.replaceRows f = some after) : after.Every p' := by
  obtain ⟨inner, hinner, hreplace⟩ := Option.bind_eq_some_iff.mp hreplace
  obtain rfl := Option.some.inj hreplace
  exact hf _ inner rfl h.truncateUnusedRows hinner

end Storage

namespace GridStorage

/-- Every row has the one property, and the templates of the cursors have the other. -/
structure Every (p : Nat → Row → Prop) (q : Cell → Prop) (grid : GridStorage) : Prop where
  rows : grid.raw.Every (p grid.columns)
  template : q grid.cursor.template
  saved : q grid.savedCursor.template

variable {p : Nat → Row → Prop} {q : Cell → Prop} {grid after : GridStorage} (h : grid.Every p q)
include h

theorem Every.withRaw {raw : Storage} (hraw : raw.Every (p grid.columns)) : { grid with raw }.Every p q :=
  ⟨hraw, h.template, h.saved⟩

theorem Every.updateMaxCursor : grid.updateMaxCursor.Every p q := by
  unfold GridStorage.updateMaxCursor
  simp only
  split
  next => exact h
  next =>
    split
    next => exact ⟨h.rows, h.template, h.saved⟩
    next => exact h

theorem Every.decreaseScrollLimit {count : Nat}
    (hdecrease : grid.decreaseScrollLimit count = some after) : after.Every p q := by
  obtain ⟨history, -, hdecrease⟩ := Option.bind_eq_some_iff.mp hdecrease
  simp only at hdecrease
  split at hdecrease
  next =>
    obtain ⟨raw, hraw, hdecrease⟩ := Option.bind_eq_some_iff.mp hdecrease
    obtain rfl := Option.some.inj hdecrease
    exact h.withRaw (h.rows.shrinkLines hraw)
  next => exact Option.some.inj hdecrease ▸ h

theorem Every.clearHistory (hclear : grid.clearHistory = some after) : after.Every p q := by
  obtain ⟨history, -, hclear⟩ := Option.bind_eq_some_iff.mp hclear
  obtain ⟨raw, hraw, hclear⟩ := Option.bind_eq_some_iff.mp hclear
  obtain rfl := Option.some.inj hclear
  exact h.withRaw (h.rows.shrinkLines hraw)

end GridStorage

namespace RowInvariant

variable {p : Nat → Row → Prop} {q : Cell → Prop} {grid after : GridStorage} {columns : Nat}

variable (inv : RowInvariant p q)
include inv

theorem initializeRows {s : Storage} (h : s.Every (p columns)) (additionalRows : Nat) :
    (s.initializeRows additionalRows columns).Every (p columns) := by
  have hroom : (s.withRoom additionalRows columns).Every (p columns) := by
    unfold Storage.withRoom
    split
    next =>
      intro row hrow
      cases List.mem_append.mp hrow with
      | inl hold => exact h.rezero row hold
      | inr hnew =>
        rw [List.eq_of_mem_replicate hnew]
        exact inv.new columns
    next => exact h
  exact hroom

theorem growVisibleLines {s after : Storage} (h : s.Every (p columns)) {next : Nat}
    (hgrow : s.growVisibleLines next = some after) : after.Every (p columns) := by
  obtain ⟨growage, -, hgrow⟩ := Option.bind_eq_some_iff.mp hgrow
  obtain ⟨first, hfirst, hgrow⟩ := Option.bind_eq_some_iff.mp hgrow
  obtain rfl := Option.some.inj hgrow
  obtain ⟨raw, -, hfirst⟩ := Option.bind_eq_some_iff.mp hfirst
  rw [inv.length (h first (List.mem_of_getElem? hfirst))]
  exact inv.initializeRows h growage

theorem resetRow {s after : Storage} {index : Nat} {template : Cell}
    (h : s.Every (p columns)) (hreset : GridStorage.resetRow template s index = some after) :
    after.Every (p columns) :=
  h.update (fun _ _ _ hrow hreset => inv.rowReset hrow hreset) hreset

theorem resetRows {template : Cell} {s after : Storage} {indices : List Nat}
    (h : s.Every (p columns)) (hreset : indices.foldlM (GridStorage.resetRow template) s = some after) :
    after.Every (p columns) :=
  foldlM_preserves (P := Storage.Every (p columns)) (fun _ _ _ => inv.resetRow) h hreset

theorem newGrid (rows columns maxScrollLimit : Nat) (isSequential : Bool) :
    (GridStorage.new rows columns maxScrollLimit isSequential).Every p q := by
  refine ⟨?_, inv.template, inv.template⟩
  intro row hrow
  rw [List.eq_of_mem_replicate hrow]
  exact inv.new columns

variable (h : grid.Every p q)
include h

theorem resetLines {start stop : Nat}
    (hreset : grid.resetLines start stop = some after) : after.Every p q := by
  obtain ⟨raw, hraw, hreset⟩ := Option.bind_eq_some_iff.mp hreset
  obtain rfl := Option.some.inj hreset
  apply h.withRaw
  apply foldlM_preserves (P := Storage.Every (p grid.columns)) _ h.rows hraw
  intro s line after hs hline
  obtain ⟨index, -, hline⟩ := Option.bind_eq_some_iff.mp hline
  exact inv.resetRow hs hline


theorem increaseScrollLimit {count : Nat} {raw : Storage}
    (hincrease : grid.increaseScrollLimit count = some raw) : raw.Every (p grid.columns) := by
  obtain ⟨history, -, hincrease⟩ := Option.bind_eq_some_iff.mp hincrease
  obtain ⟨room, -, hincrease⟩ := Option.bind_eq_some_iff.mp hincrease
  obtain rfl := Option.some.inj hincrease
  split
  next => exact inv.initializeRows h.rows _
  next => exact h.rows

theorem scrollDown {region : Region} {distance : Nat}
    (hscroll : grid.scrollDown region distance = some after) : after.Every p q := by
  obtain ⟨height, -, hscroll⟩ := Option.bind_eq_some_iff.mp hscroll
  split at hscroll
  next => exact inv.resetLines h hscroll
  next =>
    split at hscroll
    next =>
      obtain ⟨fixedLines, -, hscroll⟩ := Option.bind_eq_some_iff.mp hscroll
      obtain ⟨raw₁, hswap, hscroll⟩ := Option.bind_eq_some_iff.mp hscroll
      obtain ⟨raw₂, hretract, hscroll⟩ := Option.bind_eq_some_iff.mp hscroll
      obtain ⟨raw₃, hreset, hscroll⟩ := Option.bind_eq_some_iff.mp hscroll
      obtain ⟨raw₄, hback, hscroll⟩ := Option.bind_eq_some_iff.mp hscroll
      obtain rfl := Option.some.inj hscroll
      have h₁ := foldlM_preserves (P := Storage.Every (p grid.columns)) (fun _ _ _ hs hswap => hs.swapFromBottom hswap)
        h.rows hswap
      have h₃ := inv.resetRows (Storage.Every.rotate h₁ hretract) hreset
      exact h.withRaw (foldlM_preserves (P := Storage.Every (p grid.columns))
        (fun _ _ _ hs hswap => hs.swap hswap) h₃ hback)
    next =>
      obtain ⟨raw, hswap, hscroll⟩ := Option.bind_eq_some_iff.mp hscroll
      have hraw := foldlM_preserves (P := Storage.Every (p grid.columns))
        (fun _ _ _ hs hswap => hs.swapLines hswap) h.rows hswap
      exact inv.resetLines (h.withRaw hraw) hscroll

theorem scrollUp {region : Region} {distance : Nat}
    (hscroll : grid.scrollUp region distance = some after) : after.Every p q := by
  obtain ⟨height, -, hscroll⟩ := Option.bind_eq_some_iff.mp hscroll
  split at hscroll
  next => exact inv.resetLines h hscroll
  next =>
    obtain ⟨history, -, hscroll⟩ := Option.bind_eq_some_iff.mp hscroll
    obtain ⟨raw₀, hincrease, hscroll⟩ := Option.bind_eq_some_iff.mp hscroll
    obtain ⟨raw₁, hswap, hscroll⟩ := Option.bind_eq_some_iff.mp hscroll
    obtain ⟨raw₂, hextend, hscroll⟩ := Option.bind_eq_some_iff.mp hscroll
    obtain ⟨first, -, hscroll⟩ := Option.bind_eq_some_iff.mp hscroll
    obtain ⟨raw₃, hreset, hscroll⟩ := Option.bind_eq_some_iff.mp hscroll
    obtain ⟨fixedLines, -, hscroll⟩ := Option.bind_eq_some_iff.mp hscroll
    obtain ⟨raw₄, hback, hscroll⟩ := Option.bind_eq_some_iff.mp hscroll
    obtain ⟨history', -, hscroll⟩ := Option.bind_eq_some_iff.mp hscroll
    obtain rfl := Option.some.inj hscroll
    have h₁ := foldlM_preserves (P := Storage.Every (p grid.columns))
      (fun _ _ _ hs hswap => hs.swap hswap) (inv.increaseScrollLimit h hincrease) hswap
    have h₃ := inv.resetRows (Storage.Every.rotate h₁ hextend) hreset
    have h₄ := foldlM_preserves (P := Storage.Every (p grid.columns)) (fun _ _ _ hs hswap => hs.swapFromBottom hswap) h₃ hback
    exact ⟨h₄, h.template, h.saved⟩

theorem growLines {newLineCount : Nat} (hgrow : grid.growLines newLineCount = some after) :
    after.Every p q := by
  obtain ⟨linesAdded, -, hgrow⟩ := Option.bind_eq_some_iff.mp hgrow
  obtain ⟨raw, hraw, hgrow⟩ := Option.bind_eq_some_iff.mp hgrow
  obtain ⟨history, -, hgrow⟩ := Option.bind_eq_some_iff.mp hgrow
  have hgrown : { grid with raw, rows := newLineCount }.Every p q :=
    ⟨inv.growVisibleLines h.rows hraw, h.template, h.saved⟩
  simp only at hgrow
  split at hgrow
  next =>
    obtain ⟨scrolled, hscrolled, hgrow⟩ := Option.bind_eq_some_iff.mp hgrow
    have hscrolled' := inv.scrollUp hgrown hscrolled
    apply GridStorage.Every.decreaseScrollLimit _ hgrow
    exact ⟨hscrolled'.rows, hscrolled'.template, hscrolled'.saved⟩
  next =>
    obtain ⟨same, hsame, hgrow⟩ := Option.bind_eq_some_iff.mp hgrow
    obtain rfl := Option.some.inj hsame
    apply GridStorage.Every.decreaseScrollLimit _ hgrow
    exact ⟨hgrown.rows, hgrown.template, hgrown.saved⟩

theorem scrollIntoView {target lastRow : Nat}
    (hscroll : grid.scrollIntoView target lastRow = some after) : after.Every p q := by
  simp only [GridStorage.scrollIntoView] at hscroll
  split at hscroll
  next =>
    obtain ⟨scrolled, hscrolled, rfl⟩ := Option.map_eq_some_iff.mp hscroll
    have hevery := inv.scrollUp h hscrolled
    exact ⟨hevery.rows, hevery.template, hevery.saved⟩
  next => exact Option.some.inj hscroll ▸ h

theorem shrinkLines {target : Nat} (hshrink : grid.shrinkLines target = some after) : after.Every p q := by
  obtain ⟨lastRow, -, hshrink⟩ := Option.bind_eq_some_iff.mp hshrink
  obtain ⟨scrolled, hscrolled, hshrink⟩ := Option.bind_eq_some_iff.mp hshrink
  obtain ⟨shrinkage, -, hshrink⟩ := Option.bind_eq_some_iff.mp hshrink
  obtain ⟨rotated, hrotate, hshrink⟩ := Option.bind_eq_some_iff.mp hshrink
  obtain ⟨raw, hraw, hshrink⟩ := Option.bind_eq_some_iff.mp hshrink
  obtain rfl := Option.some.inj hshrink
  have hevery := inv.scrollIntoView h hscrolled
  have hrows := (hevery.rows.rotate hrotate).shrinkVisibleLines hraw
  exact ⟨hrows, hevery.template, hevery.saved⟩

theorem changeLines {lines : Nat} (hchange : grid.changeLines lines = some after) : after.Every p q := by
  unfold GridStorage.changeLines at hchange
  split at hchange
  next => exact inv.growLines h hchange
  next => exact inv.shrinkLines h hchange
  next => exact Option.some.inj hchange ▸ h

theorem clearAndResetSavingCursorLine
    (hclear : grid.clearAndResetSavingCursorLine = some after) : after.Every p q := by
  obtain ⟨cleared, hcleared, hclear⟩ := Option.bind_eq_some_iff.mp hclear
  obtain ⟨swapped, hswap, hclear⟩ := Option.bind_eq_some_iff.mp hclear
  obtain ⟨raw, hreset, hclear⟩ := Option.bind_eq_some_iff.mp hclear
  obtain rfl := Option.some.inj hclear
  have hevery := h.clearHistory hcleared
  exact ⟨inv.resetRows (hevery.rows.swapLines hswap) hreset, hevery.template, hevery.saved⟩

theorem reset (hreset : grid.reset = some after) : after.Every p q := by
  obtain ⟨cleared, hcleared, hreset⟩ := Option.bind_eq_some_iff.mp hreset
  obtain ⟨raw, hraw, hreset⟩ := Option.bind_eq_some_iff.mp hreset
  obtain rfl := Option.some.inj hreset
  have hevery := h.clearHistory hcleared
  exact ⟨inv.resetRows hevery.rows hraw, inv.template, inv.template⟩

theorem growCols
    (hrows : ∀ row ∈ grid.raw.truncateUnusedRows.inner, p grid.columns row → p columns (row.grow columns))
    (hgrow : grid.growCols columns = some after) : after.Every p q := by
  simp only [GridStorage.growCols, Option.bind_eq_bind, Option.bind_eq_some_iff] at hgrow
  obtain ⟨raw, hraw, lastRow, -, hgrow⟩ := hgrow
  split at hgrow
  next =>
    obtain rfl := Option.some.inj hgrow
    refine ⟨h.rows.replaceRows ?_ hraw, h.template, h.saved⟩
    intro rows rows' heq hevery hgrown row hrow
    obtain rfl := Option.some.inj hgrown
    obtain ⟨row', hrow', rfl⟩ := List.mem_map.mp hrow
    cases List.mem_append.mp hrow' with
    | inl hmissing =>
      rw [List.eq_of_mem_replicate hmissing, Row.grow_new]
      exact inv.new columns
    | inr hold => exact hrows row' (heq ▸ hold) (hevery row' hold)
  next => cases hgrow

theorem shrinkCols (hlt : columns < grid.columns)
    (hshrink : grid.shrinkCols columns = some after) : after.Every p q := by
  obtain ⟨raw, hraw, hshrink⟩ := Option.bind_eq_some_iff.mp hshrink
  obtain ⟨lastCol, -, hshrink⟩ := Option.bind_eq_some_iff.mp hshrink
  obtain rfl := Option.some.inj hshrink
  refine ⟨h.rows.replaceRows ?_ hraw, h.template, h.saved⟩
  intro rows rows' _ hevery hshrunk row hrow
  obtain ⟨all, hall, hshrunk⟩ := Option.bind_eq_some_iff.mp hshrunk
  obtain rfl := Option.some.inj hshrunk
  have hmem := List.mem_of_mem_take hrow
  obtain ⟨row', hrow', hshrunk⟩ := exists_of_mem_mapM hall hmem
  exact inv.rowShrink (hevery row' hrow') hlt hshrunk

theorem changeCols
    (hrows : grid.columns < columns → ∀ row ∈ grid.raw.truncateUnusedRows.inner, p grid.columns row →
      p columns (row.grow columns))
    (hchange : grid.changeCols columns = some after) : after.Every p q := by
  unfold GridStorage.changeCols at hchange
  split at hchange
  next hlt => exact inv.growCols h (hrows (Nat.compare_eq_lt.mp hlt)) hchange
  next hgt => exact inv.shrinkCols h (Nat.compare_eq_gt.mp hgt) hchange
  next => exact Option.some.inj hchange ▸ h

theorem resize {lines : Nat} {finished : Bool}
    (hrows : lines ≠ 0 → grid.columns < columns → ∀ row ∈ grid.raw.truncateUnusedRows.inner, p grid.columns row →
      p columns (row.grow columns))
    (hresize : grid.resize lines columns finished = some after) : after.Every p q := by
  unfold GridStorage.resize at hresize
  split at hresize
  next => exact Option.some.inj hresize ▸ h
  next hlines' =>
    obtain ⟨resized, hcols, hresize⟩ := Option.bind_eq_some_iff.mp hresize
    obtain ⟨resized', hlines, hresize⟩ := Option.bind_eq_some_iff.mp hresize
    obtain rfl := Option.some.inj hresize
    have hplain : (grid.withTemplate {}).Every p q := ⟨h.rows, inv.template, h.saved⟩
    have hevery := inv.changeLines (inv.changeCols hplain (hrows hlines') hcols) hlines
    exact ⟨hevery.rows, h.template, hevery.saved⟩

end RowInvariant

end InfiniShell.Terminal
