import InfiniShell.Scrollback.GraphemeMoves
import InfiniShell.Scrollback.CellTypes
import InfiniShell.Terminal.WideCells

namespace InfiniShell.Scrollback

open Collections Terminal

/-- Wide characters have their second cells, and a leading spacer is at the end of a row only. -/
structure PairedRow (columns : Nat) (cells : List Cell) : Prop where
  length : cells.length = columns
  paired : PairedCells cells
  leading : ∀ i cell, cells[i]? = some cell → cell.flags.leadingWideCharSpacer = true →
    0 < i ∧ i + 1 = columns ∧ cell.Narrow

namespace GridRows

/-- All rows are there, paired, and the scrollback tells the types of their cells. -/
structure PairedGrid (g : GridRows) : Prop where
  rows : ∀ r < g.totalRows, ∃ row, g.row r = some row ∧ PairedRow g.columns row.inner
  scrollback : ∀ r < g.flatStorage.totalRows, ∀ col < g.columns,
    g.flatStorage.cellType r col = (g.cell ⟨r, col⟩).map CellType.ofCell

variable {g : GridRows} {k : Nat}

theorem PairedGrid.cellType (h : g.PairedGrid) {p : Point} (hrow : p.row < g.totalRows) (hcol : p.col < g.columns) :
    g.cellType p = (g.cell p).map CellType.ofCell := by
  have hstorage : g.storageRow p.row = if p.row ≥ g.flatStorage.totalRows
      then some (.gridStorage (p.row - g.flatStorage.totalRows)) else some (.flatStorage p.row) := by
    rw [storageRow, if_neg (Nat.not_le.mpr hrow)]
  rw [GridRows.cellType, hstorage]
  by_cases hvisible : p.row ≥ g.flatStorage.totalRows
  · rw [cell, row, hstorage, if_pos hvisible]
    change ((g.grid.get _).bind fun row => row.inner[p.col]?.map CellType.ofCell) =
      Option.map _ ((g.grid.get _).bind fun row => row.inner[p.col]?)
    cases g.grid.get (p.row - g.flatStorage.totalRows) <;> rfl
  · rw [if_neg hvisible]
    exact h.scrollback p.row (Nat.not_le.mp hvisible) p.col hcol

structure CellAt (g : GridRows) (k : Nat) (cell : Cell) : Prop where
  shown : g.cell (cellPoint g.columns k) = some cell
  type : g.cellType (cellPoint g.columns k) = some (CellType.ofCell cell)
  first : k % g.columns = 0 → g.spacerAt k = false
  plain : cell.flags.wideCharSpacer = false → cell.flags.leadingWideCharSpacer = false → g.spacerAt k = false
  spacer : cell.flags.wideCharSpacer = true →
    CellType.ofCell cell = .wideCharSpacer ∧ 0 < k % g.columns ∧ g.spacerAt (k - 1) = false
  leading : cell.flags.leadingWideCharSpacer = true →
    CellType.ofCell cell = .leadingWideCharSpacer ∧ k % g.columns + 1 = g.columns

theorem spacerAt_eq {type : CellType} (h : g.cellType (cellPoint g.columns k) = some type) :
    g.spacerAt k = (decide (type = .wideCharSpacer) || decide (type = .leadingWideCharSpacer)) := by
  rw [spacerAt, h]
  cases type <;> rfl

variable {cell : Cell}

theorem ofCell_plain (hspacer : cell.flags.wideCharSpacer = false)
    (hleading : cell.flags.leadingWideCharSpacer = false) :
    CellType.ofCell cell = .regularChar ∨ CellType.ofCell cell = .wideChar := by
  rw [CellType.ofCell, hspacer, hleading]
  cases cell.flags.wideChar
  · exact .inl rfl
  · exact .inr rfl

theorem PairedGrid.row_cell (h : g.PairedGrid) (hrow : k / g.columns < g.totalRows) (hpos : 0 < g.columns) :
    ∃ row cell, PairedRow g.columns row.inner ∧ row.inner[k % g.columns]? = some cell ∧
      g.row (k / g.columns) = some row ∧ g.cell (cellPoint g.columns k) = some cell ∧
      g.cellType (cellPoint g.columns k) = some (CellType.ofCell cell) := by
  obtain ⟨row, hget, hpaired⟩ := h.rows _ hrow
  have hcol := Nat.mod_lt k hpos
  have hlt : k % g.columns < row.inner.length := by rwa [hpaired.length]
  have hshown : g.cell (cellPoint g.columns k) = some row.inner[k % g.columns] := by
    rw [GridRows.cell, cellPoint]
    simp only [hget, Option.bind_some, List.getElem?_eq_getElem hlt]
  refine ⟨row, row.inner[k % g.columns], hpaired, List.getElem?_eq_getElem hlt, hget, hshown, ?_⟩
  rw [h.cellType hrow hcol, hshown, Option.map_some]

theorem wide_of_opens (hwide : cell.flags.wideChar = true) : CellType.ofCell cell = .wideChar := by
  simp [CellType.ofCell, hwide]

theorem PairedGrid.spacerAt_before (h : g.PairedGrid) (hrow : k / g.columns < g.totalRows) (hpos : 0 < g.columns)
    {row : Row} (hget : g.row (k / g.columns) = some row) (hpaired : PairedRow g.columns row.inner)
    (hcell : row.inner[k % g.columns]? = some cell) (hspacer : cell.flags.wideCharSpacer = true)
    (hcolumn : 0 < k % g.columns) : g.spacerAt (k - 1) = false := by
  have hk : k ≠ 0 := by
    rintro rfl
    rw [Nat.zero_mod] at hcolumn
    exact Nat.lt_irrefl 0 hcolumn
  obtain ⟨j, rfl⟩ := Nat.exists_eq_succ_of_ne_zero hk
  rw [Nat.succ_eq_add_one] at *
  obtain ⟨-, hsame, hnext⟩ | ⟨-, -, hzero⟩ := succ_div_mod hpos j
  · rw [hsame] at hrow hget
    rw [hnext] at hcell
    obtain ⟨row', cell', -, hcell', hget', -, htype⟩ := h.row_cell hrow hpos
    obtain rfl := Option.some.inj (hget.symm.trans hget')
    obtain ⟨opener, hopener, hopens⟩ := (hpaired.paired.opens_iff _).mpr ⟨cell, hcell, hspacer⟩
    obtain rfl := Option.some.inj (hopener.symm.trans hcell')
    rw [Nat.add_sub_cancel, spacerAt_eq htype, wide_of_opens hopens]
    rfl
  · rw [hzero] at hcolumn
    exact absurd hcolumn (Nat.lt_irrefl 0)

theorem PairedGrid.cellAt (h : g.PairedGrid) (hrow : k / g.columns < g.totalRows) (hpos : 0 < g.columns) :
    ∃ cell, g.CellAt k cell := by
  obtain ⟨row, cell, hpaired, hcell, hget, hshown, htype⟩ := h.row_cell hrow hpos
  have hplain : cell.flags.wideCharSpacer = false → cell.flags.leadingWideCharSpacer = false →
      g.spacerAt k = false := by
    intro hspacer hleading
    rw [spacerAt_eq htype]
    cases ofCell_plain hspacer hleading with
    | inl hregular => rw [hregular]; rfl
    | inr hwide => rw [hwide]; rfl
  have hnarrow := hpaired.leading _ cell hcell
  have hopen := hpaired.paired.not_both (List.mem_of_getElem? hcell)
  rw [Terminal.Cell.isWide, Terminal.Cell.isSpacer] at hopen
  refine ⟨cell, hshown, htype, ?_, hplain, ?_, ?_⟩
  · intro hfirst
    rw [hfirst] at hcell hnarrow
    apply hplain (hpaired.paired.getElem_zero hcell)
    apply Bool.eq_false_iff.mpr
    intro hleading
    exact absurd (hnarrow hleading).1 (Nat.lt_irrefl 0)
  · intro hspacer
    have hnowide : cell.flags.wideChar = false := by
      apply Bool.eq_false_iff.mpr
      intro hwide
      rw [hopen hwide] at hspacer
      cases hspacer
    have hcolumn : 0 < k % g.columns := by
      apply Nat.pos_of_ne_zero
      intro hzero
      rw [hzero] at hcell
      have hclosed : cell.flags.wideCharSpacer = false := hpaired.paired.getElem_zero hcell
      rw [hclosed] at hspacer
      cases hspacer
    refine ⟨by simp [CellType.ofCell, hspacer, hnowide], hcolumn, ?_⟩
    exact h.spacerAt_before hrow hpos hget hpaired hcell hspacer hcolumn
  · intro hleading
    obtain ⟨-, hlast, hnowide, hnospacer⟩ := hnarrow hleading
    rw [Terminal.Cell.isWide] at hnowide
    rw [Terminal.Cell.isSpacer] at hnospacer
    exact ⟨by simp [CellType.ofCell, hleading, hnowide, hnospacer], hlast⟩

end GridRows

namespace GraphemeCursor

open GridRows

variable {g : GridRows} {wrap : Wrap} {first last k : Nat} {c : GraphemeCursor} {state : CursorState}

structure Placed (c : GraphemeCursor) (g : GridRows) (wrap : Wrap) (first last k : Nat) (state : CursorState) : Prop
    extends StandsAt c g wrap k where
  inRows : InRows g.columns first last k
  fresh : c.cachedRow = g.row (k / g.columns)
  state : c.cursorState = state

theorem Placed.currentItem {cell : Cell} (h : c.Placed g wrap first last k .valid)
    (hcell : g.cell (cellPoint g.columns k) = some cell) :
    c.currentItem = some (some ⟨cell, cellPoint g.columns k⟩) := by
  rw [GraphemeCursor.currentItem, h.state, h.fresh, h.cur]
  rw [GridRows.cell] at hcell
  obtain ⟨row, hrow, hget⟩ := Option.bind_eq_some_iff.mp hcell
  change g.row (k / g.columns) = some row at hrow
  simp only [hrow, Option.bind_eq_bind, Option.bind_some, hget]

theorem Placed.currentItem_exhausted {direction : CursorDirection}
    (h : c.Placed g wrap first last k (.exhausted direction)) : c.currentItem = some none := by
  rw [GraphemeCursor.currentItem, h.state]

def Way.go (way : Way g wrap first last) (c : GraphemeCursor) : GraphemeCursor :=
  within way.move (c.grid.totalRows * c.grid.columns + 1) c

section

variable (way : Way g wrap first last)
include way

theorem Way.go_valid (h : c.Placed g wrap first last k .valid) :
    (∃ k', way.unseen k = k' :: way.unseen k' ∧ g.spacerAt k' = false ∧
        (way.go c).Placed g wrap first last k' .valid) ∨
      ∃ k', way.unseen k = [] ∧ way.next k' = none ∧ (k' = k ∨ g.spacerAt k' = true) ∧
        (way.go c).Placed g wrap first last k' (.exhausted way.direction) := by
  have hfuel : way.distance k < c.grid.totalRows * c.grid.columns + 1 := by
    rw [h.grid]
    exact Nat.lt_succ_of_le (way.distance_le h.inRows)
  obtain ⟨hreaches, hkeeps⟩ := way.within_reaches h.toStandsAt h.state h.inRows hfuel
  have hfresh : ∀ k', (way.go c).StandsAt g wrap k' → (way.go c).cachedRow = g.row (k' / g.columns) := by
    intro k' hstands
    cases hkeeps with
    | inl hrow =>
      rw [Way.go, hrow, ← Way.go, hstands.grid, hstands.cur]
      rfl
    | inr hsame =>
      have hrows : k' / g.columns = k / g.columns := by
        have heq := hsame.2
        rw [← Way.go, hstands.cur, h.cur] at heq
        exact heq
      rw [Way.go, hsame.1, h.fresh, hrows]
  cases hreaches with
  | grapheme k' hstate stands inRows plain unseen =>
    exact .inl ⟨k', unseen, plain, ⟨stands, inRows, hfresh k' stands, hstate⟩⟩
  | finish k' hstate stands inRows hlast spacer unseen =>
    exact .inr ⟨k', unseen, hlast, spacer, ⟨stands, inRows, hfresh k' stands, hstate⟩⟩

theorem Way.go_exhausted (h : c.Placed g wrap first last k (.exhausted way.direction)) : way.go c = c := by
  rw [Way.go, within, way.stays h.state]

theorem Way.go_back (h : c.Placed g wrap first last k (.exhausted way.direction.opposite)) :
    (way.go c).Placed g wrap first last k .valid := by
  rw [Way.go, within, way.turns h.state]
  exact ⟨⟨h.grid, h.wrap, h.cur⟩, h.inRows, h.fresh, rfl⟩

variable (h : c.Placed g wrap first last k .valid)
include h

theorem Way.go_next {k' : Nat} (hnext : way.next k = some k') (hplain : g.spacerAt k' = false) :
    (way.go c).Placed g wrap first last k' .valid := by
  have hunseen := way.unseen_next hnext
  rw [hplain, if_neg Bool.false_ne_true] at hunseen
  obtain ⟨other, hother, -, hplaced⟩ | ⟨-, hnone, -⟩ := way.go_valid h
  · rw [hunseen] at hother
    obtain rfl := (List.cons.inj hother).1
    exact hplaced
  · rw [hunseen] at hnone
    cases hnone

theorem Way.go_last
    (hnext : way.next k = none) : (way.go c).Placed g wrap first last k (.exhausted way.direction) := by
  rw [Way.go, within, way.stops h.inRows h.toStandsAt h.state hnext]
  exact ⟨⟨h.grid, h.wrap, h.cur⟩, h.inRows, h.fresh, rfl⟩

theorem Way.iterate (hplain : g.spacerAt k = false) (n : Nat) :
    (∃ k', (k :: way.unseen k)[n]? = some k' ∧ g.spacerAt k' = false ∧
        (way.go^[n] c).Placed g wrap first last k' .valid) ∨
      (k :: way.unseen k)[n]? = none ∧ ∃ k', way.next k' = none ∧
        (way.go^[n] c).Placed g wrap first last k' (.exhausted way.direction) := by
  induction n generalizing c k with
  | zero => exact .inl ⟨k, rfl, hplain, h⟩
  | succ n ih =>
    rw [Function.iterate_succ_apply, List.getElem?_cons_succ]
    obtain ⟨k', hunseen, hplain', hplaced⟩ | ⟨k', hunseen, hlast, -, hplaced⟩ := way.go_valid h
    · rw [hunseen]
      exact ih hplaced hplain'
    · have hfixed : way.go^[n] (way.go c) = way.go c := Function.iterate_fixed (way.go_exhausted hplaced) n
      rw [hunseen, hfixed]
      exact .inr ⟨rfl, k', hlast, hplaced⟩

end

theorem Way.returns (way back : Way g wrap first last) (hback : way.direction = back.direction.opposite)
    (hc : c.Placed g wrap first last k .valid) (hplain : g.spacerAt k = false) {n : Nat}
    (hn : (k :: way.unseen k).length ≤ n) :
    ∃ k', InRows g.columns first last k' ∧ way.next k' = none ∧
      (back.go (way.go^[n] c)).Placed g wrap first last k' .valid := by
  obtain ⟨k', hget, -⟩ | ⟨-, k', hend, hplaced⟩ := way.iterate hc hplain n
  · rw [List.getElem?_eq_none hn] at hget
    cases hget
  · rw [hback] at hplaced
    exact ⟨k', hplaced.inRows, hend, back.go_back hplaced⟩

def goBy (c : GraphemeCursor) : CursorDirection → GraphemeCursor
  | .left => c.moveBackward
  | .right => c.moveForward

def run (c : GraphemeCursor) (moves : List CursorDirection) : GraphemeCursor := moves.foldl goBy c

end GraphemeCursor

namespace GridRows

def InBounds (g : GridRows) (p : Point) : Prop := p.row < g.totalRows ∧ p.col < g.columns

instance (g : GridRows) (p : Point) : Decidable (g.InBounds p) := inferInstanceAs (Decidable (_ ∧ _))

def scopeStart (g : GridRows) (wrap : Wrap) (p : Point) : Nat := g.firstRowOf wrap p * g.columns

def scopeStop (g : GridRows) (wrap : Wrap) (p : Point) : Nat := (g.lastRowOf wrap p + 1) * g.columns

/-- The cell of the grapheme at the point: of the second cell of a wide character the first, and of a leading spacer
the cell behind it. -/
def graphemeCell (g : GridRows) (wrap : Wrap) (p : Point) : Nat :=
  let k := p.row * g.columns + p.col
  match g.cellType p with
  | some .wideCharSpacer => k - 1
  | some .leadingWideCharSpacer => if k + 1 < g.scopeStop wrap p then k + 1 else k
  | _ => k

def graphemesFrom (g : GridRows) (wrap : Wrap) (p : Point) : List Point :=
  if g.InBounds p then (g.graphemesIn (g.graphemeCell wrap p) (g.scopeStop wrap p)).map (cellPoint g.columns) else []

def graphemesTo (g : GridRows) (wrap : Wrap) (p : Point) : List Point :=
  if g.InBounds p then (g.graphemesIn (g.scopeStart wrap p) (g.graphemeCell wrap p + 1)).map (cellPoint g.columns)
  else []

def itemAt (g : GridRows) (p : Point) : Option GraphemeCursorItem := (g.cell p).map fun cell => ⟨cell, p⟩

open GraphemeCursor

/-- A cursor from the point visits every grapheme once. -/
structure VisitsEach (g : GridRows) (wrap : Wrap) (p : Point) : Prop where
  forward : ∀ n, (moveForward^[n] (new p g wrap)).currentItem = some ((g.graphemesFrom wrap p)[n]?.bind g.itemAt)
  backward : ∀ n, (moveBackward^[n] (new p g wrap)).currentItem =
    some ((g.graphemesTo wrap p).reverse[n]?.bind g.itemAt)
  returnsLast : ∀ n, (g.graphemesFrom wrap p).length ≤ n →
    (moveForward^[n] (new p g wrap)).moveBackward.currentItem = some ((g.graphemesFrom wrap p).getLast?.bind g.itemAt)
  returnsFirst : ∀ n, (g.graphemesTo wrap p).length ≤ n →
    (moveBackward^[n] (new p g wrap)).moveForward.currentItem = some ((g.graphemesTo wrap p).head?.bind g.itemAt)
  shows : ∀ moves, ∃ item, ((new p g wrap).run moves).currentItem = some item ∧ ∀ shown ∈ item,
    g.cell shown.point = some shown.cell ∧ CellType.ofCell shown.cell ≠ .wideCharSpacer ∧
      CellType.ofCell shown.cell ≠ .leadingWideCharSpacer

variable {g : GridRows} {wrap : Wrap} {p : Point}

theorem InBounds.inRows (hp : g.InBounds p) : InRows g.columns (g.firstRowOf wrap p) (g.lastRowOf wrap p)
    (p.row * g.columns + p.col) := by
  obtain ⟨-, hfirst, hlast⟩ := g.scope wrap hp.1
  have hcol := hp.2
  have hstart := Nat.mul_le_mul_right g.columns hfirst
  have hstop := Nat.mul_le_mul_right g.columns (Nat.add_le_add_right hlast 1)
  rw [Nat.add_one_mul] at hstop
  exact ⟨by omega, by omega⟩

variable (wrap) in
theorem PairedGrid.new_placed (h : g.PairedGrid) (hp : g.InBounds p) :
    (new p g wrap).Placed g wrap (g.firstRowOf wrap p) (g.lastRowOf wrap p) (g.graphemeCell wrap p) .valid ∧
        g.spacerAt (g.graphemeCell wrap p) = false ∨
      (new p g wrap).Placed g wrap (g.firstRowOf wrap p) (g.lastRowOf wrap p) (g.graphemeCell wrap p)
          (.exhausted .right) ∧ g.graphemeCell wrap p + 1 = g.scopeStop wrap p ∧
        g.spacerAt (g.graphemeCell wrap p) = true := by
  obtain ⟨hscope, hfirst, hlast⟩ := g.scope wrap hp.1
  have hin : InRows g.columns (g.firstRowOf wrap p) (g.lastRowOf wrap p) (p.row * g.columns + p.col) := hp.inRows
  have hpoint := cellPoint_of hp.2
  have hpos := hin.columns_pos
  have hrow : (p.row * g.columns + p.col) / g.columns = p.row := congrArg Point.row hpoint
  have hcol : (p.row * g.columns + p.col) % g.columns = p.col := congrArg Point.col hpoint
  obtain ⟨cell, hcell⟩ := h.cellAt (k := p.row * g.columns + p.col) (by rw [hrow]; exact hp.1) hpos
  have hshown := hcell.shown
  have htype := hcell.type
  rw [hpoint] at hshown htype
  have hbase : Placed ⟨g, p, .valid, wrap, p.row, g.row p.row⟩ g wrap (g.firstRowOf wrap p) (g.lastRowOf wrap p)
      (p.row * g.columns + p.col) .valid := by
    refine ⟨⟨rfl, rfl, hpoint.symm⟩, hin, ?_, rfl⟩
    rw [hrow]
  rw [new, graphemeCell]
  simp only [hshown, htype]
  cases hspacer : cell.flags.wideCharSpacer with
  | true =>
    obtain ⟨hof, hinside, hbefore⟩ := hcell.spacer hspacer
    left
    simp only [hof, if_true]
    refine ⟨?_, hbefore⟩
    apply (backwardWay hscope).go_next hbase _ hbefore
    apply if_pos
    have hstart := Nat.mul_le_mul_right g.columns hfirst
    omega
  | false =>
    cases hleading : cell.flags.leadingWideCharSpacer with
    | true =>
      obtain ⟨hof, hend⟩ := hcell.leading hleading
      simp only [hof, Bool.false_eq_true, if_false, if_true]
      by_cases hlt : p.row * g.columns + p.col + 1 < g.scopeStop wrap p
      · left
        rw [if_pos hlt]
        have hnext : g.spacerAt (p.row * g.columns + p.col + 1) = false := by
          have hrow' := (InRows.row ⟨Nat.le_succ_of_le hin.start, hlt⟩).2
          obtain ⟨cell', hcell'⟩ := h.cellAt (Nat.lt_of_le_of_lt hrow' hscope.lt) hpos
          apply hcell'.first
          obtain ⟨hinside, -, -⟩ | ⟨-, -, hzero⟩ := succ_div_mod hpos (p.row * g.columns + p.col)
          · omega
          · exact hzero
        exact ⟨(forwardWay hscope).go_next hbase (if_pos hlt) hnext, hnext⟩
      · right
        rw [if_neg hlt]
        have hstop := hin.stop
        change p.row * g.columns + p.col < g.scopeStop wrap p at hstop
        refine ⟨(forwardWay hscope).go_last hbase (if_neg hlt), by omega, ?_⟩
        rw [spacerAt_eq hcell.type, hof]
        rfl
    | false =>
      left
      have hplain := hcell.plain hspacer hleading
      simp only [Bool.false_eq_true, if_false]
      cases ofCell_plain hspacer hleading with
      | inl hregular =>
        rw [hregular]
        exact ⟨hbase, hplain⟩
      | inr hwide =>
        rw [hwide]
        exact ⟨hbase, hplain⟩

variable {first last k : Nat}

theorem PairedGrid.cellIn (h : g.PairedGrid) (hscope : g.Scope wrap first last)
    (hin : InRows g.columns first last k) : ∃ cell, g.CellAt k cell :=
  h.cellAt (Nat.lt_of_le_of_lt hin.row.2 hscope.lt) hin.columns_pos

variable {c : GraphemeCursor}

theorem PairedGrid.itemIn (h : g.PairedGrid) (hscope : g.Scope wrap first last) (hc : c.Placed g wrap first last k .valid) : c.currentItem = some (g.itemAt (cellPoint g.columns k)) := by
  obtain ⟨cell, hcell⟩ := h.cellIn hscope hc.inRows
  rw [hc.currentItem hcell.shown, itemAt, hcell.shown, Option.map_some]

theorem PairedGrid.items (h : g.PairedGrid) (hscope : g.Scope wrap first last)
    (way : Way g wrap first last) (hc : c.Placed g wrap first last k .valid)
    (hplain : g.spacerAt k = false) (n : Nat) : (way.go^[n] c).currentItem =
      some (((k :: way.unseen k).map (cellPoint g.columns))[n]?.bind g.itemAt) := by
  rw [List.getElem?_map]
  obtain ⟨k', hget, -, hplaced⟩ | ⟨hget, k', -, hplaced⟩ := way.iterate hc hplain n
  · rw [h.itemIn hscope hplaced, hget]
    rfl
  · rw [hplaced.currentItem_exhausted, hget]
    rfl

def Standing (g : GridRows) (wrap : Wrap) (first last : Nat) (c : GraphemeCursor) : Prop :=
  ∃ k state, c.Placed g wrap first last k state ∧ state ≠ .invalid ∧ g.spacerAt k = false

theorem Standing.go (h : g.Standing wrap first last c) (way : Way g wrap first last)
    (hends : ∀ k, InRows g.columns first last k → way.next k = none → g.spacerAt k = false) :
    g.Standing wrap first last (way.go c) := by
  obtain ⟨k, state, hc, hstate, hplain⟩ := h
  cases state with
  | valid =>
    obtain ⟨k', -, hplain', hplaced⟩ | ⟨k', -, hend, -, hplaced⟩ := way.go_valid hc
    · exact ⟨k', .valid, hplaced, nofun, hplain'⟩
    · exact ⟨k', _, hplaced, nofun, hends k' hplaced.inRows hend⟩
  | exhausted direction =>
    have hdirection : direction = way.direction ∨ direction = way.direction.opposite := by
      cases direction <;> cases way.direction <;> decide
    cases hdirection with
    | inl hsame =>
      rw [hsame] at hc
      rw [way.go_exhausted hc]
      exact ⟨k, _, hc, nofun, hplain⟩
    | inr hopposite =>
      rw [hopposite] at hc
      exact ⟨k, .valid, way.go_back hc, nofun, hplain⟩
  | invalid => exact absurd rfl hstate

theorem Standing.shows (h : g.Standing wrap first last c) (hg : g.PairedGrid)
    (hscope : g.Scope wrap first last) : ∃ item, c.currentItem = some item ∧ ∀ shown ∈ item,
      g.cell shown.point = some shown.cell ∧ CellType.ofCell shown.cell ≠ .wideCharSpacer ∧
        CellType.ofCell shown.cell ≠ .leadingWideCharSpacer := by
  obtain ⟨k, state, hc, hstate, hplain⟩ := h
  cases state with
  | valid =>
    obtain ⟨cell, hcell⟩ := hg.cellIn hscope hc.inRows
    refine ⟨_, hc.currentItem hcell.shown, ?_⟩
    intro shown hshown
    obtain rfl := Option.some.inj hshown
    rw [spacerAt_eq hcell.type, Bool.or_eq_false_iff, decide_eq_false_iff_not, decide_eq_false_iff_not] at hplain
    exact ⟨hcell.shown, hplain⟩
  | exhausted direction =>
    refine ⟨none, hc.currentItem_exhausted, ?_⟩
    intro shown hshown
    cases hshown
  | invalid => exact absurd rfl hstate

def EndsInGrapheme (g : GridRows) (wrap : Wrap) (p : Point) : Prop :=
  ∀ cell ∈ g.cell ⟨g.lastRowOf wrap p, g.columns - 1⟩,
    CellType.ofCell cell ≠ .wideCharSpacer ∧ CellType.ofCell cell ≠ .leadingWideCharSpacer

theorem InRows.pred_stop (hin : InRows g.columns first last k) :
    InRows g.columns first last ((last + 1) * g.columns - 1) := by
  have hstart := hin.start
  have hstop := hin.stop
  exact ⟨by omega, by omega⟩

theorem PairedGrid.endsInGrapheme_iff (h : g.PairedGrid) (hp : g.InBounds p) :
    g.EndsInGrapheme wrap p ↔ g.spacerAt (g.scopeStop wrap p - 1) = false := by
  obtain ⟨hscope, -, -⟩ := g.scope wrap hp.1
  have hin : InRows g.columns (g.firstRowOf wrap p) (g.lastRowOf wrap p) (g.scopeStop wrap p - 1) :=
    InRows.pred_stop hp.inRows
  have hpos := hin.columns_pos
  have hstop : g.scopeStop wrap p - 1 = g.lastRowOf wrap p * g.columns + (g.columns - 1) := by
    rw [scopeStop, Nat.add_one_mul]
    omega
  have hpoint : cellPoint g.columns (g.scopeStop wrap p - 1) = ⟨g.lastRowOf wrap p, g.columns - 1⟩ := by
    rw [hstop]
    exact cellPoint_of (p := ⟨g.lastRowOf wrap p, g.columns - 1⟩) (Nat.sub_lt hpos Nat.one_pos)
  obtain ⟨cell, hcell⟩ := h.cellIn hscope hin
  have hshown := hcell.shown
  rw [hpoint] at hshown
  rw [EndsInGrapheme, hshown, spacerAt_eq hcell.type, Bool.or_eq_false_iff, decide_eq_false_iff_not,
    decide_eq_false_iff_not]
  exact ⟨fun hall => hall cell rfl, fun hplain other hother => by rwa [← Option.some.inj hother]⟩

theorem PairedGrid.plain_start (h : g.PairedGrid) (hscope : g.Scope wrap first last)
    (hin : InRows g.columns first last k) (hstart : ¬ first * g.columns < k) : g.spacerAt k = false := by
  obtain ⟨cell, hcell⟩ := h.cellIn hscope hin
  apply hcell.first
  have heq : k = first * g.columns := Nat.le_antisymm (Nat.not_lt.mp hstart) hin.start
  rw [heq, Nat.mul_mod_left]

theorem iterate_invalid (h : c.cursorState = .invalid) (n : Nat) :
    moveForward^[n] c = c ∧ moveBackward^[n] c = c := by
  have hforward : c.moveForward = c := by rw [moveForward, within, forwardBy, h]
  have hbackward : c.moveBackward = c := by rw [moveBackward, within, backwardBy, h]
  exact ⟨Function.iterate_fixed hforward n, Function.iterate_fixed hbackward n⟩

theorem run_invalid (h : c.cursorState = .invalid) (moves : List CursorDirection) : c.run moves = c := by
  induction moves with
  | nil => rfl
  | cons direction moves ih =>
    have hstep : goBy c direction = c := by
      cases direction with
      | left => exact (iterate_invalid h 1).2
      | right => exact (iterate_invalid h 1).1
    rw [run, List.foldl_cons, hstep, ← run, ih]

variable (wrap) in
theorem PairedGrid.new_invalid (h : g.PairedGrid) (hp : ¬ g.InBounds p) :
    (new p g wrap).cursorState = .invalid := by
  have hcell : g.cell p = none := by
    by_cases hrow : p.row < g.totalRows
    · obtain ⟨row, hget, hpaired⟩ := h.rows p.row hrow
      have hcol : row.inner.length ≤ p.col := by
        rw [hpaired.length]
        exact Nat.not_lt.mp fun hcol => hp ⟨hrow, hcol⟩
      rw [cell, hget, Option.bind_some, List.getElem?_eq_none hcol]
    · rw [cell, row, storageRow, if_pos (Nat.not_lt.mp hrow)]
      rfl
  rw [new, hcell]

theorem PairedGrid.visits_nothing (h : g.PairedGrid) (hp : ¬ g.InBounds p) : g.VisitsEach wrap p := by
  have hinvalid := h.new_invalid wrap hp
  have hitem : (new p g wrap).currentItem = some none := by rw [currentItem, hinvalid]
  have hfrom : g.graphemesFrom wrap p = [] := if_neg hp
  have hto : g.graphemesTo wrap p = [] := if_neg hp
  constructor
  · intro n
    rw [(iterate_invalid hinvalid n).1, hitem, hfrom]
    rfl
  · intro n
    rw [(iterate_invalid hinvalid n).2, hitem, hto]
    rfl
  · intro n _
    have hback : (new p g wrap).moveBackward = new p g wrap := (iterate_invalid hinvalid 1).2
    rw [(iterate_invalid hinvalid n).1, hback, hitem, hfrom]
    rfl
  · intro n _
    have hforth : (new p g wrap).moveForward = new p g wrap := (iterate_invalid hinvalid 1).1
    rw [(iterate_invalid hinvalid n).2, hforth, hitem, hto]
    rfl
  · intro moves
    rw [run_invalid hinvalid, hitem]
    refine ⟨none, rfl, ?_⟩
    intro shown hshown
    cases hshown

theorem graphemesFrom_eq (hp : g.InBounds p) (hscope : g.Scope wrap (g.firstRowOf wrap p) (g.lastRowOf wrap p))
    (hin : InRows g.columns (g.firstRowOf wrap p) (g.lastRowOf wrap p) (g.graphemeCell wrap p))
    (hplain : g.spacerAt (g.graphemeCell wrap p) = false) : g.graphemesFrom wrap p =
      (g.graphemeCell wrap p :: (forwardWay hscope).unseen (g.graphemeCell wrap p)).map (cellPoint g.columns) := by
  rw [graphemesFrom, if_pos hp, scopeStop, g.graphemesIn_cons hin.stop, hplain, if_neg Bool.false_ne_true]
  rfl

theorem graphemesTo_eq (hp : g.InBounds p) (hscope : g.Scope wrap (g.firstRowOf wrap p) (g.lastRowOf wrap p))
    (hin : InRows g.columns (g.firstRowOf wrap p) (g.lastRowOf wrap p) (g.graphemeCell wrap p))
    (hplain : g.spacerAt (g.graphemeCell wrap p) = false) : (g.graphemesTo wrap p).reverse =
      (g.graphemeCell wrap p :: (backwardWay hscope).unseen (g.graphemeCell wrap p)).map (cellPoint g.columns) := by
  rw [graphemesTo, if_pos hp, scopeStart, g.graphemesIn_snoc hin.start, hplain, if_neg Bool.false_ne_true,
    ← List.map_reverse, List.reverse_append]
  rfl

theorem graphemesFrom_last (hp : g.InBounds p)
    (hin : InRows g.columns (g.firstRowOf wrap p) (g.lastRowOf wrap p) (g.graphemeCell wrap p))
    (hplain : g.spacerAt (g.scopeStop wrap p - 1) = false) :
    (g.graphemesFrom wrap p).getLast? = some (cellPoint g.columns (g.scopeStop wrap p - 1)) := by
  have hstop := hin.stop
  change g.graphemeCell wrap p < g.scopeStop wrap p at hstop
  have hsnoc := g.graphemesIn_snoc (Nat.le_sub_one_of_lt hstop)
  rw [Nat.sub_add_cancel (by omega), hplain, if_neg Bool.false_ne_true] at hsnoc
  rw [graphemesFrom, if_pos hp, hsnoc, List.map_append, List.map_singleton, List.getLast?_concat]

theorem graphemesTo_first (hp : g.InBounds p)
    (hin : InRows g.columns (g.firstRowOf wrap p) (g.lastRowOf wrap p) (g.graphemeCell wrap p))
    (hplain : g.spacerAt (g.scopeStart wrap p) = false) :
    (g.graphemesTo wrap p).head? = some (cellPoint g.columns (g.scopeStart wrap p)) := by
  have hstart : g.scopeStart wrap p < g.graphemeCell wrap p + 1 := Nat.lt_succ_of_le hin.start
  rw [graphemesTo, if_pos hp, g.graphemesIn_cons hstart, hplain, if_neg Bool.false_ne_true]
  rfl

theorem PairedGrid.visits_each (h : g.PairedGrid) (hp : g.InBounds p)
    (hends : g.spacerAt (g.scopeStop wrap p - 1) = false) : g.VisitsEach wrap p := by
  obtain ⟨hscope, -, -⟩ := g.scope wrap hp.1
  obtain ⟨hnew, hplain⟩ | ⟨-, hlast, hspacer⟩ := h.new_placed wrap hp
  · have hin := hnew.inRows
    have hlast : ∀ k, InRows g.columns (g.firstRowOf wrap p) (g.lastRowOf wrap p) k →
        (forwardWay hscope).next k = none → k = g.scopeStop wrap p - 1 := by
      intro k hk hnext
      have hstop := hk.stop
      have hend := not_of_ite_none hnext
      rw [scopeStop]
      omega
    have hfirst : ∀ k, InRows g.columns (g.firstRowOf wrap p) (g.lastRowOf wrap p) k →
        (backwardWay hscope).next k = none → k = g.scopeStart wrap p := by
      intro k hk hnext
      exact Nat.le_antisymm (Nat.not_lt.mp (not_of_ite_none hnext)) hk.start
    have hstart : g.spacerAt (g.scopeStart wrap p) = false := by
      apply h.plain_start hscope ⟨Nat.le_refl _, Nat.lt_of_le_of_lt hin.start hin.stop⟩
      exact Nat.lt_irrefl _
    constructor
    · intro n
      rw [graphemesFrom_eq hp hscope hin hplain]
      exact h.items hscope (forwardWay hscope) hnew hplain n
    · intro n
      rw [graphemesTo_eq hp hscope hin hplain]
      exact h.items hscope (backwardWay hscope) hnew hplain n
    · intro n hn
      rw [graphemesFrom_eq hp hscope hin hplain, List.length_map] at hn
      obtain ⟨k, hk, hend, hplaced⟩ := (forwardWay hscope).returns (backwardWay hscope) rfl hnew hplain hn
      rw [graphemesFrom_last hp hin hends, Option.bind_some, ← hlast k hk hend]
      exact h.itemIn hscope hplaced
    · intro n hn
      rw [← List.length_reverse, graphemesTo_eq hp hscope hin hplain, List.length_map] at hn
      obtain ⟨k, hk, hend, hplaced⟩ := (backwardWay hscope).returns (forwardWay hscope) rfl hnew hplain hn
      rw [graphemesTo_first hp hin hstart, Option.bind_some, ← hfirst k hk hend]
      exact h.itemIn hscope hplaced
    · intro moves
      have hstanding : g.Standing wrap (g.firstRowOf wrap p) (g.lastRowOf wrap p) ((new p g wrap).run moves) := by
        rw [run]
        apply List.foldlRecOn moves
        · exact ⟨_, .valid, hnew, nofun, hplain⟩
        · intro c hc direction _
          cases direction with
          | left =>
            apply hc.go (backwardWay hscope)
            intro k hk hnext
            rw [hfirst k hk hnext, hstart]
          | right =>
            apply hc.go (forwardWay hscope)
            intro k hk hnext
            rw [hlast k hk hnext, hends]
      exact hstanding.shows h hscope
  · have heq : g.scopeStop wrap p - 1 = g.graphemeCell wrap p := by omega
    rw [heq, hspacer] at hends
    cases hends

theorem run_forward (c : GraphemeCursor) (n : Nat) :
    c.run (List.replicate n .right ++ [.left]) = (moveForward^[n] c).moveBackward := by
  have hforward : ∀ c : GraphemeCursor, c.run (List.replicate n .right) = moveForward^[n] c := by
    induction n with
    | zero => exact fun c => rfl
    | succ n ih =>
      intro c
      rw [List.replicate_succ, run, List.foldl_cons, ← run, ih, Function.iterate_succ_apply]
      rfl
  rw [run, List.foldl_append, ← hforward]
  rfl

variable (wrap) in
theorem PairedGrid.runs_out (h : g.PairedGrid) (hp : g.InBounds p) : ∃ n,
    ((moveForward^[n] (new p g wrap)).moveBackward).Placed g wrap (g.firstRowOf wrap p) (g.lastRowOf wrap p)
      (g.scopeStop wrap p - 1) .valid := by
  obtain ⟨hscope, -, -⟩ := g.scope wrap hp.1
  obtain ⟨hnew, hplain⟩ | ⟨hnew, hlast, -⟩ := h.new_placed wrap hp
  · obtain ⟨k, hk, hend, hplaced⟩ :=
      (forwardWay hscope).returns (backwardWay hscope) rfl hnew hplain (Nat.le_refl _)
    have hstop := hk.stop
    have hnot := not_of_ite_none hend
    have heq : k = g.scopeStop wrap p - 1 := by
      rw [scopeStop]
      omega
    exact ⟨_, heq ▸ hplaced⟩
  · have heq : g.graphemeCell wrap p = g.scopeStop wrap p - 1 := by omega
    exact ⟨0, heq ▸ (backwardWay hscope).go_back hnew⟩

/-- From a point of a paired grid the cursor does its work exactly if the last cell it may come to is no spacer. -/
theorem visits_each_iff (g : GridRows) (wrap : Wrap) (p : Point) (h : g.PairedGrid) :
    g.VisitsEach wrap p ↔ (g.InBounds p → g.EndsInGrapheme wrap p) := by
  constructor
  · intro hvisits hp
    obtain ⟨hscope, -, -⟩ := g.scope wrap hp.1
    rw [h.endsInGrapheme_iff hp]
    obtain ⟨n, hplaced⟩ := h.runs_out wrap hp
    obtain ⟨cell, hcell⟩ := h.cellIn hscope hplaced.inRows
    obtain ⟨item, hitem, hshows⟩ := hvisits.shows (List.replicate n .right ++ [.left])
    rw [run_forward, hplaced.currentItem hcell.shown] at hitem
    have hshown := hshows _ (Option.some.inj hitem).symm
    rw [spacerAt_eq hcell.type, Bool.or_eq_false_iff, decide_eq_false_iff_not, decide_eq_false_iff_not]
    exact hshown.2
  · intro hends
    by_cases hp : g.InBounds p
    · exact h.visits_each hp ((h.endsInGrapheme_iff hp).mp (hends hp))
    · exact h.visits_nothing hp

theorem pairedGrid_of_row {columns : Nat} (cells : List Cell) (hlength : cells.length = columns)
    (hpaired : PairedCells cells) (hleading : ∀ cell ∈ cells, cell.flags.leadingWideCharSpacer = false)
    (hg : g.totalRows = 1 ∧ g.flatStorage.totalRows = 0 ∧ g.columns = columns ∧ (g.row 0).map Row.inner = some cells) :
    g.PairedGrid := by
  obtain ⟨htotal, hflat, hcolumns, hrow⟩ := hg
  constructor
  · intro r hr
    obtain rfl : r = 0 := by omega
    obtain ⟨row, hget, hinner⟩ := Option.map_eq_some_iff.mp hrow
    refine ⟨row, hget, ?_⟩
    rw [hinner, hcolumns]
    refine ⟨hlength, hpaired, ?_⟩
    intro i cell hcell hlead
    rw [hleading cell (List.mem_of_getElem? hcell)] at hlead
    cases hlead
  · intro r hr
    omega

theorem visits_each_iff_wide :
    (showing 3 [] [[wideCell, spacerCell false, plainCell 'a']]).VisitsEach .none ⟨0, 1⟩ := by
  have hgrid : (showing 3 [] [[wideCell, spacerCell false, plainCell 'a']]).PairedGrid := by
    apply pairedGrid_of_row [wideCell, spacerCell false, plainCell 'a'] rfl
    · exact .pair ⟨rfl, rfl⟩ ⟨rfl, rfl⟩ (.plain ⟨rfl, rfl⟩ .nil)
    · decide
    · decide +kernel
  apply (visits_each_iff _ .none ⟨0, 1⟩ hgrid).mpr
  intro _
  rw [EndsInGrapheme]
  decide +kernel

theorem visits_spacer : ¬ ∀ (g : GridRows) (wrap : Wrap) (p : Point), g.PairedGrid → g.VisitsEach wrap p := by
  intro hall
  have hgrid : (showing 2 [] [[wideCell, spacerCell false]]).PairedGrid := by
    apply pairedGrid_of_row [wideCell, spacerCell false] rfl
    · exact .pair ⟨rfl, rfl⟩ ⟨rfl, rfl⟩ .nil
    · decide
    · decide +kernel
  have hitem : ((new ⟨0, 0⟩ (showing 2 [] [[wideCell, spacerCell false]]) .none).run [.right, .left]).currentItem =
      some (some ⟨spacerCell false, ⟨0, 1⟩⟩) := by decide +kernel
  obtain ⟨item, hshown, hplain⟩ := (hall _ .none ⟨0, 0⟩ hgrid).shows [.right, .left]
  rw [hitem] at hshown
  exact (hplain _ (Option.some.inj hshown).symm).2.1 (by decide)

end GridRows

end InfiniShell.Scrollback
