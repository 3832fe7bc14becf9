import InfiniShell.Scrollback.AgnosticPoints

namespace InfiniShell.Scrollback

open Collections Terminal

def CursorDirection.opposite : CursorDirection → CursorDirection
  | .left => .right
  | .right => .left

def cellPoint (columns k : Nat) : Point := ⟨k / columns, k % columns⟩

variable {columns : Nat}

theorem cellPoint_of {p : Point} (h : p.col < columns) :
    cellPoint columns (p.row * columns + p.col) = p := by
  have hpos : 0 < columns := by omega
  rw [cellPoint, Nat.mul_comm, Nat.mul_add_div hpos, Nat.div_eq_of_lt h, Nat.mul_add_mod, Nat.mod_eq_of_lt h,
    Nat.add_zero]

theorem succ_div_mod (hpos : 0 < columns) (k : Nat) :
    k % columns + 1 < columns ∧ (k + 1) / columns = k / columns ∧ (k + 1) % columns = k % columns + 1 ∨
      k % columns + 1 = columns ∧ (k + 1) / columns = k / columns + 1 ∧ (k + 1) % columns = 0 := by
  have hmod := Nat.mod_lt k hpos
  have hdiv := Nat.div_add_mod k columns
  by_cases hlt : k % columns + 1 < columns
  · left
    have heq : k + 1 = columns * (k / columns) + (k % columns + 1) := by omega
    refine ⟨hlt, ?_, ?_⟩
    · rw [heq, Nat.mul_add_div hpos, Nat.div_eq_of_lt hlt, Nat.add_zero]
    · rw [heq, Nat.mul_add_mod, Nat.mod_eq_of_lt hlt]
  · right
    have heq : k + 1 = columns * (k / columns + 1) := by
      rw [Nat.mul_succ]
      omega
    refine ⟨by omega, ?_, ?_⟩
    · rw [heq, Nat.mul_div_cancel_left _ hpos]
    · rw [heq, Nat.mul_mod_right]

theorem wrappingAdd_cellPoint (hpos : 0 < columns) (k : Nat) :
    (cellPoint columns k).wrappingAdd columns 1 = cellPoint columns (k + 1) := by
  rw [Point.wrappingAdd, cellPoint, cellPoint]
  obtain ⟨hlt, hrow, hcol⟩ | ⟨hend, hrow, hcol⟩ := succ_div_mod hpos k
  · rw [hrow, hcol, Nat.add_comm 1, Nat.div_eq_of_lt hlt, Nat.mod_eq_of_lt hlt, Nat.add_zero]
  · rw [hrow, hcol, Nat.add_comm 1, hend, Nat.div_self hpos, Nat.mod_self]

theorem wrappingSub_cellPoint (hpos : 0 < columns) (k : Nat) :
    (cellPoint columns (k + 1)).wrappingSub columns 1 = cellPoint columns k := by
  rw [Point.wrappingSub, cellPoint, cellPoint]
  obtain ⟨hlt, hrow, hcol⟩ | ⟨hend, hrow, hcol⟩ := succ_div_mod hpos k
  · have hzero : (1 + columns - 1 - (k % columns + 1)) / columns = 0 := Nat.div_eq_of_lt (by omega)
    have hone : 1 % columns = 1 := Nat.mod_eq_of_lt (by omega)
    have hsum : columns + (k % columns + 1) - 1 = columns + k % columns := by omega
    rw [hrow, hcol]
    simp only [hzero, hone, hsum, Nat.zero_le, ge_iff_le, if_true, Nat.sub_zero, Nat.add_mod_left, Nat.mod_mod]
  · have hone : (1 + columns - 1 - 0) / columns = 1 := by
      rw [Nat.sub_zero, Nat.add_sub_cancel_left, Nat.div_self hpos]
    have hlast : (columns + 0 - 1 % columns) % columns = k % columns := by
      by_cases hcolumns : columns = 1
      · rw [hcolumns, Nat.mod_one, Nat.mod_one]
      · rw [Nat.mod_eq_of_lt (by omega : 1 < columns), Nat.mod_eq_of_lt (by omega)]
        omega
    rw [hrow, hcol]
    simp only [hone, hlast, ge_iff_le, Nat.le_add_left, if_true, Nat.add_sub_cancel]

namespace GridRows

variable {g : GridRows} {wrap : Wrap} {first last : Nat}

def firstRowOf (g : GridRows) (wrap : Wrap) (point : Point) : Nat :=
  match wrap with
  | .none => point.row
  | .soft => (g.lineSearchLeft point).row
  | .all => 0

def lastRowOf (g : GridRows) (wrap : Wrap) (point : Point) : Nat :=
  match wrap with
  | .none => point.row
  | .soft => min (g.lineSearchRight point).row (g.totalRows - 1)
  | .all => g.totalRows - 1

def Continues (g : GridRows) (wrap : Wrap) (row : Nat) : Prop :=
  match wrap with
  | .none => False
  | .soft => g.rowWraps row = true
  | .all => True

structure Scope (g : GridRows) (wrap : Wrap) (first last : Nat) : Prop where
  le : first ≤ last
  lt : last < g.totalRows
  begins : ∀ row, first = row + 1 → ¬ g.Continues wrap row
  continues : ∀ row, first ≤ row → row < last → g.Continues wrap row
  ends : last + 1 < g.totalRows → ¬ g.Continues wrap last

theorem le_lineEnd (g : GridRows) (fuel row : Nat) : row ≤ g.lineEnd fuel row := by
  induction fuel generalizing row with
  | zero => exact Nat.le_refl _
  | succ fuel ih =>
    rw [lineEnd]
    split
    · exact Nat.le_of_succ_le (ih (row + 1))
    · exact Nat.le_refl _

theorem lineEnd_wraps (g : GridRows) {fuel row between : Nat} (hle : row ≤ between)
    (hlt : between < g.lineEnd fuel row) : g.rowWraps between = true := by
  induction fuel generalizing row with
  | zero => exact absurd hlt (Nat.not_lt.mpr hle)
  | succ fuel ih =>
    rw [lineEnd] at hlt
    by_cases hwraps : g.rowWraps row
    · rw [if_pos hwraps] at hlt
      by_cases heq : between = row
      · rw [heq, hwraps]
      · exact ih (by omega) hlt
    · rw [if_neg hwraps] at hlt
      omega

theorem lineEnd_stops (g : GridRows) {fuel row : Nat} (hlt : g.lineEnd fuel row < row + fuel) :
    g.rowWraps (g.lineEnd fuel row) = false := by
  induction fuel generalizing row with
  | zero => exact absurd hlt (Nat.lt_irrefl row)
  | succ fuel ih =>
    rw [lineEnd] at hlt ⊢
    by_cases hwraps : g.rowWraps row
    · rw [if_pos hwraps] at hlt ⊢
      exact ih (by omega)
    · rw [if_neg hwraps]
      exact Bool.eq_false_iff.mpr hwraps

theorem scope (g : GridRows) (wrap : Wrap) {p : Point} (hrow : p.row < g.totalRows) :
    g.Scope wrap (g.firstRowOf wrap p) (g.lastRowOf wrap p) ∧
      g.firstRowOf wrap p ≤ p.row ∧ p.row ≤ g.lastRowOf wrap p := by
  cases wrap with
  | none =>
    refine ⟨⟨Nat.le_refl _, hrow, ?_, ?_, ?_⟩, Nat.le_refl _, Nat.le_refl _⟩
    · exact fun _ _ hfalse => hfalse
    · intro row hle hlt
      exact absurd hlt (Nat.not_lt.mpr hle)
    · exact fun _ hfalse => hfalse
  | all =>
    refine ⟨⟨Nat.zero_le _, Nat.sub_lt (by omega) Nat.one_pos, ?_, fun _ _ _ => trivial, ?_⟩, Nat.zero_le _,
      Nat.le_sub_one_of_lt hrow⟩
    · intro row hzero
      cases hzero
    · intro hlt
      change g.totalRows - 1 + 1 < g.totalRows at hlt
      omega
  | soft =>
    have hstart : g.lineStart p.row ≤ p.row := g.lineStart_le p.row
    have hend := g.le_lineEnd (g.totalRows - p.row) p.row
    have hlast : p.row ≤ g.lastRowOf .soft p := Nat.le_min.mpr ⟨hend, Nat.le_sub_one_of_lt hrow⟩
    refine ⟨⟨Nat.le_trans hstart hlast, ?_, ?_, ?_, ?_⟩, hstart, hlast⟩
    · exact Nat.lt_of_le_of_lt (Nat.min_le_right _ _) (Nat.sub_lt (by omega) Nat.one_pos)
    · intro row hfirst
      have hwraps : g.rowWraps row = false := g.lineStart_starts p.row row hfirst
      exact Bool.eq_false_iff.mp hwraps
    · intro row hle hlt
      by_cases hbefore : row < p.row
      · exact g.lineStart_wraps hle hbefore
      · exact g.lineEnd_wraps (Nat.not_lt.mp hbefore) (Nat.lt_of_lt_of_le hlt (Nat.min_le_left _ _))
    · intro hlt
      change min (g.lineEnd (g.totalRows - p.row) p.row) (g.totalRows - 1) + 1 < g.totalRows at hlt
      have hinside : g.lineEnd (g.totalRows - p.row) p.row ≤ g.totalRows - 1 := by omega
      have hmin : g.lastRowOf .soft p = g.lineEnd (g.totalRows - p.row) p.row := Nat.min_eq_left hinside
      have hstops : g.rowWraps (g.lineEnd (g.totalRows - p.row) p.row) = false := g.lineEnd_stops (by omega)
      rw [hmin]
      exact Bool.eq_false_iff.mp hstops

end GridRows

namespace GraphemeCursor

open GridRows

variable {g : GridRows} {wrap : Wrap} {first last k : Nat} {c : GraphemeCursor}

structure StandsAt (c : GraphemeCursor) (g : GridRows) (wrap : Wrap) (k : Nat) : Prop where
  grid : c.grid = g
  wrap : c.wrap = wrap
  cur : c.cur = cellPoint g.columns k

structure InRows (columns first last k : Nat) : Prop where
  start : first * columns ≤ k
  stop : k < (last + 1) * columns

variable {columns : Nat}

theorem InRows.columns_pos (h : InRows columns first last k) : 0 < columns := by
  apply Nat.pos_of_ne_zero
  intro hzero
  have hstop := h.stop
  rw [hzero, Nat.mul_zero] at hstop
  exact Nat.not_lt_zero k hstop

theorem InRows.row (h : InRows columns first last k) : first ≤ k / columns ∧ k / columns ≤ last :=
  ⟨(Nat.le_div_iff_mul_le h.columns_pos).mpr h.start,
    Nat.le_of_lt_succ ((Nat.div_lt_iff_lt_mul h.columns_pos).mpr h.stop)⟩

theorem StandsAt.currentPointValid (hc : c.StandsAt g wrap k) (hscope : g.Scope wrap first last)
    (hin : InRows g.columns first last k) : c.currentPointValid = true := by
  have hrow := Nat.lt_of_le_of_lt hin.row.2 hscope.lt
  have hcol := Nat.mod_lt k hin.columns_pos
  rw [GraphemeCursor.currentPointValid, hc.grid, hc.cur]
  simp only [cellPoint, hrow, hcol, decide_true, Bool.and_self]

theorem hasNext_end (c : GraphemeCursor) (hvalid : c.currentPointValid = true) (hend : c.isAtEndOfRow = true) :
    c.hasNext = true ↔ c.cur.row + 1 < c.grid.totalRows ∧ c.grid.Continues c.wrap c.cur.row := by
  rw [GraphemeCursor.hasNext, hvalid, isAtEndOfLine, hend]
  cases hwrap : c.wrap with
  | none => simp [Continues]
  | soft =>
    by_cases hlt : c.cur.row + 1 < c.grid.totalRows
    · have hlast : c.cur.row ≠ c.grid.totalRows - 1 := by omega
      have hbefore : c.cur.row < c.grid.totalRows - 1 := by omega
      simp [Continues, hlt, hlast, hbefore]
    · have hbefore : ¬ c.cur.row < c.grid.totalRows - 1 := by omega
      simp [hlt, hbefore]
  | all =>
    have hlast : c.cur.row < c.grid.totalRows - 1 ↔ c.cur.row + 1 < c.grid.totalRows := by omega
    simp [Continues, hlast]

theorem hasNext_inside (c : GraphemeCursor) (hvalid : c.currentPointValid = true) (hend : c.isAtEndOfRow = false) :
    c.hasNext = true := by
  rw [GraphemeCursor.hasNext, hvalid, isAtEndOfLine, hend]
  simp

theorem hasPrev_start (c : GraphemeCursor) (hvalid : c.currentPointValid = true) (hstart : c.isAtStartOfRow = true) :
    c.hasPrev = true ↔ 0 < c.cur.row ∧ c.grid.Continues c.wrap (c.cur.row - 1) := by
  rw [GraphemeCursor.hasPrev, hvalid, isAtStartOfLine, hstart]
  cases hwrap : c.wrap with
  | none => simp [Continues]
  | soft =>
    by_cases hzero : c.cur.row = 0
    · simp [hzero]
    · have hlt : 0 < c.cur.row := Nat.pos_of_ne_zero hzero
      simp [Continues, hzero, hlt]
  | all => simp [Continues]

theorem hasPrev_inside (c : GraphemeCursor) (hvalid : c.currentPointValid = true) (hstart : c.isAtStartOfRow = false) :
    c.hasPrev = true := by
  rw [GraphemeCursor.hasPrev, hvalid, isAtStartOfLine, hstart]
  simp

theorem StandsAt.hasNext (hc : c.StandsAt g wrap k) (hscope : g.Scope wrap first last)
    (hin : InRows g.columns first last k) : c.hasNext = true ↔ k + 1 < (last + 1) * g.columns := by
  have hpos := hin.columns_pos
  have hrows := hin.row
  have hlt := hscope.lt
  have hvalid := hc.currentPointValid hscope hin
  have hnext : k + 1 < (last + 1) * g.columns ↔ (k + 1) / g.columns < last + 1 := (Nat.div_lt_iff_lt_mul hpos).symm
  obtain ⟨hcol, hrow, -⟩ | ⟨hcol, hrow, -⟩ := succ_div_mod hpos k
  · have hend : c.isAtEndOfRow = false := by
      rw [isAtEndOfRow, hc.grid, hc.cur]
      exact decide_eq_false (by change ¬ k % g.columns = g.columns - 1; omega)
    rw [hnext, hrow]
    exact iff_of_true (c.hasNext_inside hvalid hend) (by omega)
  · have hend : c.isAtEndOfRow = true := by
      rw [isAtEndOfRow, hc.grid, hc.cur]
      exact decide_eq_true (by change k % g.columns = g.columns - 1; omega)
    rw [c.hasNext_end hvalid hend, hc.grid, hc.cur, hc.wrap, hnext, hrow]
    change k / g.columns + 1 < g.totalRows ∧ g.Continues wrap (k / g.columns) ↔ k / g.columns + 1 < last + 1
    constructor
    · rintro ⟨hmore, hcontinues⟩
      apply Nat.succ_lt_succ
      apply Nat.lt_of_le_of_ne hrows.2
      intro heq
      rw [heq] at hmore hcontinues
      exact hscope.ends hmore hcontinues
    · intro hbefore
      exact ⟨by omega, hscope.continues _ hrows.1 (by omega)⟩

theorem StandsAt.hasPrev (hc : c.StandsAt g wrap k) (hscope : g.Scope wrap first last)
    (hin : InRows g.columns first last k) : c.hasPrev = true ↔ first * g.columns < k := by
  have hpos := hin.columns_pos
  have hrows := hin.row
  have hvalid := hc.currentPointValid hscope hin
  have hdiv := Nat.div_add_mod k g.columns
  by_cases hcol : k % g.columns = 0
  · have hstart : c.isAtStartOfRow = true := by
      rw [isAtStartOfRow, hc.cur]
      exact decide_eq_true hcol
    have hprev : first * g.columns < k ↔ first < k / g.columns := by
      have hmul : first * g.columns < k / g.columns * g.columns ↔ first < k / g.columns := Nat.mul_lt_mul_right hpos
      rw [hcol, Nat.add_zero, Nat.mul_comm] at hdiv
      rwa [hdiv] at hmul
    rw [c.hasPrev_start hvalid hstart, hc.grid, hc.cur, hc.wrap, hprev]
    change 0 < k / g.columns ∧ g.Continues wrap (k / g.columns - 1) ↔ first < k / g.columns
    constructor
    · rintro ⟨hmore, hcontinues⟩
      apply Nat.lt_of_le_of_ne hrows.1
      intro heq
      exact hscope.begins (k / g.columns - 1) (by omega) hcontinues
    · intro hbefore
      exact ⟨by omega, hscope.continues _ (by omega) (by omega)⟩
  · have hstart : c.isAtStartOfRow = false := by
      rw [isAtStartOfRow, hc.cur]
      exact decide_eq_false hcol
    have hle : first * g.columns ≤ g.columns * (k / g.columns) := by
      rw [Nat.mul_comm]
      exact Nat.mul_le_mul_left _ hrows.1
    exact iff_of_true (c.hasPrev_inside hvalid hstart) (by omega)

end GraphemeCursor

namespace GridRows

def spacerAt (g : GridRows) (k : Nat) : Bool :=
  match g.cellType (cellPoint g.columns k) with
  | some .wideCharSpacer | some .leadingWideCharSpacer => true
  | _ => false

/-- The cells from one up to another that are no spacers. -/
def graphemesIn (g : GridRows) (start stop : Nat) : List Nat :=
  (List.range' start (stop - start)).filter fun k => !g.spacerAt k

variable {start stop : Nat}

theorem graphemesIn_cons (g : GridRows) (h : start < stop) : g.graphemesIn start stop =
    if g.spacerAt start then g.graphemesIn (start + 1) stop else start :: g.graphemesIn (start + 1) stop := by
  obtain ⟨n, rfl⟩ := Nat.exists_eq_add_of_lt h
  have hlen : start + n + 1 - start = n + 1 := by omega
  have hrest : start + n + 1 - (start + 1) = n := by omega
  rw [graphemesIn, graphemesIn, hlen, hrest, List.range'_succ, List.filter_cons]
  cases g.spacerAt start <;> rfl

theorem graphemesIn_snoc (g : GridRows) (h : start ≤ stop) : g.graphemesIn start (stop + 1) =
    g.graphemesIn start stop ++ if g.spacerAt stop then [] else [stop] := by
  obtain ⟨n, rfl⟩ := Nat.exists_eq_add_of_le h
  have hlen : start + n + 1 - start = n + 1 := by omega
  rw [graphemesIn, graphemesIn, hlen, Nat.add_sub_cancel_left, List.range'_1_concat, List.filter_append]
  cases hspacer : g.spacerAt (start + n) <;> simp [hspacer]

theorem graphemesIn_nil (g : GridRows) (h : stop ≤ start) : g.graphemesIn start stop = [] := by
  rw [graphemesIn, Nat.sub_eq_zero_of_le h]
  rfl

theorem Scope.stop_le {g : GridRows} {wrap : Wrap} {first last : Nat} (h : g.Scope wrap first last) (columns : Nat) :
    (last + 1) * columns ≤ g.totalRows * columns := Nat.mul_le_mul_right columns h.lt

end GridRows

namespace GraphemeCursor

variable {g : GridRows} {wrap : Wrap} {first last k : Nat} {c : GraphemeCursor}

theorem StandsAt.onSpacer (hc : c.StandsAt g wrap k) : c.onSpacer = g.spacerAt k := by
  rw [GraphemeCursor.onSpacer, hc.grid, hc.cur]
  rfl

/-- A direction to go through the rows, with the cells that are then still to come. -/
structure Way (g : GridRows) (wrap : Wrap) (first last : Nat) where
  move : (GraphemeCursor → GraphemeCursor) → GraphemeCursor → GraphemeCursor
  direction : CursorDirection
  next : Nat → Option Nat
  unseen : Nat → List Nat
  distance : Nat → Nat
  moves : ∀ {k k' c again}, InRows g.columns first last k → StandsAt c g wrap k → c.cursorState = .valid →
    next k = some k' → move again c = c.stepTo (cellPoint g.columns k') again
  stops : ∀ {k c again}, InRows g.columns first last k → StandsAt c g wrap k → c.cursorState = .valid →
    next k = none → move again c = { c with cursorState := .exhausted direction }
  stays : ∀ {c again}, c.cursorState = .exhausted direction → move again c = c
  turns : ∀ {c again}, c.cursorState = .exhausted direction.opposite → move again c = { c with cursorState := .valid }
  next_in : ∀ {k k'}, InRows g.columns first last k → next k = some k' → InRows g.columns first last k'
  next_distance : ∀ {k k'}, next k = some k' → distance k' < distance k
  distance_le : ∀ {k}, InRows g.columns first last k → distance k ≤ g.totalRows * g.columns
  unseen_next : ∀ {k k'}, next k = some k' → unseen k = if g.spacerAt k' then unseen k' else k' :: unseen k'
  unseen_end : ∀ {k}, next k = none → unseen k = []

/-- What a move makes of a valid cursor: it goes to the next grapheme, or over spacers to the end. -/
inductive Way.Reaches (way : Way g wrap first last) (k : Nat) (c : GraphemeCursor) : Prop where
  | grapheme (k' : Nat) (state : c.cursorState = .valid) (stands : c.StandsAt g wrap k')
      (inRows : InRows g.columns first last k') (plain : g.spacerAt k' = false)
      (unseen : way.unseen k = k' :: way.unseen k')
  | finish (k' : Nat) (state : c.cursorState = .exhausted way.direction) (stands : c.StandsAt g wrap k')
      (inRows : InRows g.columns first last k') (last : way.next k' = none)
      (spacer : k' = k ∨ g.spacerAt k' = true) (unseen : way.unseen k = [])

def KeepsRow (before after : GraphemeCursor) : Prop :=
  after.cachedRow = after.grid.row after.cur.row ∨
    after.cachedRow = before.cachedRow ∧ after.cur.row = before.cur.row

variable {cur : Point} {again : GraphemeCursor → GraphemeCursor}

theorem stepTo_plain (h : (c.moveTo cur).onSpacer = false) :
    c.stepTo cur again = if cur.row ≠ c.cur.row then (c.moveTo cur).updateCachedRow else c.moveTo cur := by
  rw [stepTo]
  simp only [h, Bool.false_eq_true, if_false]
  rfl

theorem stepTo_spacer (h : (c.moveTo cur).onSpacer = true) :
    c.stepTo cur again = if (again (c.moveTo cur)).cur.row ≠ c.cur.row then (again (c.moveTo cur)).updateCachedRow
      else again (c.moveTo cur) := by
  rw [stepTo]
  simp only [h, if_true]

theorem Way.Reaches.updateCachedRow {way : Way g wrap first last} (h : way.Reaches k c) :
    way.Reaches k c.updateCachedRow := by
  cases h with
  | grapheme k' state stands inRows plain unseen =>
    exact .grapheme k' state ⟨stands.grid, stands.wrap, stands.cur⟩ inRows plain unseen
  | finish k' state stands inRows hlast spacer unseen =>
    exact .finish k' state ⟨stands.grid, stands.wrap, stands.cur⟩ inRows hlast spacer unseen

/-- By induction on the calls: each is for a cell that comes sooner. -/
theorem Way.within_reaches (way : Way g wrap first last) {fuel : Nat} (hc : c.StandsAt g wrap k)
    (hstate : c.cursorState = .valid) (hin : InRows g.columns first last k) (hfuel : way.distance k < fuel) :
    way.Reaches k (within way.move fuel c) ∧ KeepsRow c (within way.move fuel c) := by
  induction fuel generalizing c k with
  | zero => exact absurd hfuel (Nat.not_lt_zero _)
  | succ fuel ih =>
    rw [within]
    cases hnext : way.next k with
    | none =>
      rw [way.stops hin hc hstate hnext]
      exact ⟨.finish k rfl ⟨hc.grid, hc.wrap, hc.cur⟩ hin hnext (.inl rfl) (way.unseen_end hnext), .inr ⟨rfl, rfl⟩⟩
    | some k' =>
      have hmoved : (c.moveTo (cellPoint g.columns k')).StandsAt g wrap k' := ⟨hc.grid, hc.wrap, rfl⟩
      have hin' := way.next_in hin hnext
      have hunseen := way.unseen_next hnext
      rw [way.moves hin hc hstate hnext]
      cases hspacer : g.spacerAt k' with
      | false =>
        rw [hspacer] at hunseen
        have hreaches : way.Reaches k (c.moveTo (cellPoint g.columns k')) :=
          .grapheme k' hstate hmoved hin' hspacer hunseen
        rw [stepTo_plain (hmoved.onSpacer.trans hspacer)]
        split
        · exact ⟨hreaches.updateCachedRow, .inl rfl⟩
        next hrow => exact ⟨hreaches, .inr ⟨rfl, not_not.mp hrow⟩⟩
      | true =>
        rw [hspacer, if_pos rfl] at hunseen
        have hdistance := way.next_distance hnext
        obtain ⟨hagain, hkeeps⟩ := ih hmoved hstate hin' (by omega)
        have hreaches : way.Reaches k (within way.move fuel (c.moveTo (cellPoint g.columns k'))) := by
          cases hagain with
          | grapheme k'' state stands inRows plain unseen =>
            exact .grapheme k'' state stands inRows plain (hunseen.trans unseen)
          | finish k'' state stands inRows hlast spacer unseen =>
            refine .finish k'' state stands inRows hlast (.inr ?_) (hunseen.trans unseen)
            cases spacer with
            | inl heq => rw [heq, hspacer]
            | inr spacer => exact spacer
        rw [stepTo_spacer (hmoved.onSpacer.trans hspacer)]
        split
        · exact ⟨hreaches.updateCachedRow, .inl rfl⟩
        next hrow =>
          refine ⟨hreaches, ?_⟩
          cases hkeeps with
          | inl hfresh => exact .inl hfresh
          | inr hsame => exact .inr ⟨hsame.1, not_not.mp hrow⟩

theorem not_of_ite_none {p : Prop} [Decidable p] {a : Nat} (h : (if p then some a else none) = none) : ¬ p := by
  intro hp
  rw [if_pos hp] at h
  cases h

def forwardWay (h : g.Scope wrap first last) : Way g wrap first last where
  move := forwardBy
  direction := .right
  next k := if k + 1 < (last + 1) * g.columns then some (k + 1) else none
  unseen k := g.graphemesIn (k + 1) ((last + 1) * g.columns)
  distance k := (last + 1) * g.columns - k
  moves := by
    intro k k' c again hin hc hstate hnext
    obtain ⟨hlt, rfl⟩ := Option.ite_some_none_eq_some.mp hnext
    rw [forwardBy, hstate, (hc.hasNext h hin).mpr hlt, if_pos rfl, hc.grid, hc.cur,
      wrappingAdd_cellPoint hin.columns_pos]
  stops := by
    intro k c again hin hc hstate hnext
    have hlast := not_of_ite_none hnext
    rw [forwardBy, hstate, if_neg (mt (hc.hasNext h hin).mp hlast)]
  stays := by
    intro c again hstate
    rw [forwardBy, hstate]
  turns := by
    intro c again hstate
    rw [forwardBy, hstate]
    rfl
  next_in := by
    intro k k' hin hnext
    obtain ⟨hlt, rfl⟩ := Option.ite_some_none_eq_some.mp hnext
    exact ⟨Nat.le_succ_of_le hin.start, hlt⟩
  next_distance := by
    intro k k' hnext
    obtain ⟨hlt, rfl⟩ := Option.ite_some_none_eq_some.mp hnext
    omega
  distance_le := fun _ => Nat.le_trans (Nat.sub_le _ _) (h.stop_le g.columns)
  unseen_next := by
    intro k k' hnext
    obtain ⟨hlt, rfl⟩ := Option.ite_some_none_eq_some.mp hnext
    exact g.graphemesIn_cons hlt
  unseen_end := by
    intro k hnext
    have hlast := not_of_ite_none hnext
    exact g.graphemesIn_nil (Nat.not_lt.mp hlast)

/-- Backward: the cells before the cursor are still to come, the nearest first. -/
def backwardWay (h : g.Scope wrap first last) : Way g wrap first last where
  move := backwardBy
  direction := .left
  next k := if first * g.columns < k then some (k - 1) else none
  unseen k := (g.graphemesIn (first * g.columns) k).reverse
  distance k := k
  moves := by
    intro k k' c again hin hc hstate hnext
    obtain ⟨hlt, rfl⟩ := Option.ite_some_none_eq_some.mp hnext
    obtain ⟨j, rfl⟩ := Nat.exists_eq_succ_of_ne_zero (Nat.ne_of_gt (Nat.zero_lt_of_lt hlt))
    rw [backwardBy, hstate, (hc.hasPrev h hin).mpr hlt, if_pos rfl, hc.grid, hc.cur,
      wrappingSub_cellPoint hin.columns_pos]
    rfl
  stops := by
    intro k c again hin hc hstate hnext
    have hlast := not_of_ite_none hnext
    rw [backwardBy, hstate, if_neg (mt (hc.hasPrev h hin).mp hlast)]
  stays := by
    intro c again hstate
    rw [backwardBy, hstate]
  turns := by
    intro c again hstate
    rw [backwardBy, hstate]
    rfl
  next_in := by
    intro k k' hin hnext
    obtain ⟨hlt, rfl⟩ := Option.ite_some_none_eq_some.mp hnext
    exact ⟨Nat.le_sub_one_of_lt hlt, Nat.lt_of_le_of_lt (Nat.sub_le k 1) hin.stop⟩
  next_distance := by
    intro k k' hnext
    obtain ⟨hlt, rfl⟩ := Option.ite_some_none_eq_some.mp hnext
    omega
  distance_le := fun hin => Nat.le_trans (Nat.le_of_lt hin.stop) (h.stop_le g.columns)
  unseen_next := by
    intro k k' hnext
    obtain ⟨hlt, rfl⟩ := Option.ite_some_none_eq_some.mp hnext
    obtain ⟨j, rfl⟩ := Nat.exists_eq_succ_of_ne_zero (Nat.ne_of_gt (Nat.zero_lt_of_lt hlt))
    rw [Nat.succ_sub_one, g.graphemesIn_snoc (Nat.le_of_lt_succ hlt), List.reverse_append]
    cases g.spacerAt j <;> rfl
  unseen_end := by
    intro k hnext
    have hlast := not_of_ite_none hnext
    rw [g.graphemesIn_nil (Nat.not_lt.mp hlast), List.reverse_nil]

end GraphemeCursor

end InfiniShell.Scrollback
