import InfiniShell.Scrollback.GridRows
import Mathlib.Algebra.GroupWithZero.Nat

namespace InfiniShell.Scrollback

open Collections Terminal

structure Glyph where
  content : List Char
  wide : Bool

namespace Glyph

def width (glyph : Glyph) : Nat := if glyph.wide then 2 else 1

def Skips (columns offset : Nat) (glyph : Glyph) : Prop := glyph.wide = true ∧ offset % columns = columns - 1

instance (columns offset : Nat) (glyph : Glyph) : Decidable (glyph.Skips columns offset) :=
  inferInstanceAs (Decidable (_ ∧ _))

def start (columns offset : Nat) (glyph : Glyph) : Nat := if glyph.Skips columns offset then offset + 1 else offset

def widths (glyphs : List Glyph) : Nat := (glyphs.map width).sum

def stop (columns : Nat) (glyphs : List Glyph) : Nat :=
  glyphs.foldl (fun offset glyph => glyph.start columns offset + glyph.width) 0

/-- The cells that are left out at the ends of rows, from the offset on. -/
def leadingSpacersFrom (columns : Nat) : Nat → List Glyph → Nat
  | _, [] => 0
  | offset, glyph :: glyphs =>
    (if glyph.Skips columns offset then 1 else 0)
      + leadingSpacersFrom columns (glyph.start columns offset + glyph.width) glyphs

def leadingSpacers (columns : Nat) (glyphs : List Glyph) : Nat := leadingSpacersFrom columns 0 glyphs

theorem stopFrom_eq (columns offset : Nat) (glyphs : List Glyph) :
    glyphs.foldl (fun offset glyph => glyph.start columns offset + glyph.width) offset =
      offset + widths glyphs + leadingSpacersFrom columns offset glyphs := by
  induction glyphs generalizing offset with
  | nil => rfl
  | cons glyph glyphs ih =>
    have hstart : glyph.start columns offset = offset + if glyph.Skips columns offset then 1 else 0 := by
      unfold start
      split <;> rfl
    have hwidths : widths (glyph :: glyphs) = glyph.width + widths glyphs := rfl
    rw [List.foldl_cons, ih, leadingSpacersFrom, hwidths]
    omega

theorem stop_eq (columns : Nat) (glyphs : List Glyph) :
    stop columns glyphs = widths glyphs + leadingSpacers columns glyphs := by
  rw [stop, stopFrom_eq, Nat.zero_add, leadingSpacers]

theorem stop_snoc (columns : Nat) (before : List Glyph) (glyph : Glyph) :
    stop columns (before ++ [glyph]) = glyph.start columns (stop columns before) + glyph.width := by
  rw [stop, List.foldl_append]
  rfl

theorem start_eq (columns : Nat) (before : List Glyph) (glyph : Glyph) :
    glyph.start columns (stop columns before) = widths before + leadingSpacers columns (before ++ [glyph]) := by
  have hstop := stop_snoc columns before glyph
  have hwidths : widths (before ++ [glyph]) = widths before + glyph.width := by
    rw [widths, List.map_append, List.sum_append]
    rfl
  rw [stop_eq columns (before ++ [glyph]), hwidths] at hstop
  omega

theorem widths_pos (glyph : Glyph) : 0 < glyph.width := by
  unfold width
  split <;> decide

theorem start_lt_stop (columns : Nat) (before after : List Glyph) (glyph : Glyph) :
    glyph.start columns (stop columns before) < stop columns (before ++ glyph :: after) := by
  have hpos := widths_pos glyph
  have hsplit : stop columns (before ++ glyph :: after) =
      after.foldl (fun offset glyph => glyph.start columns offset + glyph.width)
        (stop columns (before ++ [glyph])) := by
    rw [List.append_cons, stop, List.foldl_append, ← stop]
  rw [hsplit, stopFrom_eq, stop_snoc]
  omega

end Glyph

inductive Slot where
  | holds (glyph : Glyph)
  | spacer
  | leadingSpacer
  | blank

namespace Slot

def ShownBy (cell : Cell) : Slot → Prop
  | holds glyph =>
    cell.rawContent.chars = glyph.content ∧ CellType.ofCell cell = if glyph.wide then .wideChar else .regularChar
  | spacer => CellType.ofCell cell = .wideCharSpacer
  | leadingSpacer => CellType.ofCell cell = .leadingWideCharSpacer
  | blank => cell.rawContent.chars = [defaultChar] ∧ CellType.ofCell cell = .regularChar

instance (cell : Cell) : (slot : Slot) → Decidable (slot.ShownBy cell)
  | holds _ => inferInstanceAs (Decidable (_ ∧ _))
  | spacer => inferInstanceAs (Decidable (CellType.ofCell cell = _))
  | leadingSpacer => inferInstanceAs (Decidable (CellType.ofCell cell = _))
  | blank => inferInstanceAs (Decidable (_ ∧ _))

def ofGlyph (columns offset : Nat) (glyph : Glyph) : List Slot :=
  (if glyph.Skips columns offset then [leadingSpacer] else []) ++ holds glyph :: if glyph.wide then [spacer] else []

def lineFrom (columns : Nat) : Nat → List Glyph → List Slot
  | _, [] => []
  | offset, glyph :: glyphs =>
    ofGlyph columns offset glyph ++ lineFrom columns (glyph.start columns offset + glyph.width) glyphs

def line (columns : Nat) (glyphs : List Glyph) : List Slot := lineFrom columns 0 glyphs

variable {columns offset : Nat}

end Slot

namespace GridRows

variable {g : GridRows} {row : Nat}

def linesBefore (g : GridRows) : Nat → Nat
  | 0 => 0
  | row + 1 => g.linesBefore row + if g.rowWraps row then 0 else 1

def StartsLine (g : GridRows) (row : Nat) : Prop := ∀ before, row = before + 1 → g.rowWraps before = false

variable {row row' : Nat}

theorem linesBefore_mono (h : row ≤ row') : g.linesBefore row ≤ g.linesBefore row' := by
  induction h with
  | refl => exact Nat.le_refl _
  | step _ ih => exact Nat.le_trans ih (Nat.le_add_right _ _)

theorem linesBefore_lt (hstarts : g.StartsLine row') (h : row < row') :
    g.linesBefore row < g.linesBefore row' := by
  cases row' with
  | zero => exact absurd h (Nat.not_lt_zero row)
  | succ before =>
    have hmono : g.linesBefore row ≤ g.linesBefore before := linesBefore_mono (Nat.le_of_lt_succ h)
    rw [linesBefore, hstarts before rfl]
    exact Nat.lt_succ_of_le hmono

theorem unwrapRows_add (g : GridRows) (row rest : Nat) :
    g.unwrapRows row (row + rest) = g.linesBefore row + rest := by
  induction row generalizing rest with
  | zero => rfl
  | succ row ih =>
    rw [unwrapRows, linesBefore]
    split
    · rw [Nat.add_right_comm, Nat.add_sub_cancel, ih, Nat.add_zero]
    · rw [Nat.add_assoc, ih, Nat.add_assoc]

theorem lineStart_le (g : GridRows) (row : Nat) : g.lineStart row ≤ row := by
  induction row with
  | zero => exact Nat.le_refl _
  | succ row ih =>
    rw [lineStart]
    split <;> omega

theorem lineStart_starts (g : GridRows) (row : Nat) : g.StartsLine (g.lineStart row) := by
  induction row with
  | zero =>
    intro before hbefore
    cases hbefore
  | succ row ih =>
    rw [lineStart]
    by_cases hwraps : g.rowWraps row
    · rwa [if_pos hwraps]
    · rw [if_neg hwraps]
      intro before hbefore
      obtain rfl := Nat.succ.inj hbefore
      exact Bool.eq_false_iff.mpr hwraps

theorem lineStart_wraps (g : GridRows) {row before : Nat} (hle : g.lineStart row ≤ before) (hlt : before < row) :
    g.rowWraps before = true := by
  induction row with
  | zero => exact absurd hlt (Nat.not_lt_zero before)
  | succ row ih =>
    rw [lineStart] at hle
    by_cases hwraps : g.rowWraps row
    · rw [if_pos hwraps] at hle
      by_cases heq : before = row
      · rw [heq, hwraps]
      · exact ih hle (by omega)
    · rw [if_neg hwraps] at hle
      omega

theorem lineStart_eq {start row : Nat} (hstarts : g.StartsLine start) (hle : start ≤ row)
    (hwraps : ∀ before, start ≤ before → before < row → g.rowWraps before = true) : g.lineStart row = start := by
  induction hle with
  | refl =>
    cases start with
    | zero => rfl
    | succ before => rw [lineStart, hstarts before rfl, if_neg Bool.false_ne_true]
  | @step row hle ih =>
    rw [lineStart, hwraps row hle (Nat.lt_succ_self row), if_pos rfl]
    exact ih fun before hbefore hlt => hwraps before hbefore (Nat.lt_succ_of_lt hlt)

theorem gridAgnosticPoint_eq (g : GridRows) (p : Point) : g.gridAgnosticPoint p =
    ⟨g.linesBefore (g.lineStart p.row), p.col + g.columns * (p.row - g.lineStart p.row)⟩ := by
  have hrows := g.unwrapRows_add (g.lineStart p.row) 0
  rw [Nat.add_zero, Nat.add_zero] at hrows
  rw [gridAgnosticPoint, lineSearchLeft]
  simp only [hrows]

theorem findRow_eq (hstarts : g.StartsLine row) {fuel current : Nat} (hle : current ≤ row)
    (hfuel : row ≤ current + fuel) :
    g.findRow (g.linesBefore row) fuel current (g.linesBefore current) = row := by
  induction fuel generalizing current with
  | zero =>
    rw [findRow]
    omega
  | succ fuel ih =>
    rw [findRow]
    by_cases heq : current = row
    · rw [heq, if_pos rfl]
    · have hlt : current < row := by omega
      have hnext : (if g.rowWraps current then g.linesBefore current else g.linesBefore current + 1) =
          g.linesBefore (current + 1) := by
        rw [linesBefore]
        split <;> rfl
      rw [if_neg (Nat.ne_of_gt (linesBefore_lt hstarts hlt)), hnext]
      exact ih hlt (by omega)

theorem fitColumn_wraps {count fuel col : Nat} (hwraps : ∀ i < count, g.rowWraps (row + i) = true) :
    g.fitColumn (fuel + count) row (col + g.columns * count) = g.fitColumn fuel (row + count) col := by
  induction count generalizing row with
  | zero => rfl
  | succ count ih =>
    have hfirst : g.rowWraps row = true := hwraps 0 (Nat.succ_pos count)
    have hrest : ∀ i < count, g.rowWraps (row + 1 + i) = true := by
      intro i hi
      rw [Nat.add_assoc, Nat.add_comm 1 i]
      exact hwraps (i + 1) (Nat.succ_lt_succ hi)
    have hcol : col + g.columns * (count + 1) = col + g.columns * count + g.columns := by
      rw [Nat.mul_succ, Nat.add_assoc]
    rw [← Nat.add_assoc, fitColumn, if_pos ⟨by omega, hfirst⟩, hcol, Nat.add_sub_cancel, ih hrest, Nat.add_assoc,
      Nat.add_comm 1 count]

theorem fitColumn_stops {fuel col : Nat} (h : col < g.columns ∨ g.rowWraps row = false) :
    g.fitColumn fuel row col = ⟨row, col⟩ := by
  cases fuel with
  | zero => rfl
  | succ fuel =>
    have hstop : ¬(col ≥ g.columns ∧ g.rowWraps row = true) := by
      intro hboth
      cases h with
      | inl hlt => exact absurd hboth.1 (Nat.not_le.mpr hlt)
      | inr hwraps =>
        rw [hwraps] at hboth
        exact Bool.false_ne_true hboth.2
    rw [fitColumn, if_neg hstop]

theorem compatiblePoint_eq (hstarts : g.StartsLine row) {count col : Nat} (hlt : row + count < g.totalRows)
    (hwraps : ∀ i < count, g.rowWraps (row + i) = true) (hstop : col < g.columns ∨ g.rowWraps (row + count) = false) :
    g.compatiblePoint ⟨g.linesBefore row, col + g.columns * count⟩ = ⟨row + count, col⟩ := by
  have hfind : g.findRow (g.linesBefore row) g.totalRows 0 0 = row :=
    findRow_eq hstarts (Nat.zero_le row) (by omega)
  obtain ⟨fuel, hfuel⟩ : ∃ fuel, g.totalRows - row = fuel + count := ⟨g.totalRows - row - count, by omega⟩
  rw [compatiblePoint]
  simp only [hfind]
  rw [hfuel, fitColumn_wraps hwraps, fitColumn_stops hstop]

def RoundTrips (g : GridRows) : Prop :=
  ∀ p : Point, p.row < g.totalRows → p.col < g.columns → g.compatiblePoint (g.gridAgnosticPoint p) = p

theorem roundTrips (g : GridRows) : g.RoundTrips := by
  intro p hrow hcol
  have hle := g.lineStart_le p.row
  have hsum : g.lineStart p.row + (p.row - g.lineStart p.row) = p.row := by omega
  have hwraps : ∀ i < p.row - g.lineStart p.row, g.rowWraps (g.lineStart p.row + i) = true := by
    intro i hi
    exact g.lineStart_wraps (Nat.le_add_right _ i) (by omega)
  rw [gridAgnosticPoint_eq, compatiblePoint_eq (g.lineStart_starts p.row) (by omega) hwraps (.inl hcol), hsum]

def firstRow (rows : List Nat) (i : Nat) : Nat := (rows.take i).sum

def pointAt (columns : Nat) (rows : List Nat) (i offset : Nat) : Point :=
  ⟨firstRow rows i + offset / columns, offset % columns⟩

/-- The grid shows the lines, each in its rows, of which all but the last wrap. -/
structure LaysOut (g : GridRows) (lines : List (List Glyph)) (rows : List Nat) : Prop where
  length : rows.length = lines.length
  columns : 0 < g.columns
  wide : ∀ line ∈ lines, ∀ glyph ∈ line, glyph.wide = true → 2 ≤ g.columns
  total : g.totalRows = rows.sum
  fits : ∀ i < lines.length,
    0 < rows.getD i 0 ∧ Glyph.stop g.columns (lines.getD i []) ≤ g.columns * rows.getD i 0
  wraps : ∀ i < lines.length, ∀ r < rows.getD i 0, g.rowWraps (firstRow rows i + r) = decide (r + 1 < rows.getD i 0)
  shows : ∀ i < lines.length, ∀ offset < g.columns * rows.getD i 0,
    ∃ cell ∈ g.cell (pointAt g.columns rows i offset),
      ((Slot.line g.columns (lines.getD i [])).getD offset .blank).ShownBy cell

/-- The cell of the grapheme that the line has behind the others. -/
def glyphPoint (columns : Nat) (rows : List Nat) (i : Nat) (before : List Glyph) (glyph : Glyph) : Point :=
  pointAt columns rows i (glyph.start columns (Glyph.stop columns before))

namespace LaysOut

variable {lines : List (List Glyph)} {rows : List Nat}

theorem firstRow_succ (rows : List Nat) (i : Nat) : firstRow rows (i + 1) = firstRow rows i + rows.getD i 0 := by
  rw [firstRow, firstRow, List.take_add_one, List.sum_append, List.getD_eq_getElem?_getD]
  cases rows[i]? with
  | none => rfl
  | some k => rw [Option.toList_some, List.sum_singleton, Option.getD_some]

theorem firstRow_le (rows : List Nat) (i : Nat) : firstRow rows i ≤ rows.sum := by
  rw [← List.take_append_drop i rows, List.sum_append, List.take_append_drop, firstRow]
  exact Nat.le_add_right _ _

theorem row_lt (h : g.LaysOut lines rows) {i r : Nat} (hr : r < rows.getD i 0) :
    firstRow rows i + r < g.totalRows := by
  have hle := firstRow_le rows (i + 1)
  rw [firstRow_succ] at hle
  rw [h.total]
  omega

variable {i : Nat}

theorem starts (h : g.LaysOut lines rows) (hi : i ≤ lines.length) : g.StartsLine (firstRow rows i) := by
  intro before hbefore
  cases i with
  | zero => cases hbefore
  | succ i =>
    have hpos := (h.fits i hi).1
    rw [firstRow_succ] at hbefore
    have hlast := h.wraps i hi (rows.getD i 0 - 1) (by omega)
    have heq : firstRow rows i + (rows.getD i 0 - 1) = before := by omega
    rw [heq] at hlast
    rw [hlast]
    exact decide_eq_false (by omega)

variable {r : Nat} (h : g.LaysOut lines rows)
include h

theorem wraps_before (hi : i < lines.length)
    (hr : r + 1 < rows.getD i 0) : g.rowWraps (firstRow rows i + r) = true := by
  rw [h.wraps i hi r (Nat.lt_of_succ_lt hr)]
  exact decide_eq_true hr

theorem linesBefore_in (hi : i < lines.length) (hr : r < rows.getD i 0) :
    g.linesBefore (firstRow rows i + r) = g.linesBefore (firstRow rows i) := by
  induction r with
  | zero => rfl
  | succ r ih =>
    rw [← Nat.add_assoc, linesBefore, h.wraps_before hi hr, if_pos rfl]
    exact ih (Nat.lt_of_succ_lt hr)

theorem linesBefore_firstRow (hi : i ≤ lines.length) : g.linesBefore (firstRow rows i) = i := by
  induction i with
  | zero => rfl
  | succ i ih =>
    have hpos := (h.fits i hi).1
    have hin := h.linesBefore_in hi (r := rows.getD i 0 - 1) (by omega)
    have hlast := h.wraps i hi (rows.getD i 0 - 1) (by omega)
    have heq : firstRow rows (i + 1) = firstRow rows i + (rows.getD i 0 - 1) + 1 := by
      rw [firstRow_succ]
      omega
    have hstop : decide (rows.getD i 0 - 1 + 1 < rows.getD i 0) = false := decide_eq_false (by omega)
    rw [heq, linesBefore, hin, hlast, hstop, ih (Nat.le_of_lt hi)]
    rfl

variable (hi : i < lines.length)
include hi

theorem gridAgnosticPoint_pointAt {offset : Nat} (hlt : offset < g.columns * rows.getD i 0) :
    g.gridAgnosticPoint (pointAt g.columns rows i offset) = ⟨i, offset⟩ := by
  have hrow : offset / g.columns < rows.getD i 0 := Nat.div_lt_of_lt_mul hlt
  have hstart : g.lineStart (firstRow rows i + offset / g.columns) = firstRow rows i := by
    apply lineStart_eq (h.starts (Nat.le_of_lt hi)) (Nat.le_add_right _ _)
    intro before hle hbefore
    obtain ⟨r, rfl⟩ := Nat.exists_eq_add_of_le hle
    exact h.wraps_before hi (by omega)
  rw [gridAgnosticPoint_eq, pointAt]
  simp only [hstart, Nat.add_sub_cancel_left, h.linesBefore_firstRow (Nat.le_of_lt hi), Nat.mod_add_div]

theorem compatiblePoint_offset (offset : Nat) : g.compatiblePoint ⟨i, offset⟩ =
      ⟨firstRow rows i + min (offset / g.columns) (rows.getD i 0 - 1),
        offset - g.columns * min (offset / g.columns) (rows.getD i 0 - 1)⟩ := by
  have hpos := (h.fits i hi).1
  have hmin : min (offset / g.columns) (rows.getD i 0 - 1) < rows.getD i 0 := by omega
  have hle : g.columns * min (offset / g.columns) (rows.getD i 0 - 1) ≤ offset :=
    Nat.le_trans (Nat.mul_le_mul_left _ (Nat.min_le_left _ _)) (Nat.mul_div_le offset g.columns)
  have hwraps : ∀ r < min (offset / g.columns) (rows.getD i 0 - 1), g.rowWraps (firstRow rows i + r) = true := by
    intro r hr
    exact h.wraps_before hi (by omega)
  have hstop : offset - g.columns * min (offset / g.columns) (rows.getD i 0 - 1) < g.columns ∨
      g.rowWraps (firstRow rows i + min (offset / g.columns) (rows.getD i 0 - 1)) = false := by
    by_cases hrow : offset / g.columns ≤ rows.getD i 0 - 1
    · left
      have hmod := Nat.mod_lt offset h.columns
      have hdiv := Nat.mod_add_div offset g.columns
      rw [Nat.min_eq_left hrow]
      omega
    · right
      rw [Nat.min_eq_right (by omega), h.wraps i hi _ (by omega)]
      exact decide_eq_false (by omega)
  have hpoint := compatiblePoint_eq (h.starts (Nat.le_of_lt hi)) (h.row_lt hmin) hwraps hstop
  rwa [h.linesBefore_firstRow (Nat.le_of_lt hi), Nat.sub_add_cancel hle] at hpoint

theorem compatiblePoint_iff {offset target : Nat} (hlt : target < g.columns * rows.getD i 0) :
    g.compatiblePoint ⟨i, offset⟩ = pointAt g.columns rows i target ↔ offset = target := by
  have hrow : target / g.columns < rows.getD i 0 := Nat.div_lt_of_lt_mul hlt
  rw [h.compatiblePoint_offset hi, pointAt, Point.mk.injEq]
  constructor
  · rintro ⟨hrows, hcols⟩
    have heq : min (offset / g.columns) (rows.getD i 0 - 1) = target / g.columns := Nat.add_left_cancel hrows
    have hle : g.columns * min (offset / g.columns) (rows.getD i 0 - 1) ≤ offset :=
      Nat.le_trans (Nat.mul_le_mul_left _ (Nat.min_le_left _ _)) (Nat.mul_div_le offset g.columns)
    have htarget := Nat.mod_add_div target g.columns
    rw [heq] at hcols hle
    omega
  · rintro rfl
    have hmod := Nat.mod_add_div offset g.columns
    rw [Nat.min_eq_left (by omega)]
    exact ⟨rfl, by omega⟩

theorem start_lt {before after : List Glyph}
    {glyph : Glyph} (hline : lines.getD i [] = before ++ glyph :: after) :
    glyph.start g.columns (Glyph.stop g.columns before) < g.columns * rows.getD i 0 := by
  have hfits := (h.fits i hi).2
  rw [hline] at hfits
  exact Nat.lt_of_lt_of_le (Glyph.start_lt_stop g.columns before after glyph) hfits

end LaysOut

/-- Each grapheme's point in the one grid goes to its point in the other. -/
def Transfers (g₁ g₂ : GridRows) (lines : List (List Glyph)) (rows₁ rows₂ : List Nat) : Prop :=
  ∀ i < lines.length, ∀ before glyph after, lines.getD i [] = before ++ glyph :: after →
    g₂.compatiblePoint (g₁.gridAgnosticPoint (glyphPoint g₁.columns rows₁ i before glyph)) =
      glyphPoint g₂.columns rows₂ i before glyph

/-- Up to each grapheme its line leaves out as many cells in the one width as in the other. -/
def SameLeadingSpacers (columns₁ columns₂ : Nat) (lines : List (List Glyph)) : Prop :=
  ∀ i < lines.length, ∀ before glyph after, lines.getD i [] = before ++ glyph :: after →
    Glyph.leadingSpacers columns₁ (before ++ [glyph]) = Glyph.leadingSpacers columns₂ (before ++ [glyph])

theorem points_transfer_iff (g₁ g₂ : GridRows) (lines : List (List Glyph)) (rows₁ rows₂ : List Nat)
    (h₁ : g₁.LaysOut lines rows₁) (h₂ : g₂.LaysOut lines rows₂) :
    (g₁.RoundTrips ∧ Transfers g₁ g₂ lines rows₁ rows₂) ↔ SameLeadingSpacers g₁.columns g₂.columns lines := by
  have hpoint : ∀ i < lines.length, ∀ before glyph after, lines.getD i [] = before ++ glyph :: after →
      (g₂.compatiblePoint (g₁.gridAgnosticPoint (glyphPoint g₁.columns rows₁ i before glyph)) =
          glyphPoint g₂.columns rows₂ i before glyph ↔
        Glyph.leadingSpacers g₁.columns (before ++ [glyph]) = Glyph.leadingSpacers g₂.columns (before ++ [glyph])) := by
    intro i hi before glyph after hline
    rw [glyphPoint, h₁.gridAgnosticPoint_pointAt hi (h₁.start_lt hi hline), glyphPoint,
      h₂.compatiblePoint_iff hi (h₂.start_lt hi hline), Glyph.start_eq, Glyph.start_eq, Nat.add_left_cancel_iff]
  constructor
  · rintro ⟨-, htransfers⟩ i hi before glyph after hline
    exact (hpoint i hi before glyph after hline).mp (htransfers i hi before glyph after hline)
  · intro hsame
    refine ⟨g₁.roundTrips, ?_⟩
    intro i hi before glyph after hline
    exact (hpoint i hi before glyph after hline).mpr (hsame i hi before glyph after hline)

def showing (columns : Nat) (scrollback visible : List (List Cell)) : GridRows where
  grid :=
    { GridStorage.new visible.length columns 0 true with
      raw := Storage.withRows (visible.map fun cells => ⟨cells, cells.length⟩) true visible.length }
  flatStorage :=
    ((FlatStorage.new columns none).pushRows (scrollback.map fun cells => ⟨cells, cells.length⟩)).getD
      (FlatStorage.new columns none)

def plainCell (c : Char) : Cell := { c }

def wideCell : Cell := { c := '中', flags := { wideChar := true } }

def spacerCell (wrapline : Bool) : Cell := { flags := { wideCharSpacer := true, wrapline } }

def leadingCell : Cell := { flags := { leadingWideCharSpacer := true, wrapline := true } }

def plainGlyph (c : Char) : Glyph := ⟨[c], false⟩

def wideGlyph : Glyph := ⟨['中'], true⟩

def wrappedRows : GridRows :=
  showing 4 [[plainCell 'a', plainCell 'b', wideCell, spacerCell true], [plainCell 'c', {}, {}, {}]]
    [[plainCell 'd', {}, {}, {}]]

def unwrappedRows : GridRows :=
  showing 5 []
    [[plainCell 'a', plainCell 'b', wideCell, spacerCell false, plainCell 'c'], [plainCell 'd', {}, {}, {}, {}]]

theorem points_transfer_iff_unwrapped :
    (wrappedRows.RoundTrips ∧ Transfers wrappedRows unwrappedRows
      [[plainGlyph 'a', plainGlyph 'b', wideGlyph, plainGlyph 'c'], [plainGlyph 'd']] [2, 1] [1, 1]) ↔
    SameLeadingSpacers 4 5 [[plainGlyph 'a', plainGlyph 'b', wideGlyph, plainGlyph 'c'], [plainGlyph 'd']] := by
  apply points_transfer_iff
  · exact ⟨rfl, by decide, by decide, by decide +kernel, by decide +kernel, by decide +kernel, by decide +kernel⟩
  · exact ⟨rfl, by decide, by decide, by decide +kernel, by decide +kernel, by decide +kernel, by decide +kernel⟩

/-- A wide character that does not fit in the first row is taken for one a column further on. -/
theorem points_do_not_transfer : ¬ ∀ (g₁ g₂ : GridRows) (lines : List (List Glyph)) (rows₁ rows₂ : List Nat),
    g₁.LaysOut lines rows₁ → g₂.LaysOut lines rows₂ → g₁.RoundTrips ∧ Transfers g₁ g₂ lines rows₁ rows₂ := by
  intro hall
  have h₁ : (showing 3 [] [[plainCell 'a', plainCell 'b', leadingCell], [wideCell, spacerCell false, {}]]).LaysOut
      [[plainGlyph 'a', plainGlyph 'b', wideGlyph]] [2] :=
    ⟨rfl, by decide, by decide, by decide +kernel, by decide +kernel, by decide +kernel, by decide +kernel⟩
  have h₂ : (showing 4 [] [[plainCell 'a', plainCell 'b', wideCell, spacerCell false]]).LaysOut
      [[plainGlyph 'a', plainGlyph 'b', wideGlyph]] [1] :=
    ⟨rfl, by decide, by decide, by decide +kernel, by decide +kernel, by decide +kernel, by decide +kernel⟩
  have hpoint := (hall _ _ _ _ _ h₁ h₂).2 0 (by decide) [plainGlyph 'a', plainGlyph 'b'] wideGlyph [] rfl
  exact absurd hpoint (by decide +kernel)

end GridRows

end InfiniShell.Scrollback
