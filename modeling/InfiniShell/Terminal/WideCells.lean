import InfiniShell.Terminal.RowEditing

namespace InfiniShell.Terminal

open Collections

def Cell.isWide (cell : Cell) : Bool := cell.flags.wideChar

def Cell.isSpacer (cell : Cell) : Bool := cell.flags.wideCharSpacer

abbrev Cell.Narrow (cell : Cell) : Prop := Plain Cell.isWide Cell.isSpacer cell

abbrev PairedCells (cells : List Cell) : Prop := Paired Cell.isWide Cell.isSpacer cells

theorem narrow_of_flags {cell : Cell} (h : cell.flags = {}) : cell.Narrow := by
  constructor
  · rw [Cell.isWide, h]
  · rw [Cell.isSpacer, h]

theorem narrow_ofColor (bg : Color) : (Cell.ofColor bg).Narrow := narrow_of_flags rfl

namespace Row

/-- Of the right length, and without halves of wide characters behind the modified cells. -/
structure Kept (numCols : Nat) (row : Row) : Prop where
  length : row.inner.length = numCols
  clean : ∀ cell ∈ row.inner.drop row.occ, cell.Narrow

/-- No wide character is torn. -/
structure Whole (numCols : Nat) (row : Row) : Prop extends Kept numCols row where
  paired : PairedCells row.inner

def OpenAt (row : Row) (i : Nat) : Prop := ∀ cell, row.inner[i]? = some cell → cell.isSpacer = false

def NarrowAt (row : Row) (i : Nat) : Prop := ∀ cell, row.inner[i]? = some cell → cell.Narrow

variable {numCols : Nat} {row after : Row} {i : Nat}

theorem NarrowAt.openAt (h : row.NarrowAt i) : row.OpenAt i := fun cell hcell => (h cell hcell).2

variable {inner : List Cell} {occ : Nat}

theorem Kept.of_drop (hlength : inner.length = numCols)
    (hclean : ∀ i cell, occ ≤ i → inner[i]? = some cell → cell.Narrow) : Kept numCols ⟨inner, occ⟩ := by
  refine ⟨hlength, fun cell hcell => ?_⟩
  obtain ⟨i, hi⟩ := List.getElem?_of_mem hcell
  rw [List.getElem?_drop] at hi
  exact hclean _ cell (Nat.le_add_right _ _) hi

variable {cell : Cell}

theorem Kept.narrow (h : row.Kept numCols) (hi : row.occ ≤ i)
    (hcell : row.inner[i]? = some cell) : cell.Narrow := by
  apply h.clean cell
  apply List.mem_of_getElem? (i := i - row.occ)
  rw [List.getElem?_drop, Nat.add_sub_cancel' hi, hcell]

theorem Kept.full (hlength : inner.length = numCols) (hocc : numCols ≤ occ) :
    Kept numCols ⟨inner, occ⟩ := by
  apply Kept.of_drop hlength
  intro i cell hi hcell
  have hlt := (List.getElem?_eq_some_iff.mp hcell).1
  exact absurd hlt (by omega)

theorem put_spec (h : row.Kept numCols) (hput : row.put i cell = some after) :
    after.Kept numCols ∧ i < numCols ∧ after.inner = row.inner.set i cell := by
  unfold put at hput
  split at hput
  next hi =>
    obtain rfl := Option.some.inj hput
    refine ⟨Kept.of_drop (by rw [List.length_set, h.length]) ?_, h.length ▸ hi, rfl⟩
    intro j other hj hother
    rw [List.getElem?_set_ne (by omega)] at hother
    exact h.narrow (by omega) hother
  next => cases hput

variable {f : Cell → Cell}

theorem modify_spec (h : row.Kept numCols) (hmodify : row.modify i f = some after) :
    ∃ cell, row.inner[i]? = some cell ∧ after.Kept numCols ∧ i < numCols ∧
      after.inner = row.inner.set i (f cell) := by
  obtain ⟨cell, hcell, hput⟩ := Option.bind_eq_some_iff.mp hmodify
  exact ⟨cell, hcell, put_spec h hput⟩

theorem touchAll_kept (h : row.Kept numCols) : row.touchAll.Kept numCols :=
  Kept.full h.length (Nat.le_of_eq h.length.symm)

theorem touchAll_whole (h : row.Whole numCols) : row.touchAll.Whole numCols :=
  ⟨touchAll_kept h.toKept, h.paired⟩

variable {start stop : Nat}

theorem length_filled (bg : Color) (hstart : start ≤ stop)
    (hstop : stop ≤ row.inner.length) : (row.filled start stop bg).length = row.inner.length := by
  simp only [filled, List.length_append, List.length_take, List.length_replicate, List.length_drop]
  omega

variable {bg : Color}

theorem fill_spec (h : row.Kept numCols) (hfill : row.fill start stop bg = some after) :
    after.Kept numCols ∧ start ≤ stop ∧ stop ≤ numCols ∧ after.inner = row.filled start stop bg := by
  unfold fill at hfill
  split at hfill
  next hc =>
    obtain rfl := Option.some.inj hfill
    refine ⟨Kept.of_drop (by rw [length_filled bg hc.1 hc.2, h.length]) ?_, hc.1, h.length ▸ hc.2, rfl⟩
    intro i cell hi hcell
    have hlen : (row.inner.take start ++ List.replicate (stop - start) (Cell.ofColor bg)).length = stop := by
      rw [List.length_append, List.length_take, List.length_replicate]
      omega
    rw [filled, List.getElem?_append_right (by omega), hlen, List.getElem?_drop,
      Nat.add_sub_cancel' (by omega)] at hcell
    exact h.narrow (by omega) hcell
  next => cases hfill

theorem paired_blank (count : Nat) (bg : Color) : PairedCells (List.replicate count (Cell.ofColor bg)) := by
  apply Paired.of_forall_plain
  intro cell hcell
  rw [List.eq_of_mem_replicate hcell]
  exact narrow_ofColor bg

theorem paired_filled (h : PairedCells row.inner) (hstart : row.OpenAt start)
    (hstop : row.OpenAt stop) (bg : Color) : PairedCells (row.filled start stop bg) := by
  exact ((h.take hstart).append (paired_blank _ bg)).append (h.drop hstop)

theorem fill_whole (h : row.Whole numCols) (hstart : row.OpenAt start)
    (hstop : row.OpenAt stop) (hfill : row.fill start stop bg = some after) : after.Whole numCols := by
  obtain ⟨hkept, -, -, hinner⟩ := fill_spec h.toKept hfill
  exact ⟨hkept, hinner ▸ paired_filled h.paired hstart hstop bg⟩

theorem fillFrom_of_take (h : row.Kept numCols)
    (hbefore : PairedCells (row.inner.take start)) (hfill : row.fillFrom start bg = some after) :
    after.Whole numCols := by
  obtain ⟨filled, hfilled, rfl⟩ := Option.map_eq_some_iff.mp hfill
  obtain ⟨hkept, -, -, hinner⟩ := fill_spec h hfilled
  refine touchAll_whole ⟨hkept, ?_⟩
  rw [hinner, Row.filled, List.drop_length, List.append_nil]
  exact hbefore.append (paired_blank _ bg)

theorem fillFrom_whole (h : row.Whole numCols) (hstart : row.OpenAt start)
    (hfill : row.fillFrom start bg = some after) : after.Whole numCols := by
  exact fillFrom_of_take h.toKept (h.paired.take hstart) hfill

theorem fillThrough_whole (h : row.Whole numCols) {last : Nat} (hlast : row.OpenAt (last + 1))
    (hfill : row.fillThrough last bg = some after) : after.Whole numCols := by
  obtain ⟨filled, hfilled, rfl⟩ := Option.map_eq_some_iff.mp hfill
  have hfirst : row.OpenAt 0 := fun cell hcell => h.paired.getElem_zero hcell
  have hwhole := fill_whole h hfirst hlast hfilled
  obtain ⟨-, -, hle, hinner⟩ := fill_spec h.toKept hfilled
  refine ⟨Kept.of_drop hwhole.length ?_, hwhole.paired⟩
  intro i cell hi hcell
  -- The last filled cell counts as unmodified and is blank.
  rw [hinner, Row.filled, List.take_zero, List.nil_append] at hcell
  by_cases hlt : i < last + 1
  · rw [List.getElem?_append_left (by simpa using hlt)] at hcell
    rw [List.eq_of_mem_replicate (List.mem_of_getElem? hcell)]
    exact narrow_ofColor bg
  · rw [List.getElem?_append_right (by simpa using Nat.le_of_not_lt hlt), List.length_replicate,
      List.getElem?_drop] at hcell
    exact h.toKept.narrow (by omega) hcell

theorem mapCells_whole (h : row.Kept numCols) (hf : ∀ cell, (f cell).Narrow) :
    (row.mapCells f).Whole numCols := by
  refine ⟨Kept.full (by rw [List.length_map, h.length]) (Nat.le_of_eq h.length.symm), ?_⟩
  apply Paired.of_forall_plain
  intro cell hcell
  obtain ⟨cell', -, rfl⟩ := List.mem_map.mp hcell
  exact hf cell'

variable {i j : Nat}

theorem blankBoth_spec (h : row.Kept numCols) (hblank : row.blankBoth i j bg = some after) :
    after.Kept numCols ∧ i < numCols ∧ j < numCols ∧
      after.inner = (row.inner.set i (Cell.ofColor bg)).set j (Cell.ofColor bg) := by
  obtain ⟨middle, hi, hj⟩ := Option.bind_eq_some_iff.mp hblank
  obtain ⟨hmiddle, hilt, hinner⟩ := put_spec h hi
  obtain ⟨hafter, hjlt, hinner'⟩ := put_spec hmiddle hj
  exact ⟨hafter, hilt, hjlt, by rw [hinner', hinner]⟩

theorem getElem?_blankBoth (h : row.Kept numCols)
    (hblank : row.blankBoth i j bg = some after) (k : Nat) (cell : Cell) (hcell : after.inner[k]? = some cell) :
    cell.Narrow ∨ k ≠ i ∧ k ≠ j ∧ row.inner[k]? = some cell := by
  obtain ⟨-, -, -, hinner⟩ := blankBoth_spec h hblank
  rw [hinner, List.getElem?_set, List.getElem?_set, List.length_set] at hcell
  by_cases hj : j = k
  · rw [if_pos hj] at hcell
    split at hcell
    next => exact Or.inl (Option.some.inj hcell ▸ narrow_ofColor bg)
    next => cases hcell
  · rw [if_neg hj] at hcell
    by_cases hi : i = k
    · rw [if_pos hi] at hcell
      split at hcell
      next => exact Or.inl (Option.some.inj hcell ▸ narrow_ofColor bg)
      next => cases hcell
    · rw [if_neg hi] at hcell
      exact Or.inr ⟨Ne.symm hi, Ne.symm hj, hcell⟩

/-- What a reset does to the rest of the row: a boundary that no pair straddles stays so. -/
structure Loosened (row after : Row) : Prop where
  openAt : ∀ i, row.OpenAt i → after.OpenAt i
  narrowAt : ∀ i, row.NarrowAt i → after.NarrowAt i

theorem Loosened.refl (row : Row) : Loosened row row := ⟨fun _ h => h, fun _ h => h⟩

theorem Loosened.trans {middle : Row} (h : Loosened row middle) (h' : Loosened middle after) :
    Loosened row after :=
  ⟨fun i hi => h'.openAt i (h.openAt i hi), fun i hi => h'.narrowAt i (h.narrowAt i hi)⟩

theorem loosened_touchAll (row : Row) : Loosened row row.touchAll := ⟨fun _ h => h, fun _ h => h⟩

theorem blankBoth_loosened (h : row.Kept numCols)
    (hblank : row.blankBoth i j bg = some after) : Loosened row after := by
  constructor
  · intro k hk cell hcell
    cases getElem?_blankBoth h hblank k cell hcell with
    | inl hnarrow => exact hnarrow.2
    | inr hsame => exact hk cell hsame.2.2
  · intro k hk cell hcell
    cases getElem?_blankBoth h hblank k cell hcell with
    | inl hnarrow => exact hnarrow
    | inr hsame => exact hk cell hsame.2.2

variable {col : Nat}

section

variable (h : row.Whole numCols)
include h

section

variable (hcell : row.inner[col]? = some cell)
include hcell

theorem blankBoth_before (hspacer : cell.isSpacer = true) (hcol : col > 0)
    (hblank : row.blankBoth col (col - 1) bg = some after) :
    after.Whole numCols ∧ after.NarrowAt col ∧ Loosened row after := by
  obtain ⟨hkept, -, -, hinner⟩ := blankBoth_spec h.toKept hblank
  refine ⟨⟨hkept, ?_⟩, ?_, blankBoth_loosened h.toKept hblank⟩
  · obtain ⟨i, rfl⟩ : ∃ i, col = i + 1 := ⟨col - 1, by omega⟩
    rw [hinner, Nat.add_sub_cancel, List.set_comm _ _ (Nat.succ_ne_self i)]
    exact h.paired.set_pair hcell hspacer (narrow_ofColor bg) (narrow_ofColor bg)
  · intro other hother
    cases getElem?_blankBoth h.toKept hblank col other hother with
    | inl hnarrow => exact hnarrow
    | inr hsame => exact absurd rfl hsame.1

theorem blankBoth_after (hwide : cell.isWide = true)
    (hblank : row.blankBoth col (col + 1) bg = some after) :
    after.Whole numCols ∧ after.NarrowAt col ∧ Loosened row after := by
  obtain ⟨hkept, -, -, hinner⟩ := blankBoth_spec h.toKept hblank
  refine ⟨⟨hkept, ?_⟩, ?_, blankBoth_loosened h.toKept hblank⟩
  · obtain ⟨next, hnext, hspacer⟩ := (h.paired.opens_iff col).mp ⟨cell, hcell, hwide⟩
    rw [hinner]
    exact h.paired.set_pair hnext hspacer (narrow_ofColor bg) (narrow_ofColor bg)
  · intro other hother
    cases getElem?_blankBoth h.toKept hblank col other hother with
    | inl hnarrow => exact hnarrow
    | inr hsame => exact absurd rfl hsame.1

theorem Whole.lt_of_wide (hwide : cell.isWide = true) : col + 1 < numCols := by
  obtain ⟨next, hnext, -⟩ := (h.paired.opens_iff col).mp ⟨cell, hcell, hwide⟩
  exact h.length ▸ (List.getElem?_eq_some_iff.mp hnext).1

theorem Whole.pos_of_spacer (hspacer : cell.isSpacer = true) : col > 0 := by
  apply Nat.pos_of_ne_zero
  intro hzero
  subst hzero
  exact absurd (h.paired.getElem_zero hcell) (by simp [hspacer])

end

theorem resetSpacerPair_spec (hreset : row.resetSpacerPair col bg = some after) :
    after.Whole numCols ∧ after.OpenAt col ∧ Loosened row after := by
  obtain ⟨cell, hcell, hreset⟩ := Option.bind_eq_some_iff.mp hreset
  by_cases hspacer : cell.isSpacer = true
  · have hpos := h.pos_of_spacer hcell hspacer
    rw [if_pos ⟨hspacer, hpos⟩] at hreset
    obtain ⟨hwhole, hnarrow, hloose⟩ := blankBoth_before h hcell hspacer hpos hreset
    exact ⟨hwhole, hnarrow.openAt, hloose⟩
  · rw [if_neg fun hc => hspacer hc.1] at hreset
    obtain rfl := Option.some.inj hreset
    refine ⟨h, ?_, Loosened.refl row⟩
    intro other hother
    obtain rfl := Option.some.inj (hcell.symm.trans hother)
    exact Bool.not_eq_true _ ▸ hspacer

theorem resetWidePair_spec (hreset : row.resetWidePair numCols col bg = some after) :
    after.Whole numCols ∧ (row.OpenAt col → after.NarrowAt col) ∧ Loosened row after := by
  obtain ⟨cell, hcell, hreset⟩ := Option.bind_eq_some_iff.mp hreset
  by_cases hwide : cell.isWide = true
  · rw [if_pos ⟨hwide, h.lt_of_wide hcell hwide⟩] at hreset
    obtain ⟨hwhole, hnarrow, hloose⟩ := blankBoth_after h hcell hwide hreset
    exact ⟨hwhole, fun _ => hnarrow, hloose⟩
  · rw [if_neg fun hc => hwide hc.1] at hreset
    obtain rfl := Option.some.inj hreset
    refine ⟨h, fun hopen other hother => ?_, Loosened.refl row⟩
    obtain rfl := Option.some.inj (hcell.symm.trans hother)
    exact ⟨Bool.not_eq_true _ ▸ hwide, hopen cell hother⟩

theorem resetWideCharAtStartBoundary_spec
    (hreset : row.resetWideCharAtStartBoundary numCols col bg = some after) :
    after.Whole numCols ∧ after.NarrowAt col ∧ Loosened row after := by
  obtain ⟨middle, hspacer, hwide⟩ := Option.bind_eq_some_iff.mp hreset
  obtain ⟨hmiddle, hopen, hloose⟩ := resetSpacerPair_spec (touchAll_whole h) hspacer
  obtain ⟨hafter, hnarrow, hloose'⟩ := resetWidePair_spec hmiddle hwide
  exact ⟨hafter, hnarrow hopen, ((loosened_touchAll row).trans hloose).trans hloose'⟩

end

theorem lt_of_resetWideCharAtStartBoundary (h : row.Kept numCols)
    (hreset : row.resetWideCharAtStartBoundary numCols col bg = some after) : col < numCols := by
  obtain ⟨middle, hspacer, -⟩ := Option.bind_eq_some_iff.mp hreset
  obtain ⟨cell, hcell, -⟩ := Option.bind_eq_some_iff.mp hspacer
  exact h.length ▸ (List.getElem?_eq_some_iff.mp hcell).1

theorem resetWideCharAtEndBoundary_spec (h : row.Whole numCols)
    (hreset : row.resetWideCharAtEndBoundary col bg = some after) :
    after.Whole numCols ∧ after.OpenAt col ∧ Loosened row after := by
  obtain ⟨hafter, hopen, hloose⟩ := resetSpacerPair_spec (touchAll_whole h) hreset
  exact ⟨hafter, hopen, (loosened_touchAll row).trans hloose⟩

theorem resetOtherHalf_spec (h : row.Whole numCols)
    (hreset : row.resetOtherHalf numCols col bg = some after) :
    after.Whole numCols ∧ after.NarrowAt col ∧ Loosened row after := by
  obtain ⟨cell, hcell, hreset⟩ := Option.bind_eq_some_iff.mp hreset
  by_cases hspacer : cell.isSpacer = true
  · have hpos := h.pos_of_spacer hcell hspacer
    rw [if_pos ⟨hspacer, hpos⟩] at hreset
    exact blankBoth_before h hcell hspacer hpos hreset
  · rw [if_neg fun hc => hspacer hc.1] at hreset
    by_cases hwide : cell.isWide = true
    · rw [if_pos ⟨hwide, h.lt_of_wide hcell hwide⟩] at hreset
      exact blankBoth_after h hcell hwide hreset
    · rw [if_neg fun hc => hwide hc.1] at hreset
      obtain rfl := Option.some.inj hreset
      refine ⟨h, fun other hother => ?_, Loosened.refl row⟩
      obtain rfl := Option.some.inj (hcell.symm.trans hother)
      exact ⟨Bool.not_eq_true _ ▸ hwide, Bool.not_eq_true _ ▸ hspacer⟩

theorem resetWideCharBefore_spec (h : row.Whole numCols)
    (hreset : row.resetWideCharBefore numCols col bg = some after) :
    after.Whole numCols ∧ after.OpenAt col ∧ Loosened row after := by
  unfold resetWideCharBefore at hreset
  split at hreset
  next => exact resetWideCharAtEndBoundary_spec h hreset
  next hcol =>
    obtain rfl := Option.some.inj hreset
    refine ⟨h, ?_, Loosened.refl row⟩
    intro cell hcell
    have hlt := (List.getElem?_eq_some_iff.mp hcell).1
    exact absurd (h.length ▸ hlt) hcol

end Row

end InfiniShell.Terminal
