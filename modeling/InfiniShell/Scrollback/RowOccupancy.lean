import InfiniShell.Scrollback.Storage

namespace InfiniShell.Terminal

namespace Row

variable (row : Row)

/-- A mutable slice of the cells from `start` up to `stop`, and what is written through it; `none` is a panic. -/
def access (start stop occ : Nat) (write : Nat → Cell → Cell) : Option Row :=
  if start ≤ stop ∧ stop ≤ row.inner.length then
    some ⟨row.inner.mapIdx fun i cell => if start ≤ i ∧ i < stop then write i cell else cell, occ⟩
  else none

section Access

variable (write : Nat → Cell → Cell)

def indexMut (i : Nat) : Option Row := row.access i (i + 1) (max row.occ (i + 1)) write

def rangeMut (start stop : Nat) : Option Row := row.access start stop (max row.occ stop) write

def rangeToMut (stop : Nat) : Option Row := row.access 0 stop (max row.occ stop) write

def rangeFromMut (start : Nat) : Option Row := row.access start row.inner.length row.inner.length write

def rangeFullMut : Option Row := row.access 0 row.inner.length row.inner.length write

def rangeToInclusiveMut (last : Nat) : Option Row := row.access 0 (last + 1) (max row.occ last) write

def getMut (i : Nat) : Option Row := if i < row.inner.length then row.indexMut write i else some row

def lastMut : Option Row := row.access (row.inner.length - 1) row.inner.length row.inner.length write

def iterMut : Option Row := row.access 0 row.inner.length row.inner.length write

end Access

/-- The removed cells up to the last one that is not empty or ends the prompt. -/
def removedCells (columns : Nat) : List Cell :=
  ((row.inner.drop columns).reverse.dropWhile fun cell => cell.isEmpty && cell.endOfPromptMarker.isNone).reverse

/-- `shrink`, with the cells it returns. -/
def shrink (columns : Nat) : Row × Option (List Cell) :=
  if row.inner.length ≤ columns then (row, none)
  else
    (⟨row.inner.take columns, min row.occ columns⟩,
      if row.removedCells columns = [] then none else some (row.removedCells columns))

def truncate (columns : Nat) : Row := { row with inner := row.inner.take columns }

def append (vec : List Cell) : Row := ⟨row.inner ++ vec, row.occ + vec.length⟩

def appendFront (vec : List Cell) : Row := ⟨vec ++ row.inner, row.occ + vec.length⟩

def frontSplitOff (split : Nat) : Option (Row × List Cell) :=
  if split ≤ row.inner.length then some (⟨row.inner.drop split, row.occ - split⟩, row.inner.take split) else none

end Row

inductive RowOp where
  | indexMut (i : Nat) (write : Nat → Cell → Cell)
  | rangeMut (start stop : Nat) (write : Nat → Cell → Cell)
  | rangeToMut (stop : Nat) (write : Nat → Cell → Cell)
  | rangeFromMut (start : Nat) (write : Nat → Cell → Cell)
  | rangeFullMut (write : Nat → Cell → Cell)
  | rangeToInclusiveMut (last : Nat) (write : Nat → Cell → Cell)
  | getMut (i : Nat) (write : Nat → Cell → Cell)
  | lastMut (write : Nat → Cell → Cell)
  | iterMut (write : Nat → Cell → Cell)
  | reset (template : Cell)
  | grow (columns : Nat)
  | shrink (columns : Nat)
  | truncate (columns : Nat)
  | append (vec : List Cell)
  | appendFront (vec : List Cell)
  | frontSplitOff (split : Nat)

structure TrackedRow where
  row : Row
  bg : Color

namespace TrackedRow

def new (columns : Nat) : TrackedRow := ⟨.new columns, .named .background⟩

def blank (s : TrackedRow) : Cell := .ofColor s.bg

def withRow (s : TrackedRow) (row : Row) : TrackedRow := { s with row }

/-- `none` is a panic. -/
def step (s : TrackedRow) : RowOp → Option TrackedRow
  | .indexMut i write => (s.row.indexMut write i).map s.withRow
  | .rangeMut start stop write => (s.row.rangeMut write start stop).map s.withRow
  | .rangeToMut stop write => (s.row.rangeToMut write stop).map s.withRow
  | .rangeFromMut start write => (s.row.rangeFromMut write start).map s.withRow
  | .rangeFullMut write => (s.row.rangeFullMut write).map s.withRow
  | .rangeToInclusiveMut last write => (s.row.rangeToInclusiveMut write last).map s.withRow
  | .getMut i write => (s.row.getMut write i).map s.withRow
  | .lastMut write => (s.row.lastMut write).map s.withRow
  | .iterMut write => (s.row.iterMut write).map s.withRow
  | .reset template => (s.row.reset template).map fun row => ⟨row, template.bg⟩
  | .grow columns => some (s.withRow (s.row.grow columns))
  | .shrink columns => some (s.withRow (s.row.shrink columns).1)
  | .truncate columns => some (s.withRow (s.row.truncate columns))
  | .append vec => some (s.withRow (s.row.append vec))
  | .appendFront vec => some (s.withRow (s.row.appendFront vec))
  | .frontSplitOff split => (s.row.frontSplitOff split).map fun p => s.withRow p.1

def Reaches (columns : Nat) (ops : List RowOp) (s : TrackedRow) : Prop := ops.foldlM step (new columns) = some s

/-- `occ` bounds the cells that differ from the blank one. -/
structure Bounded (s : TrackedRow) : Prop where
  occ_le : s.row.occ ≤ s.row.inner.length
  blank_from : ∀ i cell, s.row.occ ≤ i → s.row.inner[i]? = some cell → cell = s.blank

/-- What the operation must leave alone for `occ` to stay a bound. -/
def Spares (s : TrackedRow) : RowOp → Prop
  | .rangeToInclusiveMut last write => last < s.row.occ ∨ write last s.blank = s.blank
  | .grow columns => columns ≤ s.row.inner.length ∨ s.bg = .named .background
  | .truncate columns => s.row.occ ≤ columns
  | .append vec => ∀ cell ∈ vec.drop (vec.length - (s.row.inner.length - s.row.occ)), cell = s.blank
  | _ => True

variable {s t : TrackedRow}

theorem new_bounded (columns : Nat) : (new columns).Bounded where
  occ_le := Nat.zero_le _
  blank_from := fun _ _ _ hcell => List.eq_of_mem_replicate (List.mem_of_getElem? hcell)

variable {start stop occ : Nat} {write : Nat → Cell → Cell} {row : Row}

theorem bounded_access_iff (h : s.Bounded)
    (hocc : s.row.occ ≤ occ) (hlen : occ ≤ s.row.inner.length) (hrow : s.row.access start stop occ write = some row) :
    (s.withRow row).Bounded ↔ ∀ i, occ ≤ i → start ≤ i → i < stop → write i s.blank = s.blank := by
  unfold Row.access at hrow
  by_cases hrange : start ≤ stop ∧ stop ≤ s.row.inner.length
  · rw [if_pos hrange, Option.some.injEq] at hrow
    subst hrow
    constructor
    · intro hbounded i hi hstart hstop
      have hlt : i < s.row.inner.length := by omega
      have hget := List.getElem?_eq_getElem hlt
      have hblank := h.blank_from i _ (by omega) hget
      have hwritten := hbounded.blank_from i (write i s.row.inner[i]) hi (by
        simp only [withRow, List.getElem?_mapIdx, hget, Option.map_some, if_pos (And.intro hstart hstop)])
      rw [hblank] at hwritten
      exact hwritten
    · intro hwrite
      refine ⟨by simpa [withRow] using hlen, ?_⟩
      intro i cell hi hcell
      simp only [withRow, List.getElem?_mapIdx, Option.map_eq_some_iff] at hi hcell
      obtain ⟨old, hold, hcell⟩ := hcell
      have hblank := h.blank_from i old (by omega) hold
      by_cases hin : start ≤ i ∧ i < stop
      · rw [if_pos hin, hblank] at hcell
        exact hcell ▸ hwrite i hi hin.1 hin.2
      · rw [if_neg hin, hblank] at hcell
        exact hcell ▸ rfl
  · rw [if_neg hrange] at hrow
    cases hrow

theorem access_stop_le {row row' : Row}
    (hrow : row.access start stop occ write = some row') : stop ≤ row.inner.length := by
  unfold Row.access at hrow
  split at hrow
  next h => exact h.2
  next => cases hrow

variable (h : s.Bounded)
include h

theorem Bounded.access (hocc : s.row.occ ≤ occ) (hlen : occ ≤ s.row.inner.length) (hstop : stop ≤ occ)
    (hrow : s.row.access start stop occ write = some row) : (s.withRow row).Bounded := by
  apply (bounded_access_iff h hocc hlen hrow).mpr
  intro i hi _ hlt
  omega

theorem bounded_rangeToInclusive_iff {last : Nat} (hrow : s.row.rangeToInclusiveMut write last = some row) :
    (s.withRow row).Bounded ↔ last < s.row.occ ∨ write last s.blank = s.blank := by
  have hlast := access_stop_le hrow
  have hocc := h.occ_le
  rw [bounded_access_iff h (Nat.le_max_left _ _) (by omega) hrow]
  constructor
  · intro hwrite
    by_cases hlt : last < s.row.occ
    · exact .inl hlt
    · exact .inr (hwrite last (by omega) (Nat.zero_le _) (Nat.lt_succ_self _))
  · intro hspared i hi _ hlt
    obtain rfl : i = last := by omega
    cases hspared with
    | inl hcounted => omega
    | inr hblank => exact hblank

theorem bounded_grow_iff (columns : Nat) :
    (s.withRow (s.row.grow columns)).Bounded ↔ columns ≤ s.row.inner.length ∨ s.bg = .named .background := by
  have hocc := h.occ_le
  constructor
  · intro hbounded
    by_cases hle : columns ≤ s.row.inner.length
    · exact .inl hle
    · apply Or.inr
      have hadded : (s.row.grow columns).inner[s.row.inner.length]? = some {} := by
        simp only [Row.grow, List.getElem?_append_right (Nat.le_refl _), Nat.sub_self, List.getElem?_replicate]
        rw [if_pos (by omega)]
      have hblank := hbounded.blank_from _ _ hocc hadded
      exact (congrArg Cell.bg hblank).symm
  · intro hspared
    refine ⟨Nat.le_trans hocc (by simp [withRow, Row.grow]), ?_⟩
    intro i cell hi hcell
    by_cases hlt : i < s.row.inner.length
    · rw [withRow, Row.grow, List.getElem?_append_left hlt] at hcell
      exact h.blank_from i cell hi hcell
    · rw [withRow, Row.grow, List.getElem?_append_right (by omega)] at hcell
      have hadded := List.mem_of_getElem? hcell
      cases hspared with
      | inl hle =>
        rw [Nat.sub_eq_zero_of_le hle] at hadded
        cases hadded
      | inr hbg =>
        rw [List.eq_of_mem_replicate hadded, blank, withRow, hbg]
        rfl

theorem Bounded.shrink (columns : Nat) : (s.withRow (s.row.shrink columns).1).Bounded := by
  unfold Row.shrink
  have hocc := h.occ_le
  by_cases hle : s.row.inner.length ≤ columns
  · rw [if_pos hle]
    exact h
  · rw [if_neg hle]
    refine ⟨by simp only [withRow, List.length_take]; omega, ?_⟩
    intro i cell hi hcell
    simp only [withRow, List.getElem?_take] at hi hcell
    split at hcell
    next => exact h.blank_from i cell (by omega) hcell
    next => cases hcell

theorem bounded_truncate_iff (columns : Nat) :
    (s.withRow (s.row.truncate columns)).Bounded ↔ s.row.occ ≤ columns := by
  have hocc := h.occ_le
  constructor
  · intro hbounded
    have hle := hbounded.occ_le
    simp only [withRow, Row.truncate, List.length_take] at hle
    omega
  · intro hle
    refine ⟨by simp only [withRow, Row.truncate, List.length_take]; omega, ?_⟩
    intro i cell hi hcell
    simp only [withRow, Row.truncate, List.getElem?_take] at hi hcell
    split at hcell
    next => exact h.blank_from i cell hi hcell
    next => cases hcell

theorem bounded_append_iff (vec : List Cell) : (s.withRow (s.row.append vec)).Bounded ↔
      ∀ cell ∈ vec.drop (vec.length - (s.row.inner.length - s.row.occ)), cell = s.blank := by
  have hocc := h.occ_le
  constructor
  · intro hbounded cell hcell
    obtain ⟨i, hi⟩ := List.mem_iff_getElem?.mp hcell
    rw [List.getElem?_drop] at hi
    apply hbounded.blank_from (s.row.inner.length + (vec.length - (s.row.inner.length - s.row.occ) + i)) cell
    · simp only [withRow, Row.append]
      omega
    · rw [withRow, Row.append, List.getElem?_append_right (Nat.le_add_right _ _), Nat.add_sub_cancel_left]
      exact hi
  · intro hvec
    refine ⟨by simp only [withRow, Row.append, List.length_append]; omega, ?_⟩
    intro i cell hi hcell
    simp only [withRow, Row.append] at hi hcell
    by_cases hlt : i < s.row.inner.length
    · rw [List.getElem?_append_left hlt] at hcell
      exact h.blank_from i cell (by omega) hcell
    · rw [List.getElem?_append_right (by omega)] at hcell
      apply hvec
      apply List.mem_iff_getElem?.mpr
      refine ⟨i - s.row.inner.length - (vec.length - (s.row.inner.length - s.row.occ)), ?_⟩
      rw [List.getElem?_drop, Nat.add_sub_cancel' (by omega)]
      exact hcell

theorem Bounded.appendFront (vec : List Cell) : (s.withRow (s.row.appendFront vec)).Bounded := by
  have hocc := h.occ_le
  refine ⟨by simp only [withRow, Row.appendFront, List.length_append]; omega, ?_⟩
  intro i cell hi hcell
  simp only [withRow, Row.appendFront] at hi hcell
  rw [List.getElem?_append_right (by omega)] at hcell
  exact h.blank_from _ cell (by omega) hcell

theorem Bounded.frontSplitOff {split : Nat} {p : Row × List Cell}
    (hp : s.row.frontSplitOff split = some p) : (s.withRow p.1).Bounded := by
  have hocc := h.occ_le
  unfold Row.frontSplitOff at hp
  by_cases hsplit : split ≤ s.row.inner.length
  · rw [if_pos hsplit, Option.some.injEq] at hp
    subst hp
    refine ⟨by simp only [withRow, List.length_drop]; omega, ?_⟩
    intro i cell hi hcell
    simp only [withRow, List.getElem?_drop] at hi hcell
    exact h.blank_from _ cell (by omega) hcell
  · rw [if_neg hsplit] at hp
    cases hp

theorem Bounded.sound : s.row.Sound s.row.inner.length where
  length := rfl
  occ_le := h.occ_le
  clean := by
    refine ⟨s.bg, ?_⟩
    intro cell hcell
    obtain ⟨i, hi⟩ := List.mem_iff_getElem?.mp hcell
    rw [List.getElem?_drop] at hi
    exact h.blank_from _ cell (Nat.le_add_right _ _) hi

theorem Bounded.reset {template : Cell} (hrow : s.row.reset template = some row) :
    Bounded ⟨row, template.bg⟩ := by
  have hne : s.row.inner ≠ [] := by
    intro hnil
    rw [Row.reset, hnil] at hrow
    cases hrow
  rw [h.sound.reset (List.length_pos_iff.mpr hne), Option.some.injEq] at hrow
  subst hrow
  refine ⟨Nat.zero_le _, ?_⟩
  intro i cell _ hcell
  exact List.eq_of_mem_replicate (List.mem_of_getElem? hcell)

/-- An operation on a bounded row leaves it bounded exactly when it spares the cells it does not count. -/
theorem step_bounded_iff (op : RowOp) (hstep : s.step op = some t) : t.Bounded ↔ s.Spares op := by
  have hocc := h.occ_le
  cases op with
  | reset template =>
    obtain ⟨row, hrow, rfl⟩ := Option.map_eq_some_iff.mp hstep
    exact iff_of_true (h.reset hrow) trivial
  | grow columns =>
    cases hstep
    exact bounded_grow_iff h columns
  | shrink columns =>
    cases hstep
    exact iff_of_true (h.shrink columns) trivial
  | truncate columns =>
    cases hstep
    exact bounded_truncate_iff h columns
  | append vec =>
    cases hstep
    exact bounded_append_iff h vec
  | appendFront vec =>
    cases hstep
    exact iff_of_true (h.appendFront vec) trivial
  | frontSplitOff split =>
    obtain ⟨p, hp, rfl⟩ := Option.map_eq_some_iff.mp hstep
    exact iff_of_true (h.frontSplitOff hp) trivial
  | rangeToInclusiveMut last write =>
    obtain ⟨row, hrow, rfl⟩ := Option.map_eq_some_iff.mp hstep
    exact bounded_rangeToInclusive_iff h hrow
  | indexMut i write =>
    obtain ⟨row, hrow, rfl⟩ := Option.map_eq_some_iff.mp hstep
    have hstop := access_stop_le hrow
    exact iff_of_true (h.access (by omega) (by omega) (by omega) hrow) trivial
  | rangeMut start stop write =>
    obtain ⟨row, hrow, rfl⟩ := Option.map_eq_some_iff.mp hstep
    have hstop := access_stop_le hrow
    exact iff_of_true (h.access (by omega) (by omega) (by omega) hrow) trivial
  | rangeToMut stop write =>
    obtain ⟨row, hrow, rfl⟩ := Option.map_eq_some_iff.mp hstep
    have hstop := access_stop_le hrow
    exact iff_of_true (h.access (by omega) (by omega) (by omega) hrow) trivial
  | getMut i write =>
    obtain ⟨row, hrow, rfl⟩ := Option.map_eq_some_iff.mp hstep
    unfold Row.getMut at hrow
    split at hrow
    next =>
      have hstop := access_stop_le hrow
      exact iff_of_true (h.access (by omega) (by omega) (by omega) hrow) trivial
    next =>
      cases hrow
      exact iff_of_true h trivial
  | rangeFromMut start write =>
    obtain ⟨row, hrow, rfl⟩ := Option.map_eq_some_iff.mp hstep
    exact iff_of_true (h.access hocc (Nat.le_refl _) (Nat.le_refl _) hrow) trivial
  | rangeFullMut write | lastMut write | iterMut write =>
    obtain ⟨row, hrow, rfl⟩ := Option.map_eq_some_iff.mp hstep
    exact iff_of_true (h.access hocc (Nat.le_refl _) (Nat.le_refl _) hrow) trivial

end TrackedRow

end InfiniShell.Terminal

namespace InfiniShell.Scrollback

open Terminal

/-- `occ` is a bound, so what scrollback reads of the row is all its content. -/
structure ShowsContent (s : TrackedRow) : Prop where
  bounded : s.Bounded
  dirty : ∃ cells, Row.dirtyCells s.row = some cells ∧
    ∀ (i : Nat) cell, s.row.inner[i]? = some cell → cell ≠ s.blank → cells[i]? = some cell

variable {s t : TrackedRow}

theorem showsContent_iff : ShowsContent s ↔ s.Bounded := by
  constructor
  · exact ShowsContent.bounded
  · intro h
    refine ⟨h, s.row.inner.take s.row.occ, if_pos h.occ_le, ?_⟩
    intro i cell hcell hcontent
    have hlt : i < s.row.occ := by
      apply Nat.lt_of_not_le
      intro hle
      exact hcontent (h.blank_from i cell hle hcell)
    rw [List.getElem?_take_of_lt hlt]
    exact hcell

theorem run_bounded_iff (h : s.Bounded) (ops : List RowOp) :
    (∀ done rest t, ops = done ++ rest → done.foldlM TrackedRow.step s = some t → t.Bounded) ↔
      ∀ done op rest t u, ops = done ++ op :: rest → done.foldlM TrackedRow.step s = some t →
        t.step op = some u → t.Spares op := by
  constructor
  · intro hall done op rest t u hops ht hu
    have hbounded := hall done (op :: rest) t hops ht
    apply (TrackedRow.step_bounded_iff hbounded op hu).mp
    apply hall (done ++ [op]) rest u
    · rw [hops, List.append_assoc]
      rfl
    · rw [List.foldlM_append, ht]
      simpa using hu
  · intro hall done
    induction done using List.reverseRecOn with
    | nil =>
      intro rest t _ ht
      cases ht
      exact h
    | append_singleton done op ih =>
      intro rest u hops hu
      rw [List.foldlM_append] at hu
      obtain ⟨t, ht, hu⟩ := Option.bind_eq_some_iff.mp hu
      have hu : t.step op = some u := by simpa using hu
      have hops : ops = done ++ op :: rest := by simpa using hops
      have hbounded := ih (op :: rest) t hops ht
      exact (TrackedRow.step_bounded_iff hbounded op hu).mpr (hall done op rest t u hops ht hu)

/-- Every state of a row shows its content exactly when no operation changes cells that `occ` does not count. -/
theorem shows_content_iff (columns : Nat) (ops : List RowOp) :
    (∀ done rest s, ops = done ++ rest → TrackedRow.Reaches columns done s → ShowsContent s) ↔
      ∀ done op rest s t, ops = done ++ op :: rest → TrackedRow.Reaches columns done s → s.step op = some t →
        s.Spares op := by
  simp only [showsContent_iff]
  exact run_bounded_iff (TrackedRow.new_bounded columns) ops

def clearedLeft : List RowOp := [.rangeToInclusiveMut 1 fun _ _ => .ofColor (.named .red)]

theorem inclusive_range_drops_content :
    ∃ s, TrackedRow.Reaches 3 clearedLeft s ∧ ¬ShowsContent s ∧
      s.row.inner[1]? = some (.ofColor (.named .red)) ∧
      Row.dirtyCells s.row = some [.ofColor (.named .red)] := by
  refine ⟨⟨⟨[.ofColor (.named .red), .ofColor (.named .red), {}], 1⟩, .named .background⟩, rfl, ?_, rfl, rfl⟩
  intro h
  have hblank := h.bounded.blank_from 1 _ (Nat.le_refl _) rfl
  cases hblank

end InfiniShell.Scrollback
