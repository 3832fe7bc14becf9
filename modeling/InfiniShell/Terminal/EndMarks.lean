import InfiniShell.Terminal.EditedRows

namespace InfiniShell.Terminal

open Collections

def Cell.endMark (cell : Cell) : Bool := cell.flags.wrapline || cell.flags.leadingWideCharSpacer

variable {cells after : List Cell} {bg : Color} {i : Nat}

def MarkedAt (cells : List Cell) (i : Nat) : Prop := ∃ cell, cells[i]? = some cell ∧ cell.endMark = true

instance : Decidable (MarkedAt cells i) := decidable_of_iff _ (Option.any_eq_true Cell.endMark cells[i]?)

theorem endMark_of_flags {cell : Cell} (h : cell.flags = {}) : cell.endMark = false := by
  rw [Cell.endMark, h]
  rfl

theorem MarkedAt.lt (h : MarkedAt cells i) : i < cells.length := by
  obtain ⟨cell, hcell, -⟩ := h
  exact (List.getElem?_eq_some_iff.mp hcell).1

theorem MarkedAt.of_getElem? {j : Nat} (h : MarkedAt after i) (heq : after[i]? = cells[j]?) : MarkedAt cells j := by
  obtain ⟨cell, hcell, hmark⟩ := h
  exact ⟨cell, heq ▸ hcell, hmark⟩

theorem not_markedAt_of_replicate {count : Nat} : ¬ MarkedAt (List.replicate count (Cell.ofColor bg)) i := by
  rintro ⟨cell, hcell, hmark⟩
  rw [List.eq_of_mem_replicate (List.mem_of_getElem? hcell)] at hmark
  cases hmark

theorem markedAt_blankWhere {p : Nat → Prop} [DecidablePred p] :
    MarkedAt (blankWhere p bg cells) i ↔ ¬ p i ∧ MarkedAt cells i := by
  rw [MarkedAt, MarkedAt, getElem?_blankWhere]
  by_cases hp : p i
  · have hnone : (Cell.ofColor bg).endMark = false := rfl
    simp [hp, hnone]
  · simp [hp]

def Unmarks (cells after : List Cell) : Prop := after.length = cells.length ∧ ∀ i, MarkedAt after i → MarkedAt cells i

theorem Unmarks.refl (cells : List Cell) : Unmarks cells cells := ⟨rfl, fun _ h => h⟩

theorem Unmarks.trans {middle : List Cell} (h : Unmarks cells middle) (h' : Unmarks middle after) :
    Unmarks cells after :=
  ⟨h'.1.trans h.1, fun i hi => h.2 i (h'.2 i hi)⟩

theorem unmarks_set {old new : Cell} (hold : cells[i]? = some old) (hnew : new.endMark = true → old.endMark = true) :
    Unmarks cells (cells.set i new) := by
  refine ⟨List.length_set, ?_⟩
  rintro j ⟨cell, hcell, hmark⟩
  by_cases hj : i = j
  · subst hj
    rw [List.getElem?_set_self (List.getElem?_eq_some_iff.mp hold).1] at hcell
    obtain rfl := Option.some.inj hcell
    exact ⟨old, hold, hnew hmark⟩
  · rw [List.getElem?_set_ne hj] at hcell
    exact ⟨cell, hcell, hmark⟩

theorem unmarks_map {f : Cell → Cell} (hf : ∀ cell, (f cell).endMark = true → cell.endMark = true) :
    Unmarks cells (cells.map f) := by
  refine ⟨List.length_map _, ?_⟩
  rintro j ⟨cell, hcell, hmark⟩
  rw [List.getElem?_map] at hcell
  obtain ⟨old, hold, rfl⟩ := Option.map_eq_some_iff.mp hcell
  exact ⟨old, hold, hf old hmark⟩

namespace Row

variable {numCols col count : Nat} {row next : Row}

theorem put_unmarks {cell old : Cell} (hold : row.inner[i]? = some old)
    (hcell : cell.endMark = true → old.endMark = true) (hput : row.put i cell = some next) :
    Unmarks row.inner next.inner := by
  unfold put at hput
  split at hput
  next =>
    obtain rfl := Option.some.inj hput
    exact unmarks_set hold hcell
  next => cases hput

theorem putBlank_unmarks (hput : row.put i (Cell.ofColor bg) = some next) : Unmarks row.inner next.inner := by
  have hlt : i < row.inner.length := by
    unfold put at hput
    split at hput
    next hlt => exact hlt
    next => cases hput
  apply put_unmarks (List.getElem?_eq_getElem hlt) _ hput
  intro hmark
  cases hmark

variable {f : Cell → Cell}

theorem modify_unmarks (hf : ∀ cell, (f cell).endMark = true → cell.endMark = true)
    (hmodify : row.modify i f = some next) : Unmarks row.inner next.inner := by
  obtain ⟨cell, hcell, hput⟩ := Option.bind_eq_some_iff.mp hmodify
  exact put_unmarks hcell (hf cell) hput

theorem blankBoth_unmarks {j : Nat} (hblank : row.blankBoth i j bg = some next) : Unmarks row.inner next.inner := by
  obtain ⟨middle, hi, hj⟩ := Option.bind_eq_some_iff.mp hblank
  exact (putBlank_unmarks hi).trans (putBlank_unmarks hj)

theorem resetSpacerPair_unmarks (hreset : row.resetSpacerPair col bg = some next) : Unmarks row.inner next.inner := by
  obtain ⟨cell, -, hreset⟩ := Option.bind_eq_some_iff.mp hreset
  split at hreset
  next => exact blankBoth_unmarks hreset
  next => exact Option.some.inj hreset ▸ Unmarks.refl _

theorem resetWidePair_unmarks (hreset : row.resetWidePair numCols col bg = some next) :
    Unmarks row.inner next.inner := by
  obtain ⟨cell, -, hreset⟩ := Option.bind_eq_some_iff.mp hreset
  split at hreset
  next => exact blankBoth_unmarks hreset
  next => exact Option.some.inj hreset ▸ Unmarks.refl _

theorem resetWideCharAtStartBoundary_unmarks (hreset : row.resetWideCharAtStartBoundary numCols col bg = some next) :
    Unmarks row.inner next.inner := by
  obtain ⟨middle, hspacer, hwide⟩ := Option.bind_eq_some_iff.mp hreset
  have hspacer' := resetSpacerPair_unmarks hspacer
  exact hspacer'.trans (resetWidePair_unmarks hwide)

theorem resetWideCharAtEndBoundary_unmarks (hreset : row.resetWideCharAtEndBoundary col bg = some next) :
    Unmarks row.inner next.inner := by
  have hunmarks := resetSpacerPair_unmarks hreset
  exact hunmarks

theorem resetWideCharBefore_unmarks (hreset : row.resetWideCharBefore numCols col bg = some next) :
    Unmarks row.inner next.inner := by
  unfold resetWideCharBefore at hreset
  split at hreset
  next => exact resetWideCharAtEndBoundary_unmarks hreset
  next => exact Option.some.inj hreset ▸ Unmarks.refl _

theorem resetOtherHalf_unmarks (hreset : row.resetOtherHalf numCols col bg = some next) :
    Unmarks row.inner next.inner := by
  obtain ⟨cell, -, hreset⟩ := Option.bind_eq_some_iff.mp hreset
  split at hreset
  next => exact blankBoth_unmarks hreset
  next =>
    split at hreset
    next => exact blankBoth_unmarks hreset
    next => exact Option.some.inj hreset ▸ Unmarks.refl _

variable {start stop : Nat}

theorem markedAt_filled (hstart : start ≤ stop) (hstop : stop ≤ row.inner.length)
    (h : MarkedAt (row.filled start stop bg) i) : MarkedAt row.inner i ∧ ¬ (start ≤ i ∧ i < stop) := by
  have hlen : (row.inner.take start ++ List.replicate (stop - start) (Cell.ofColor bg)).length = stop := by
    simp
    omega
  obtain ⟨cell, hcell, hmark⟩ := h
  rw [filled, List.getElem?_append] at hcell
  split at hcell
  next hlt =>
    rw [List.getElem?_append] at hcell
    split at hcell
    next hlt' =>
      rw [List.getElem?_take] at hcell
      split at hcell
      next hi => exact ⟨⟨cell, hcell, hmark⟩, by omega⟩
      next => cases hcell
    next => exact absurd ⟨cell, hcell, hmark⟩ not_markedAt_of_replicate
  next hge =>
    rw [List.getElem?_drop, hlen, Nat.add_sub_cancel' (by omega)] at hcell
    exact ⟨⟨cell, hcell, hmark⟩, by omega⟩

theorem fill_marks (hfill : row.fill start stop bg = some next) : next.inner.length = row.inner.length ∧
      ∀ i, MarkedAt next.inner i → MarkedAt row.inner i ∧ ¬ (start ≤ i ∧ i < stop) := by
  unfold fill at hfill
  split at hfill
  next hc =>
    obtain rfl := Option.some.inj hfill
    exact ⟨length_filled bg hc.1 hc.2, fun i hi => markedAt_filled hc.1 hc.2 hi⟩
  next => cases hfill

theorem fill_unmarks (hfill : row.fill start stop bg = some next) : Unmarks row.inner next.inner :=
  ⟨(fill_marks hfill).1, fun i hi => ((fill_marks hfill).2 i hi).1⟩

theorem fillFrom_unmarks (hfill : row.fillFrom start bg = some next) : Unmarks row.inner next.inner := by
  obtain ⟨filled, hfilled, rfl⟩ := Option.map_eq_some_iff.mp hfill
  have hunmarks := fill_unmarks hfilled
  exact hunmarks

theorem fillThrough_unmarks {last : Nat} (hfill : row.fillThrough last bg = some next) :
    Unmarks row.inner next.inner := by
  obtain ⟨filled, hfilled, rfl⟩ := Option.map_eq_some_iff.mp hfill
  have hunmarks := fill_unmarks hfilled
  exact hunmarks

theorem eraseChars_unmarks (herase : row.eraseChars numCols col count bg = some next) :
    Unmarks row.inner next.inner := by
  unfold eraseChars at herase
  split at herase
  next => exact Option.some.inj herase ▸ Unmarks.refl _
  next =>
    obtain ⟨first, hstart, herase⟩ := Option.bind_eq_some_iff.mp herase
    obtain ⟨second, hstop, hfill⟩ := Option.bind_eq_some_iff.mp herase
    exact ((resetWideCharAtStartBoundary_unmarks hstart).trans (resetWideCharBefore_unmarks hstop)).trans
      (fill_unmarks hfill)

theorem clearLine_unmarks {mode : LineClearMode} (hclear : row.clearLine numCols col mode bg = some next) :
    Unmarks row.inner next.inner := by
  cases mode with
  | right =>
    obtain ⟨first, hstart, hfill⟩ := Option.bind_eq_some_iff.mp hclear
    exact (resetWideCharAtStartBoundary_unmarks hstart).trans (fillFrom_unmarks hfill)
  | left =>
    obtain ⟨first, hstop, hfill⟩ := Option.bind_eq_some_iff.mp hclear
    exact (resetWideCharBefore_unmarks hstop).trans (fillThrough_unmarks hfill)
  | all => exact fillFrom_unmarks hclear

theorem clearUpTo_unmarks (hclear : row.clearUpTo numCols col bg = some next) : Unmarks row.inner next.inner := by
  obtain ⟨first, hstop, hfill⟩ := Option.bind_eq_some_iff.mp hclear
  exact (resetWideCharBefore_unmarks hstop).trans (fill_unmarks hfill)

theorem reset_unmarks {template : Cell} (hreset : row.reset template = some next) :
    Unmarks row.inner next.inner := by
  obtain ⟨last, -, hreset⟩ := Option.bind_eq_some_iff.mp hreset
  simp only at hreset
  generalize (if last.discriminant ≠ template.discriminant then row.inner.length else row.occ) = occ at hreset
  split at hreset
  next hocc =>
    obtain rfl := Option.some.inj hreset
    have hmap : Unmarks (row.inner.take occ) ((row.inner.take occ).map (·.reset template)) := by
      apply unmarks_map
      intro cell hmark
      cases hmark
    refine ⟨by simp; omega, ?_⟩
    rintro i ⟨cell, hcell, hmark⟩
    rw [List.getElem?_append] at hcell
    split at hcell
    next hlt =>
      obtain ⟨old, hold, hmark'⟩ := hmap.2 i ⟨cell, hcell, hmark⟩
      rw [List.getElem?_take] at hold
      split at hold
      next => exact ⟨old, hold, hmark'⟩
      next => cases hold
    next hge =>
      have hlen : ((row.inner.take occ).map (·.reset template)).length = occ := by
        simp
        omega
      rw [hlen] at hge hcell
      rw [List.getElem?_drop, Nat.add_sub_cancel' (by omega)] at hcell
      exact ⟨cell, hcell, hmark⟩
  next => cases hreset

structure MarksIn (numCols : Nat) (p : Nat → Prop) (row : Row) : Prop where
  length : row.inner.length = numCols
  marked : ∀ i, MarkedAt row.inner i → p i

/-- Only the last cell tells that the line goes on in the next row. -/
def EndMarked (numCols : Nat) (row : Row) : Prop := row.MarksIn numCols fun i => i + 1 = numCols

variable {p p' : Nat → Prop}

section

variable (h : row.MarksIn numCols p)
include h

theorem MarksIn.unmarks (hunmarks : Unmarks row.inner next.inner) : next.MarksIn numCols p :=
  ⟨hunmarks.1.trans h.length, fun i hi => h.marked i (hunmarks.2 i hi)⟩

theorem MarksIn.mono (hp : ∀ i, p i → p' i) : row.MarksIn numCols p' :=
  ⟨h.length, fun i hi => hp i (h.marked i hi)⟩

theorem MarksIn.put {cell : Cell} (hp : ∀ j, p j → j ≠ i → p' j)
    (hcell : cell.endMark = true → i < numCols → p' i) (hput : row.put i cell = some next) :
    next.MarksIn numCols p' := by
  unfold Row.put at hput
  split at hput
  next hlt =>
    obtain rfl := Option.some.inj hput
    refine ⟨List.length_set.trans h.length, ?_⟩
    rintro j ⟨marked, hmarked, hmark⟩
    by_cases hj : i = j
    · subst hj
      rw [List.getElem?_set_self hlt] at hmarked
      exact hcell (Option.some.inj hmarked ▸ hmark) (h.length ▸ hlt)
    · rw [List.getElem?_set_ne hj] at hmarked
      exact hp j (h.marked j ⟨marked, hmarked, hmark⟩) (Ne.symm hj)
  next => cases hput

theorem MarksIn.modify (hp : ∀ j, p j → j ≠ i → p' j)
    (hf : ∀ cell, row.inner[i]? = some cell → (f cell).endMark = true → i < numCols → p' i)
    (hmodify : row.modify i f = some next) : next.MarksIn numCols p' := by
  obtain ⟨cell, hcell, hput⟩ := Option.bind_eq_some_iff.mp hmodify
  exact h.put hp (hf cell hcell) hput

theorem MarksIn.write (hp : ∀ j, p j → j ≠ col → p' j)
    (hf : ∀ cell, (f cell).endMark = true → col < numCols → p' col)
    (hwrite : row.write numCols col bg f = some next) : next.MarksIn numCols p' := by
  obtain ⟨opened, hreset, hmodify⟩ := Option.bind_eq_some_iff.mp hwrite
  exact (h.unmarks (resetOtherHalf_unmarks hreset)).modify hp (fun cell _ => hf cell) hmodify

end

theorem touchAll_shiftRight {source destination : Nat} :
    row.touchAll.shiftRight source destination count = row.shiftRight source destination count :=
  rfl

theorem EndMarked.shiftRight (h : row.EndMarked numCols) {d : Nat} (hd : col + d ≤ numCols)
    (hshift : row.shiftRight col (col + d) (numCols - (col + d)) = some next) :
    next.MarksIn numCols fun i => i + 1 = numCols ∨ col ≤ i ∧ i < col + d := by
  obtain ⟨hkept, hbefore, hbehind⟩ := shiftRight_to_end (touchAll_kept_of_length h.length) hd
    (touchAll_shiftRight.trans hshift)
  refine ⟨hkept.length, ?_⟩
  intro i hi
  by_cases hlt : i < col
  · have heq : next.inner[i]? = row.inner[i]? := by
      have hget := congrArg (fun l => l[i]?) hbefore
      simp only [List.getElem?_take, if_pos hlt] at hget
      exact hget
    exact Or.inl (h.marked i (hi.of_getElem? heq))
  · by_cases hgap : i < col + d
    · exact Or.inr ⟨by omega, hgap⟩
    · have hget := congrArg (fun l => l[i - (col + d)]?) hbehind
      simp only [List.getElem?_drop, List.getElem?_take] at hget
      rw [Nat.add_sub_cancel' (by omega)] at hget
      have hlen : i < numCols := hkept.length ▸ hi.lt
      rw [if_pos (by omega)] at hget
      have hlast := h.marked _ (hi.of_getElem? hget)
      exact Or.inl (by omega)

theorem EndMarked.makeRoom (h : row.EndMarked numCols) {width : Nat} (hcol : col + width < numCols)
    (hroom : row.makeRoom numCols width col bg = some next) :
    next.MarksIn numCols fun i => i + 1 = numCols ∨ col ≤ i ∧ i < col + width := by
  obtain ⟨first, hstart, hroom⟩ := Option.bind_eq_some_iff.mp hroom
  obtain ⟨second, hstop, hshift⟩ := Option.bind_eq_some_iff.mp hroom
  have hsecond := (MarksIn.unmarks h (resetWideCharAtStartBoundary_unmarks hstart)).unmarks
    (resetWideCharAtEndBoundary_unmarks hstop)
  have hcount : numCols - width - col = numCols - (col + width) := by omega
  rw [hcount] at hshift
  exact EndMarked.shiftRight hsecond (Nat.le_of_lt hcol) hshift

theorem EndMarked.insertBlank (h : row.EndMarked numCols) (hinsert : row.insertBlank numCols col count bg = some next) :
    next.EndMarked numCols := by
  obtain ⟨room, hroom, hinsert⟩ := Option.bind_eq_some_iff.mp hinsert
  obtain ⟨first, hstart, hinsert⟩ := Option.bind_eq_some_iff.mp hinsert
  obtain ⟨second, hstop, hinsert⟩ := Option.bind_eq_some_iff.mp hinsert
  obtain ⟨third, hshift, hfill⟩ := Option.bind_eq_some_iff.mp hinsert
  have hle : col + min count room ≤ numCols := by
    unfold checkedSub at hroom
    split at hroom
    next hcol =>
      obtain rfl := Option.some.inj hroom
      omega
    next => cases hroom
  have hsecond := (MarksIn.unmarks h (resetWideCharAtStartBoundary_unmarks hstart)).unmarks
    (resetWideCharBefore_unmarks hstop)
  have hthird := EndMarked.shiftRight hsecond hle hshift
  obtain ⟨hlength, hmarks⟩ := fill_marks hfill
  refine ⟨hlength.trans hthird.length, ?_⟩
  intro i hi
  obtain ⟨hmarked, houtside⟩ := hmarks i hi
  exact (hthird.marked i hmarked).resolve_right houtside

variable {columns : Nat}

theorem EndMarked.shrinkWithoutReflow (h : row.EndMarked numCols) (hlt : columns < numCols)
    (hshrink : row.shrinkWithoutReflow columns = some next) : next.EndMarked columns := by
  have hlength := h.length
  have htake : MarksIn columns (fun i => i + 1 = columns) ⟨row.inner.take columns, min row.occ columns⟩ := by
    refine ⟨by rw [List.length_take]; omega, ?_⟩
    rintro i ⟨cell, hcell, hmark⟩
    rw [List.getElem?_take] at hcell
    split at hcell
    next hi =>
      have hend := h.marked i ⟨cell, hcell, hmark⟩
      omega
    next => cases hcell
  simp only [Row.shrinkWithoutReflow, hlength, if_neg (Nat.not_le_of_lt hlt)] at hshrink
  split at hshrink
  next => exact Option.some.inj hshrink ▸ htake
  next =>
    obtain ⟨last, -, hshrink⟩ := Option.bind_eq_some_iff.mp hshrink
    split at hshrink
    next => exact htake.unmarks (putBlank_unmarks hshrink)
    next => exact Option.some.inj hshrink ▸ htake

theorem EndMarked.grow (h : row.EndMarked numCols) (hlt : numCols < columns)
    (hlast : ¬ MarkedAt row.inner (numCols - 1)) : (row.grow columns).EndMarked columns := by
  have hlength := h.length
  refine ⟨by simp [Row.grow]; omega, ?_⟩
  rintro i ⟨cell, hcell, hmark⟩
  rw [Row.grow, List.getElem?_append] at hcell
  split at hcell
  next hi =>
    have hmarked : MarkedAt row.inner i := ⟨cell, hcell, hmark⟩
    have hend := h.marked i hmarked
    have hi' : i = numCols - 1 := by omega
    exact absurd (hi' ▸ hmarked) hlast
  next =>
    rw [List.eq_of_mem_replicate (List.mem_of_getElem? hcell)] at hmark
    cases hmark

/-- The mark at the end of the row stays where it is, is pushed off, or goes with half of a wide character. -/
def DeletesMark (row : Row) (numCols col count : Nat) : Prop :=
  count = 0 ∨ numCols ≤ col + count ∨ (MarkedAt row.inner (numCols - 1) →
    ResetAtStart row.inner col (numCols - 1) ∨ ResetBefore row.inner (col + count) (numCols - 1))

instance (row : Row) (numCols col count : Nat) : Decidable (row.DeletesMark numCols col count) :=
  inferInstanceAs (Decidable (_ ∨ _ ∨ (_ → _)))

theorem markedAt_deleted {kept : List Cell} (hfits : col + count < kept.length)
    (h : MarkedAt (kept.take col ++ kept.drop (col + count) ++ List.replicate count (Cell.ofColor bg)) i) :
    MarkedAt kept i ∧ i < col ∨ MarkedAt kept (i + count) ∧ col ≤ i := by
  obtain ⟨cell, hcell, hmark⟩ := h
  have hlen : (kept.take col).length = col := by
    rw [List.length_take]
    omega
  rw [List.getElem?_append] at hcell
  split at hcell
  next =>
    rw [List.getElem?_append, hlen] at hcell
    split at hcell
    next hlt =>
      rw [List.getElem?_take, if_pos hlt] at hcell
      exact Or.inl ⟨⟨cell, hcell, hmark⟩, hlt⟩
    next hge =>
      have hindex : col + count + (i - col) = i + count := by omega
      rw [List.getElem?_drop, hindex] at hcell
      exact Or.inr ⟨⟨cell, hcell, hmark⟩, by omega⟩
  next => exact absurd ⟨cell, hcell, hmark⟩ not_markedAt_of_replicate

theorem EndMarked.deleteChars_iff (h : row.EndMarked numCols) (hcol : col < numCols)
    (hdelete : row.deleteChars numCols col count bg = some next) :
    next.EndMarked numCols ↔ row.DeletesMark numCols col count := by
  have hlength := h.length
  rw [DeletesMark]
  by_cases hcount : count = 0
  · rw [deleteChars, if_pos hcount] at hdelete
    obtain rfl := Option.some.inj hdelete
    exact iff_of_true h (Or.inl hcount)
  · rw [or_iff_right hcount]
    by_cases hend : numCols ≤ col + count
    · refine iff_of_true ?_ (Or.inl hend)
      have hinner := deleteChars_end_inner bg hlength hcol hend
      rw [hdelete] at hinner
      have hinner' := Option.some.inj hinner
      refine ⟨by rw [hinner']; simp [resetBoth]; omega, ?_⟩
      rintro i ⟨cell, hcell, hmark⟩
      rw [hinner', List.getElem?_append] at hcell
      split at hcell
      next hlt =>
        rw [List.getElem?_take] at hcell
        split at hcell
        next => exact h.marked i (markedAt_blankWhere.mp ⟨cell, hcell, hmark⟩).2
        next => cases hcell
      next => exact absurd ⟨cell, hcell, hmark⟩ not_markedAt_of_replicate
    · rw [or_iff_right hend]
      have hinner := deleteChars_inner bg hlength hcount (Nat.lt_of_not_le hend)
      rw [hdelete] at hinner
      have hinner' : next.inner = _ := Option.some.inj hinner
      have hkept : (resetBoth col (col + count) bg row.inner).length = numCols := by
        rw [resetBoth, length_blankWhere, hlength]
      have hlast : MarkedAt (resetBoth col (col + count) bg row.inner) (numCols - 1) ↔
          ¬ (ResetAtStart row.inner col (numCols - 1) ∨ ResetBefore row.inner (col + count) (numCols - 1)) ∧
            MarkedAt row.inner (numCols - 1) := markedAt_blankWhere
      constructor
      · intro hmarked hlastMarked
        by_contra hnot
        have hmoved : MarkedAt next.inner (numCols - 1 - count) := by
          apply (hlast.mpr ⟨hnot, hlastMarked⟩).of_getElem?
          rw [hinner', List.getElem?_append_left (by simp [hkept]; omega),
            List.getElem?_append_right (by simp [hkept]; omega), List.getElem?_drop]
          congr 1
          simp [hkept]
          omega
        have hend' := hmarked.marked _ hmoved
        omega
      · intro hsafe
        refine ⟨by rw [hinner']; simp [hkept]; omega, ?_⟩
        intro i hi
        rw [hinner'] at hi
        obtain ⟨hmarked, hlt⟩ | ⟨hmarked, -⟩ := markedAt_deleted (by omega) hi
        · exact h.marked i (markedAt_blankWhere.mp hmarked).2
        · have hrow := (markedAt_blankWhere.mp hmarked).2
          have hindex : i + count = numCols - 1 := by
            have hend' := h.marked _ hrow
            omega
          rw [hindex] at hmarked hrow
          exact absurd (hsafe hrow) (hlast.mp hmarked).1

end Row

end InfiniShell.Terminal
