import InfiniShell.Terminal.WideCells

namespace InfiniShell.Terminal

open Collections

namespace Row

variable {numCols : Nat} {row after : Row}

section

variable (h : row.Kept numCols)
include h

theorem foldlM_swapCells {f g : Nat → Nat} {offsets : List Nat} (hocc : row.occ = row.inner.length)
    (hswap : offsets.foldlM (fun row offset => row.swapCells (f offset) (g offset)) row = some after) :
    after.Kept numCols ∧
      after.inner = offsets.foldl (fun l offset => swapped l (f offset) (g offset)) row.inner := by
  induction offsets generalizing row with
  | nil =>
    obtain rfl := Option.some.inj hswap
    exact ⟨h, rfl⟩
  | cons offset offsets ih =>
    obtain ⟨middle, hfirst, hswap⟩ := Option.bind_eq_some_iff.mp hswap
    simp only [swapCells] at hfirst
    split at hfirst
    next =>
      obtain rfl := Option.some.inj hfirst
      have hlength : (swapped row.inner (f offset) (g offset)).length = row.inner.length := swapped_length _ _ _
      exact ih (Kept.full (hlength.trans h.length) (Nat.le_of_eq h.length.symm)) hlength.symm hswap
    next => cases hfirst

theorem shiftRight_spec {source d count : Nat}
    (hshift : row.shiftRight source (source + d) count = some after) :
    after.Kept numCols ∧ after.inner = (List.range count).reverse.foldl
      (fun l i => swapped l (source + d + i) (source + i)) row.inner := by
  have hfold := foldlM_swapCells (touchAll_kept h) rfl hshift
  exact hfold

theorem shiftLeft_spec {destination d count : Nat}
    (hshift : row.shiftLeft (destination + d) destination count = some after) :
    after.Kept numCols ∧ after.inner = (List.range count).foldl
      (fun l i => swapped l (destination + i) (destination + d + i)) row.inner := by
  have hfold := foldlM_swapCells (touchAll_kept h) rfl hshift
  exact hfold

theorem shiftRight_to_end {source d : Nat} (hd : source + d ≤ numCols)
    (hshift : row.shiftRight source (source + d) (numCols - (source + d)) = some after) :
    after.Kept numCols ∧ after.inner.take source = row.inner.take source ∧
      after.inner.drop (source + d) = (row.inner.take (numCols - d)).drop source := by
  obtain ⟨hkept, hinner⟩ := shiftRight_spec h hshift
  have hget := fun k => getElem?_swapRight source d (numCols - (source + d)) row.inner
    (by rw [h.length]; omega) k
  refine ⟨hkept, ?_, ?_⟩
  · apply List.ext_getElem?
    intro k
    rw [List.getElem?_take, List.getElem?_take, hinner]
    split
    next hk => exact (hget k).1 (Or.inl hk)
    next => rfl
  · apply List.ext_getElem?
    intro k
    rw [List.getElem?_drop, List.getElem?_drop, List.getElem?_take, hinner]
    by_cases hk : source + d + k < numCols
    · rw [(hget _).2 (by omega) (by omega), if_pos (by omega)]
      congr 1
      omega
    · rw [(hget _).1 (by omega), if_neg (by omega)]
      exact List.getElem?_eq_none (by rw [h.length]; omega)

theorem shiftLeft_from_end {destination d : Nat} (hd : destination + d ≤ numCols)
    (hshift : row.shiftLeft (destination + d) destination (numCols - (destination + d)) = some after) :
    after.Kept numCols ∧
      after.inner.take (numCols - d) = row.inner.take destination ++ row.inner.drop (destination + d) := by
  obtain ⟨hkept, hinner⟩ := shiftLeft_spec h hshift
  have hget := fun k => getElem?_swapLeft destination d (numCols - (destination + d)) row.inner
    (by rw [h.length]; omega) k
  refine ⟨hkept, ?_⟩
  apply List.ext_getElem?
  intro k
  rw [List.getElem?_take, List.getElem?_append, List.length_take, List.getElem?_take, List.getElem?_drop, hinner]
  have hlen := h.length
  by_cases hk : k < destination
  · rw [if_pos (by omega), if_pos (by omega), if_pos hk, (hget k).1 (Or.inl hk)]
  · by_cases hend : k < numCols - d
    · rw [if_pos hend, if_neg (by omega), (hget k).2 (by omega) (by omega)]
      congr 1
      omega
    · rw [if_neg hend, if_neg (by omega)]
      exact (List.getElem?_eq_none (by omega)).symm

end

variable {col count : Nat} {bg : Color}

theorem eraseChars_whole (h : row.Whole numCols)
    (herase : row.eraseChars numCols col count bg = some after) : after.Whole numCols := by
  unfold eraseChars at herase
  split at herase
  next => exact Option.some.inj herase ▸ h
  next =>
    obtain ⟨first, hstart, herase⟩ := Option.bind_eq_some_iff.mp herase
    obtain ⟨second, hstop, hfill⟩ := Option.bind_eq_some_iff.mp herase
    obtain ⟨hfirst, hnarrow, -⟩ := resetWideCharAtStartBoundary_spec h hstart
    obtain ⟨hsecond, hopen, hloose⟩ := resetWideCharBefore_spec hfirst hstop
    exact fill_whole hsecond (hloose.openAt _ hnarrow.openAt) hopen hfill

theorem insertBlank_whole (h : row.Whole numCols)
    (hinsert : row.insertBlank numCols col count bg = some after) : after.Whole numCols := by
  obtain ⟨room, hroom, hinsert⟩ := Option.bind_eq_some_iff.mp hinsert
  obtain ⟨first, hstart, hinsert⟩ := Option.bind_eq_some_iff.mp hinsert
  obtain ⟨second, hstop, hinsert⟩ := Option.bind_eq_some_iff.mp hinsert
  obtain ⟨third, hshift, hfill⟩ := Option.bind_eq_some_iff.mp hinsert
  have hle : col + min count room ≤ numCols := by
    unfold checkedSub at hroom
    split at hroom
    next hcol =>
      obtain rfl := Option.some.inj hroom
      omega
    next => cases hroom
  obtain ⟨hfirst, hnarrow, -⟩ := resetWideCharAtStartBoundary_spec h hstart
  obtain ⟨hsecond, hopen, hloose⟩ := resetWideCharBefore_spec hfirst hstop
  have hcol := hloose.openAt _ hnarrow.openAt
  obtain ⟨hthird, hbefore, hbehind⟩ := shiftRight_to_end hsecond.toKept hle hshift
  obtain ⟨hafter, -, -, hinner⟩ := fill_spec hthird hfill
  refine ⟨hafter, ?_⟩
  have hmoved : PairedCells ((second.inner.take (numCols - min count room)).drop col) := by
    apply (hsecond.paired.take hopen).drop
    intro cell hcell
    rw [List.getElem?_take] at hcell
    split at hcell
    next => exact hcol cell hcell
    next => cases hcell
  rw [hinner, filled, hbefore, hbehind]
  exact ((hsecond.paired.take hcol).append (paired_blank _ bg)).append hmoved

/-- `delete_chars` also blanks cells before the cursor when its count passes the end of the row. -/
def DeletesWhole (row : Row) (numCols col count : Nat) : Prop :=
  col + min count numCols ≤ numCols ∨ row.OpenAt (numCols - min count numCols)

theorem deleteChars_whole (h : row.Whole numCols) (hsafe : row.DeletesWhole numCols col count)
    (hdelete : row.deleteChars numCols col count bg = some after) : after.Whole numCols := by
  unfold deleteChars at hdelete
  split at hdelete
  next => exact Option.some.inj hdelete ▸ h
  next =>
    obtain ⟨lastCol, hlast, hdelete⟩ := Option.bind_eq_some_iff.mp hdelete
    obtain ⟨first, hstart, hdelete⟩ := Option.bind_eq_some_iff.mp hdelete
    obtain ⟨second, hstop, hdelete⟩ := Option.bind_eq_some_iff.mp hdelete
    obtain ⟨third, hshift, hfill⟩ := Option.bind_eq_some_iff.mp hdelete
    have hlastCol : lastCol + 1 = numCols := by
      unfold checkedSub at hlast
      split at hlast
      next hpos =>
        obtain rfl := Option.some.inj hlast
        omega
      next => cases hlast
    have hlt := lt_of_resetWideCharAtStartBoundary h.toKept hstart
    obtain ⟨hfirst, hnarrow, hloose⟩ := resetWideCharAtStartBoundary_spec h hstart
    obtain ⟨hsecond, hopen, hloose'⟩ := resetWideCharBefore_spec hfirst hstop
    have hcol := hloose'.openAt _ hnarrow.openAt
    obtain ⟨d, hd⟩ : ∃ d, min (col + min count numCols) lastCol = col + d :=
      ⟨min (col + min count numCols) lastCol - col, by omega⟩
    rw [hd] at hshift hopen
    obtain ⟨hthird, hkeeps⟩ := shiftLeft_from_end hsecond.toKept (by omega) hshift
    apply fillFrom_of_take hthird _ hfill
    unfold DeletesWhole at hsafe
    have hle := Nat.min_le_right count numCols
    generalize min count numCols = count at hsafe hd hle ⊢
    by_cases hfits : col + count ≤ lastCol
    · have hcount : numCols - count = numCols - d := by omega
      rw [hcount, hkeeps]
      exact (hsecond.paired.take hcol).append (hsecond.paired.drop hopen)
    · -- Only the last cell moves, and the blanks begin at the cursor or before it.
      have hbefore : third.inner.take (numCols - count) = second.inner.take (numCols - count) := by
        have htake := congrArg (List.take (numCols - count)) hkeeps
        rw [List.take_take, List.take_append_of_le_length
          (by rw [List.length_take, hsecond.length]; omega), List.take_take] at htake
        rwa [Nat.min_eq_left (by omega), Nat.min_eq_left (by omega)] at htake
      rw [hbefore]
      apply hsecond.paired.take
      cases hsafe with
      | inl hle =>
        have hcount : numCols - count = col := by omega
        rw [hcount]
        exact hcol
      | inr hsafe => exact hloose'.openAt _ (hloose.openAt _ hsafe)

theorem clearLine_whole (h : row.Whole numCols) {mode : LineClearMode}
    (hclear : row.clearLine numCols col mode bg = some after) : after.Whole numCols := by
  cases mode with
  | right =>
    obtain ⟨first, hstart, hfill⟩ := Option.bind_eq_some_iff.mp hclear
    obtain ⟨hfirst, hnarrow, -⟩ := resetWideCharAtStartBoundary_spec h hstart
    exact fillFrom_whole hfirst hnarrow.openAt hfill
  | left =>
    obtain ⟨first, hstop, hfill⟩ := Option.bind_eq_some_iff.mp hclear
    obtain ⟨hfirst, hopen, -⟩ := resetWideCharBefore_spec h hstop
    exact fillThrough_whole hfirst hopen hfill
  | all => exact fillFrom_of_take h.toKept (by rw [List.take_zero]; exact Paired.nil) hclear

theorem clearUpTo_whole (h : row.Whole numCols)
    (hclear : row.clearUpTo numCols col bg = some after) : after.Whole numCols := by
  obtain ⟨first, hstop, hfill⟩ := Option.bind_eq_some_iff.mp hclear
  obtain ⟨hfirst, hopen, -⟩ := resetWideCharBefore_spec h hstop
  exact fill_whole hfirst (fun cell hcell => hfirst.paired.getElem_zero hcell) hopen hfill

variable {columns : Nat}

theorem grow_whole (h : row.Whole numCols) (hgrow : numCols ≤ columns) :
    (row.grow columns).Whole columns := by
  have hnew : ∀ cell ∈ List.replicate (columns - row.inner.length) ({} : Cell), cell.Narrow := by
    intro cell hcell
    rw [List.eq_of_mem_replicate hcell]
    exact narrow_of_flags rfl
  refine ⟨⟨?_, ?_⟩, h.paired.append (Paired.of_forall_plain hnew)⟩
  · simp only [grow, List.length_append, List.length_replicate, h.length]
    omega
  · intro cell hcell
    rw [grow, List.drop_append] at hcell
    cases List.mem_append.mp hcell with
    | inl hold => exact h.clean cell hold
    | inr hadded => exact hnew cell (List.mem_of_mem_drop hadded)

theorem shrinkWithoutReflow_whole (h : row.Whole numCols) (hshrink : columns < numCols)
    (hafter : row.shrinkWithoutReflow columns = some after) : after.Whole columns := by
  have hlen : (row.inner.take columns).length = columns := by
    rw [List.length_take, h.length]
    omega
  have hkept : Kept columns ⟨row.inner.take columns, min row.occ columns⟩ := by
    apply Kept.of_drop hlen
    intro i cell hi hcell
    rw [List.getElem?_take] at hcell
    split at hcell
    next hlt => exact h.toKept.narrow (by omega) hcell
    next => cases hcell
  simp only [shrinkWithoutReflow, h.length, if_neg (Nat.not_le_of_lt hshrink)] at hafter
  split at hafter
  next hzero =>
    obtain rfl := Option.some.inj hafter
    refine ⟨hkept, ?_⟩
    rw [hzero]
    exact Paired.nil
  next hpos =>
    obtain ⟨last, hlast, hafter⟩ := Option.bind_eq_some_iff.mp hafter
    have hlast' : row.inner[columns - 1]? = some last := by
      rw [List.getElem?_take, if_pos (by omega)] at hlast
      exact hlast
    by_cases hwide : last.flags.wideChar = true
    · rw [if_pos hwide] at hafter
      obtain ⟨hafterKept, -, hinner⟩ := put_spec hkept hafter
      refine ⟨hafterKept, ?_⟩
      have hbefore : PairedCells (row.inner.take (columns - 1)) := by
        apply h.paired.take
        intro cell hcell
        obtain rfl := Option.some.inj (hlast'.symm.trans hcell)
        exact h.paired.not_both (List.mem_of_getElem? hlast') hwide
      have hset : (row.inner.take columns).set (columns - 1) (Cell.ofColor last.bg) =
          row.inner.take (columns - 1) ++ [Cell.ofColor last.bg] := by
        obtain ⟨n, rfl⟩ : ∃ n, columns = n + 1 := ⟨columns - 1, by omega⟩
        rw [Nat.add_sub_cancel] at hlast' ⊢
        have hn : (row.inner.take n).length = n := by
          rw [List.length_take, h.length]
          omega
        rw [List.take_add_one, hlast', Option.toList_some, List.set_append_right _ _ (Nat.le_of_eq hn), hn,
          Nat.sub_self]
        rfl
      rw [hinner, hset]
      exact hbefore.append (paired_blank 1 last.bg)
    · rw [if_neg hwide] at hafter
      obtain rfl := Option.some.inj hafter
      refine ⟨hkept, h.paired.take fun cell hcell => ?_⟩
      by_contra hspacer
      have hnext : row.inner[columns - 1 + 1]? = some cell := by
        rw [Nat.sub_add_cancel (Nat.pos_of_ne_zero hpos)]
        exact hcell
      obtain ⟨cell', hcell', hwide'⟩ := (h.paired.opens_iff (columns - 1)).mpr
        ⟨cell, hnext, Bool.not_eq_false _ ▸ hspacer⟩
      obtain rfl := Option.some.inj (hlast'.symm.trans hcell')
      exact hwide hwide'

end Row

end InfiniShell.Terminal
