import InfiniShell.Terminal.EditedCells
import InfiniShell.Terminal.WideEditing

namespace InfiniShell.Terminal

open Collections

variable {cells cells' : List Cell} {bg : Color} {col b start stop count : Nat}

def resetBoth (col b : Nat) (bg : Color) (cells : List Cell) : List Cell :=
  blankWhere (fun i => ResetAtStart cells col i ∨ ResetBefore cells b i) bg cells

theorem spacerAt_blankWhere {p : Nat → Prop} [DecidablePred p] {i : Nat} :
    SpacerAt (blankWhere p bg cells) i ↔ ¬ p i ∧ SpacerAt cells i := by
  rw [SpacerAt, SpacerAt, getElem?_blankWhere]
  by_cases hp : p i
  · have hnone : (Cell.ofColor bg).isSpacer = false := rfl
    simp [hp, hnone]
  · simp [hp]

theorem blankWhere_resetBefore (hle : col ≤ b) :
    blankWhere (ResetBefore (blankWhere (ResetAtStart cells col) bg cells) b) bg
      (blankWhere (ResetAtStart cells col) bg cells) = resetBoth col b bg cells := by
  apply List.ext_getElem?
  intro i
  rw [resetBoth, getElem?_blankWhere, getElem?_blankWhere, getElem?_blankWhere]
  have hspacer : SpacerAt (blankWhere (ResetAtStart cells col) bg cells) b ↔
      ¬ ResetAtStart cells col b ∧ SpacerAt cells b := spacerAt_blankWhere
  by_cases hfirst : ResetAtStart cells col i
  · simp [hfirst, Function.comp_def]
  · have hsecond : ResetBefore (blankWhere (ResetAtStart cells col) bg cells) b i ↔ ResetBefore cells b i := by
      rw [ResetBefore, ResetBefore, hspacer]
      grind [ResetAtStart]
    simp [hfirst, hsecond]

theorem take_reset_iff {b' : Nat} (hle : col ≤ b) (hle' : col ≤ b') :
    (resetBoth col b bg cells).take col = (mended col b' bg cells).take col ↔ LeftClean cells bg col := by
  rw [resetBoth, mended, take_blankWhere_eq_iff]
  exact agrees_before_iff hle hle'

theorem drop_reset_iff (hlt : col < stop) : (resetBoth col stop bg cells).drop stop = (mended col stop bg cells).drop stop ↔
    NoStray cells stop ∧ RightClean cells bg col stop := by
  rw [resetBoth, mended, drop_blankWhere_eq_iff]
  exact agrees_behind_iff hlt

theorem take_kept_iff (hlt : col < b) (hb : b < cells.length) :
    (resetBoth col b bg cells).take b = (mended col b bg cells).take b ↔ Shiftable cells bg col b := by
  rw [resetBoth, mended, take_blankWhere_eq_iff]
  exact agrees_kept_iff hlt hb

theorem rangeClean_iff :
    RangeClean cells bg start stop ↔ LeftClean cells bg start ∧ NoStray cells stop ∧ RightClean cells bg start stop :=
  ⟨fun h => ⟨h.left, h.stray, h.right⟩, fun h => ⟨h.1, h.2.1, h.2.2⟩⟩

instance : Decidable (RangeClean cells bg start stop) := decidable_of_iff _ rangeClean_iff.symm

theorem rangeClean_end_iff : RangeClean cells bg start cells.length ↔ LeftClean cells bg start := by
  rw [rangeClean_iff]
  constructor
  · exact fun h => h.1
  · intro h
    refine ⟨h, ?_, ?_⟩
    · intro _ hspacer
      exact absurd hspacer.lt (Nat.lt_irrefl _)
    · intro _ hlt
      exact absurd hlt (Nat.lt_irrefl _)

namespace Row

variable {f : Row → Option Row}

theorem map_inner_bind {result : Option Row} (h : result.map Row.inner = some cells)
    (hf : ∀ row : Row, row.inner = cells → (f row).map Row.inner = some cells') :
    (result.bind f).map Row.inner = some cells' := by
  obtain ⟨row, rfl, hrow⟩ := Option.map_eq_some_iff.mp h
  exact hf row hrow

variable {row : Row} {numCols : Nat}

theorem put_inner {i : Nat} {cell : Cell} (hi : i < row.inner.length) :
    (row.put i cell).map Row.inner = some (row.inner.set i cell) := by
  rw [put, if_pos hi]
  rfl

theorem blankBoth_inner {i j : Nat} (hi : i < row.inner.length) (hj : j < row.inner.length) :
    (row.blankBoth i j bg).map Row.inner = some (blankWhere (fun k => k = i ∨ k = j) bg row.inner) := by
  have hsets : (row.inner.set i (Cell.ofColor bg)).set j (Cell.ofColor bg) =
      blankWhere (fun k => k = i ∨ k = j) bg row.inner := by
    apply List.ext_getElem?
    intro k
    rw [getElem?_blankWhere, List.getElem?_set, List.getElem?_set, List.length_set]
    grind
  apply map_inner_bind (put_inner hi)
  intro middle hmiddle
  rw [put_inner (by rw [hmiddle, List.length_set]; exact hj), hmiddle, hsets]

theorem blankWhere_congr {p q : Nat → Prop} [DecidablePred p] [DecidablePred q] (h : ∀ i, p i ↔ q i) :
    blankWhere p bg cells = blankWhere q bg cells := by
  apply List.ext_getElem?
  intro i
  rw [getElem?_blankWhere_eq_iff]
  exact fun _ => .inl (h i)

theorem blankWhere_none {p : Nat → Prop} [DecidablePred p] (h : ∀ i, ¬ p i) : blankWhere p bg cells = cells := by
  apply List.ext_getElem?
  intro i
  rw [getElem?_blankWhere, if_neg (h i)]

theorem resetSpacerPair_inner (hcol : col < row.inner.length) :
    (row.resetSpacerPair col bg).map Row.inner = some (blankWhere (ResetBefore row.inner col) bg row.inner) := by
  have hcell : row.inner[col]? = some row.inner[col] := List.getElem?_eq_getElem hcol
  have hspacer : SpacerAt row.inner col ↔ row.inner[col].flags.wideCharSpacer = true := by
    rw [SpacerAt, hcell]
    simp [Cell.isSpacer]
  rw [resetSpacerPair, hcell]
  simp only [Option.bind_eq_bind, Option.bind_some]
  split
  next h =>
    rw [blankBoth_inner hcol (by omega)]
    congr 1
    apply blankWhere_congr
    intro i
    rw [ResetBefore, hspacer]
    have hpos : 0 < col := h.2
    simp only [hpos, h.1, true_and]
    omega
  next h =>
    rw [blankWhere_none]
    · rfl
    · rintro i ⟨hpos, hi, -⟩
      exact h ⟨hspacer.mp hi, hpos⟩

theorem resetWideCharAtStartBoundary_inner (hlen : row.inner.length = numCols) (hcol : col < numCols) :
    (row.resetWideCharAtStartBoundary numCols col bg).map Row.inner =
      some (blankWhere (ResetAtStart row.inner col) bg row.inner) := by
  have hlt : col < row.touchAll.inner.length := by
    rw [touchAll, hlen]
    exact hcol
  apply map_inner_bind (resetSpacerPair_inner hlt)
  intro middle hmiddle
  have hlength : middle.inner.length = numCols := by rw [hmiddle, length_blankWhere, touchAll, hlen]
  obtain ⟨cell, hcell⟩ : ∃ cell, middle.inner[col]? = some cell := ⟨_, List.getElem?_eq_getElem (hlength ▸ hcol)⟩
  have hwide : cell.flags.wideChar = true ↔
      ¬ (0 < col ∧ SpacerAt row.inner col) ∧ WideAt row.inner col := by
    have hget := hcell
    rw [hmiddle, getElem?_blankWhere] at hget
    by_cases hspacer : 0 < col ∧ SpacerAt row.inner col
    · have hreset : ResetBefore row.touchAll.inner col col := ⟨hspacer.1, hspacer.2, .inl rfl⟩
      rw [if_pos hreset] at hget
      obtain ⟨-, -, heq⟩ := Option.map_eq_some_iff.mp hget
      rw [← heq]
      simp [hspacer, Cell.ofColor]
    · have hreset : ¬ ResetBefore row.touchAll.inner col col := fun h => hspacer ⟨h.1, h.2.1⟩
      rw [if_neg hreset] at hget
      rw [WideAt, show row.inner[col]? = _ from hget]
      simp [hspacer, Cell.isWide]
  rw [resetWidePair, hcell]
  simp only [Option.bind_eq_bind, Option.bind_some]
  split
  next h =>
    obtain ⟨hnot, hwideAt⟩ := hwide.mp h.1
    have hsame : middle.inner = row.inner := by
      rw [hmiddle, blankWhere_none]
      · rfl
      · exact fun i hi => hnot ⟨hi.1, hi.2.1⟩
    rw [blankBoth_inner (hlength ▸ hcol) (hlength ▸ h.2), hsame]
    congr 1
    apply blankWhere_congr
    intro i
    have hnext : col + 1 < row.inner.length := hlen ▸ h.2
    simp [ResetAtStart, hnot, hwideAt, hnext]
  next h =>
    rw [Option.map_some, hmiddle]
    congr 1
    apply blankWhere_congr
    intro i
    have hnone : ¬ (¬ (0 < col ∧ SpacerAt row.inner col) ∧ WideAt row.inner col ∧ col + 1 < row.inner.length) := by
      rintro ⟨hspacer, hwideAt, hnext⟩
      exact h ⟨hwide.mpr ⟨hspacer, hwideAt⟩, hlen ▸ hnext⟩
    have hsame : SpacerAt row.touchAll.inner col ↔ SpacerAt row.inner col := Iff.rfl
    grind [ResetAtStart, ResetBefore]

theorem resetWideCharBefore_inner (hlen : row.inner.length = numCols) :
    (row.resetWideCharBefore numCols b bg).map Row.inner = some (blankWhere (ResetBefore row.inner b) bg row.inner) := by
  rw [resetWideCharBefore]
  split
  next hb =>
    have hlt : b < row.touchAll.inner.length := by
      rw [touchAll, hlen]
      exact hb
    exact resetSpacerPair_inner hlt
  next hb =>
    rw [blankWhere_none]
    · rfl
    · rintro i ⟨-, hspacer, -⟩
      exact hb (hlen ▸ hspacer.lt)

theorem resets_bind (hlen : row.inner.length = numCols) (hcol : col < numCols) (hle : col ≤ b) (hf : ∀ row' : Row, row'.inner = resetBoth col b bg row.inner →
      (f row').map Row.inner = some cells') :
    ((row.resetWideCharAtStartBoundary numCols col bg).bind fun row =>
      (row.resetWideCharBefore numCols b bg).bind f).map Row.inner = some cells' := by
  apply map_inner_bind (resetWideCharAtStartBoundary_inner hlen hcol)
  intro first hfirst
  have hlength : first.inner.length = numCols := by rw [hfirst, length_blankWhere, hlen]
  apply map_inner_bind (resetWideCharBefore_inner hlength)
  intro second hsecond
  apply hf
  rw [hsecond, hfirst, blankWhere_resetBefore hle]

theorem fill_inner (hstart : start ≤ stop) (hstop : stop ≤ row.inner.length) :
    (row.fill start stop bg).map Row.inner = some (row.filled start stop bg) := by
  rw [fill, if_pos ⟨hstart, hstop⟩]
  rfl

theorem fillFrom_inner (hstart : start ≤ row.inner.length) : (row.fillFrom start bg).map Row.inner =
    some (row.inner.take start ++ List.replicate (row.inner.length - start) (Cell.ofColor bg)) := by
  rw [fillFrom, fill, if_pos ⟨hstart, Nat.le_refl _⟩]
  simp [filled, touchAll]

theorem foldlM_swapCells_total {f g : Nat → Nat} {offsets : List Nat}
    (h : ∀ offset ∈ offsets, f offset < row.inner.length ∧ g offset < row.inner.length) :
    ∃ after, offsets.foldlM (fun row offset => row.swapCells (f offset) (g offset)) row = some after := by
  induction offsets generalizing row with
  | nil => exact ⟨row, rfl⟩
  | cons offset offsets ih =>
    have hswap : row.swapCells (f offset) (g offset) =
        some ⟨swapped row.inner (f offset) (g offset), row.inner.length⟩ := if_pos (h offset List.mem_cons_self)
    rw [List.foldlM_cons, hswap]
    apply ih
    intro other hother
    rw [swapped_length]
    exact h other (List.mem_cons_of_mem _ hother)

theorem touchAll_kept_of_length (hlen : row.inner.length = numCols) : row.touchAll.Kept numCols :=
  Kept.full hlen (Nat.le_of_eq hlen.symm)

theorem shiftRight_fill_inner (hlen : row.inner.length = numCols) (hle : col + count ≤ numCols) :
    ((row.shiftRight col (col + count) (numCols - (col + count))).bind
      fun row => row.fill col (col + count) bg).map Row.inner =
    some (row.inner.take col ++ List.replicate count (Cell.ofColor bg) ++
      (row.inner.take (numCols - count)).drop col) := by
  obtain ⟨after, hshift⟩ : ∃ after, row.shiftRight col (col + count) (numCols - (col + count)) = some after := by
    apply foldlM_swapCells_total
    intro offset hoffset
    have hlt : offset < numCols - (col + count) := by simpa using hoffset
    have hlength : row.touchAll.inner.length = numCols := hlen
    omega
  have hkept := touchAll_kept_of_length hlen
  obtain ⟨hafter, hbefore, hbehind⟩ := shiftRight_to_end hkept hle
    (show row.touchAll.shiftRight col (col + count) (numCols - (col + count)) = some after from hshift)
  rw [hshift, Option.bind_some, fill_inner (Nat.le_add_right _ _) (by rw [hafter.length]; exact hle), filled, hbefore,
    hbehind, Nat.add_sub_cancel_left]
  rfl

theorem shiftLeft_inner (hlen : row.inner.length = numCols) (hle : col + count ≤ numCols) :
    ∃ after, row.shiftLeft (col + count) col (numCols - (col + count)) = some after ∧ after.inner.length = numCols ∧
      after.inner.take (numCols - count) = row.inner.take col ++ row.inner.drop (col + count) := by
  obtain ⟨after, hshift⟩ : ∃ after, row.shiftLeft (col + count) col (numCols - (col + count)) = some after := by
    apply foldlM_swapCells_total
    intro offset hoffset
    have hlt : offset < numCols - (col + count) := by simpa using hoffset
    have hlength : row.touchAll.inner.length = numCols := hlen
    omega
  have hkept := touchAll_kept_of_length hlen
  obtain ⟨hafter, htake⟩ := shiftLeft_from_end hkept hle
    (show row.touchAll.shiftLeft (col + count) col (numCols - (col + count)) = some after from hshift)
  exact ⟨after, hshift, hafter.length, htake⟩

theorem overwritten_eq_iff {x y : List Cell} (hlen : x.length = y.length) :
    overwritten start stop bg x = overwritten start stop bg y ↔
      x.take start = y.take start ∧ x.drop stop = y.drop stop := by
  constructor
  · intro h
    have hlength : (x.take start ++ List.replicate (stop - start) (Cell.ofColor bg)).length =
        (y.take start ++ List.replicate (stop - start) (Cell.ofColor bg)).length := by simp [hlen]
    obtain ⟨hfirst, hdrop⟩ := List.append_inj h hlength
    exact ⟨(List.append_inj hfirst (by simp [hlen])).1, hdrop⟩
  · rintro ⟨htake, hdrop⟩
    rw [overwritten, overwritten, htake, hdrop]

theorem overwritten_resetBoth_iff (hlt : start < stop) :
    overwritten start stop bg (resetBoth start stop bg cells) = blanked start stop bg cells ↔
      RangeClean cells bg start stop := by
  rw [blanked, if_neg (by omega), overwritten_eq_iff (by simp [resetBoth, mended]), rangeClean_iff,
    take_reset_iff (Nat.le_of_lt hlt) (Nat.le_of_lt hlt), drop_reset_iff hlt]

variable (bg) in
theorem eraseChars_inner (hlen : row.inner.length = numCols) (hcol : col < numCols) (hcount : count ≠ 0) :
    (row.eraseChars numCols col count bg).map Row.inner = some (overwritten col (min (col + count) numCols) bg
      (resetBoth col (min (col + count) numCols) bg row.inner)) := by
  rw [eraseChars, if_neg hcount]
  apply resets_bind hlen hcol (by omega)
  intro second hsecond
  have hlength : second.inner.length = numCols := by rw [hsecond, resetBoth, length_blankWhere, hlen]
  rw [fill_inner (by omega) (by omega), filled, hsecond]
  rfl

variable (bg) in
theorem eraseChars_spec (hlen : row.inner.length = numCols) (hcol : col < numCols) (count : Nat) :
    ∃ after, row.eraseChars numCols col count bg = some after ∧ after.inner.length = numCols ∧
      (after.inner = blanked col (min (col + count) numCols) bg row.inner ↔
        count = 0 ∨ RangeClean row.inner bg col (min (col + count) numCols)) := by
  by_cases hcount : count = 0
  · refine ⟨row, by rw [eraseChars, if_pos hcount], hlen, ?_⟩
    have hle : min (col + count) numCols ≤ col := by omega
    rw [blanked, if_pos hle]
    simp [hcount]
  · obtain ⟨after, hafter, hinner⟩ := Option.map_eq_some_iff.mp (eraseChars_inner bg hlen hcol hcount)
    refine ⟨after, hafter, ?_, ?_⟩
    · rw [hinner]
      simp only [overwritten, resetBoth, List.length_append, List.length_take, List.length_replicate, List.length_drop,
        length_blankWhere]
      omega
    · rw [hinner, overwritten_resetBoth_iff (by omega), or_iff_right hcount]

variable (bg) in
theorem insertBlank_inner (hlen : row.inner.length = numCols) (hcol : col < numCols) (count : Nat) :
    (row.insertBlank numCols col count bg).map Row.inner =
      let count := min count (numCols - col)
      let cells := resetBoth col (numCols - count) bg row.inner
      some (cells.take col ++ List.replicate count (Cell.ofColor bg) ++ (cells.take (numCols - count)).drop col) := by
  have hroom : checkedSub numCols col = some (numCols - col) := if_pos (Nat.le_of_lt hcol)
  rw [insertBlank, hroom]
  simp only [Option.bind_eq_bind, Option.bind_some]
  apply resets_bind hlen hcol (by omega)
  intro second hsecond
  have hlength : second.inner.length = numCols := by rw [hsecond, resetBoth, length_blankWhere, hlen]
  rw [shiftRight_fill_inner hlength (by omega), hsecond]

/-- What `insert_blank` needs in each of the ways that its count can be. -/
def InsertsClean (cells : List Cell) (bg : Color) (col count : Nat) : Prop :=
  if count = 0 then ¬ (0 < col ∧ SpacerAt cells col) ∧ ¬ (WideAt cells col ∧ col + 1 < cells.length)
  else if cells.length ≤ col + count then LeftClean cells bg col
  else Shiftable cells bg col (cells.length - count)

variable {x y blanks : List Cell}

theorem take_append_drop_eq_iff {n : Nat} (hlen : x.length = y.length) (hle : col ≤ n) :
    x.take col ++ blanks ++ (x.take n).drop col = y.take col ++ blanks ++ (y.take n).drop col ↔ x.take n = y.take n := by
  constructor
  · intro h
    obtain ⟨hfirst, hdrop⟩ := List.append_inj h (by simp [hlen])
    obtain ⟨htake, -⟩ := List.append_inj hfirst (by simp [hlen])
    rw [← List.take_append_drop col (x.take n), ← List.take_append_drop col (y.take n), List.take_take,
      List.take_take, Nat.min_eq_left hle, htake, hdrop]
  · intro h
    have htake : x.take col = y.take col := by
      have := congrArg (List.take col) h
      rwa [List.take_take, List.take_take, Nat.min_eq_left hle] at this
    rw [h, htake]

theorem resetBoth_end_iff : resetBoth col cells.length bg cells = cells ↔
    ¬ (0 < col ∧ SpacerAt cells col) ∧ ¬ (WideAt cells col ∧ col + 1 < cells.length) := by
  have hnone : ∀ i, ¬ ResetBefore cells cells.length i := fun i hi => absurd hi.2.1.lt (Nat.lt_irrefl _)
  constructor
  · intro h
    have hblank : ResetAtStart cells col col → col < cells.length → BlankAt cells bg col := by
      intro hreset hlt
      have hget := congrArg (fun l => l[col]?) h
      rw [resetBoth, getElem?_blankWhere, if_pos (.inl hreset), List.getElem?_eq_getElem hlt] at hget
      exact (List.getElem?_eq_getElem hlt).trans hget.symm
    constructor
    · intro hspacer
      exact (hblank (.inl ⟨hspacer, .inl rfl⟩) hspacer.2.lt).not_spacer hspacer.2
    · intro hwide
      by_cases hspacer : 0 < col ∧ SpacerAt cells col
      · exact (hblank (.inl ⟨hspacer, .inl rfl⟩) hspacer.2.lt).not_spacer hspacer.2
      · exact (hblank (.inr ⟨hspacer, hwide.1, hwide.2, .inl rfl⟩) hwide.1.lt).not_wide hwide.1
  · rintro ⟨hspacer, hwide⟩
    apply blankWhere_none
    intro i hi
    obtain (⟨h, -⟩ | ⟨-, h, hlt, -⟩) | h := hi
    · exact hspacer h
    · exact hwide ⟨h, hlt⟩
    · exact hnone i h

variable (bg) in
theorem insertBlank_spec (hlen : row.inner.length = numCols) (hcol : col < numCols) (count : Nat) :
    ∃ after, row.insertBlank numCols col count bg = some after ∧ after.inner.length = numCols ∧
      (after.inner = shiftedRight col (min count (numCols - col)) bg row.inner ↔
        InsertsClean row.inner bg col count) := by
  obtain ⟨after, hafter, hinner⟩ := Option.map_eq_some_iff.mp (insertBlank_inner bg hlen hcol count)
  refine ⟨after, hafter, ?_, ?_⟩
  · rw [hinner]
    simp only [resetBoth, List.length_append, List.length_take, List.length_replicate, List.length_drop,
      length_blankWhere]
    omega
  · rw [hinner, InsertsClean, hlen]
    by_cases hcount : count = 0
    · subst hcount
      rw [if_pos rfl, shiftedRight, if_pos (by omega), Nat.zero_min, Nat.sub_zero, ← hlen]
      have hall : (resetBoth col row.inner.length bg row.inner).take row.inner.length =
          resetBoth col row.inner.length bg row.inner := by
        apply List.take_of_length_le
        rw [resetBoth, length_blankWhere]
      simp only [List.replicate_zero, List.append_nil, hall, List.take_append_drop]
      exact resetBoth_end_iff
    · rw [if_neg hcount, shiftedRight, if_neg (by omega), hlen]
      dsimp only
      rw [take_append_drop_eq_iff (by simp [resetBoth, mended]) (by omega)]
      split
      next hend =>
        have hwhole : numCols - min count (numCols - col) = col := by omega
        rw [hwhole]
        exact take_reset_iff (Nat.le_refl col) (Nat.le_refl col)
      next hend =>
        have hsome : min count (numCols - col) = count := by omega
        rw [hsome]
        exact take_kept_iff (by omega) (by omega)

theorem deleteChars_bind (hlen : row.inner.length = numCols) (hcol : col < numCols) (hcount : count ≠ 0)
    (hcells : ∀ row' : Row, row'.inner = resetBoth col (min (col + min count numCols) (numCols - 1)) bg row.inner →
      ((row'.shiftLeft (min (col + min count numCols) (numCols - 1)) col
        (numCols - min (col + min count numCols) (numCols - 1))).bind
          fun row => row.fillFrom (numCols - min count numCols) bg).map Row.inner = some cells') :
    (row.deleteChars numCols col count bg).map Row.inner = some cells' := by
  have hlast : checkedSub numCols 1 = some (numCols - 1) := if_pos (by omega)
  rw [deleteChars, if_neg hcount, hlast]
  simp only [Option.bind_eq_bind, Option.bind_some]
  exact resets_bind hlen hcol (by omega) hcells

variable (bg) in
theorem deleteChars_inner (hlen : row.inner.length = numCols) (hcount : count ≠ 0) (hfits : col + count < numCols) :
    (row.deleteChars numCols col count bg).map Row.inner =
      let cells := resetBoth col (col + count) bg row.inner
      some (cells.take col ++ cells.drop (col + count) ++ List.replicate count (Cell.ofColor bg)) := by
  apply deleteChars_bind hlen (by omega) hcount
  intro second hsecond
  have hcount' : min count numCols = count := by omega
  have hstop : min (col + count) (numCols - 1) = col + count := by omega
  rw [hcount', hstop] at hsecond ⊢
  have hlength : second.inner.length = numCols := by rw [hsecond, resetBoth, length_blankWhere, hlen]
  have hle : col + count ≤ numCols := Nat.le_of_lt hfits
  obtain ⟨third, hshift, hthird, htake⟩ := shiftLeft_inner hlength hle
  have hstart : numCols - count ≤ third.inner.length := by omega
  have hblanks : numCols - (numCols - count) = count := by omega
  rw [hshift, Option.bind_some, fillFrom_inner hstart, htake, hthird, hsecond, hblanks]

variable (bg) in
theorem deleteChars_end_inner (hlen : row.inner.length = numCols) (hcol : col < numCols)
    (hend : numCols ≤ col + count) :
    (row.deleteChars numCols col count bg).map Row.inner =
      some ((resetBoth col (numCols - 1) bg row.inner).take (numCols - count) ++
        List.replicate (min count numCols) (Cell.ofColor bg)) := by
  apply deleteChars_bind hlen hcol (by omega)
  intro second hsecond
  have hstop : min (col + min count numCols) (numCols - 1) = numCols - 1 := by omega
  rw [hstop] at hsecond ⊢
  have hlength : second.inner.length = numCols := by rw [hsecond, resetBoth, length_blankWhere, hlen]
  have hle : col + (numCols - 1 - col) ≤ numCols := by omega
  obtain ⟨third, hshift, hthird, htake⟩ := shiftLeft_inner hlength hle
  have hdistance : col + (numCols - 1 - col) = numCols - 1 := by omega
  rw [hdistance] at hshift htake
  have hbefore : third.inner.take (numCols - min count numCols) = second.inner.take (numCols - count) := by
    have hle : numCols - min count numCols ≤ (second.inner.take col).length := by
      rw [List.length_take, hlength]
      omega
    have hkept : min (numCols - min count numCols) (numCols - (numCols - 1 - col)) = numCols - min count numCols := by
      omega
    have hcursor : min (numCols - min count numCols) col = numCols - count := by omega
    have hshort := congrArg (List.take (numCols - min count numCols)) htake
    rwa [List.take_take, List.take_append_of_le_length hle, List.take_take, hkept, hcursor] at hshort
  have hstart : numCols - min count numCols ≤ third.inner.length := by omega
  have hblanks : numCols - (numCols - min count numCols) = min count numCols := by omega
  rw [hshift, Option.bind_some, fillFrom_inner hstart, hbefore, hthird, hsecond, hblanks]

/-- What `delete_chars` needs in each of the ways that its count can be. -/
def DeletesClean (cells : List Cell) (bg : Color) (col count : Nat) : Prop :=
  if count = 0 then True
  else if col + count ≤ cells.length then RangeClean cells bg col (col + count)
  else ∀ i, i < col → cells.length ≤ i + count → Mended cells col i ∨ BlankAt cells bg i

/-- Where the count passes the end of the row, the blanks before the cursor are all that may be wrong. -/
theorem deleted_past_end_iff (hcol : col < cells.length) (hpast : cells.length < col + count) :
    (resetBoth col (cells.length - 1) bg cells).take (cells.length - count) ++
        List.replicate (min count cells.length) (Cell.ofColor bg) =
      (mended col cells.length bg cells).take col ++ List.replicate (cells.length - col) (Cell.ofColor bg) ↔
    ∀ i, i < col → cells.length ≤ i + count → Mended cells col i ∨ BlankAt cells bg i := by
  have hleft : ∀ i, ((resetBoth col (cells.length - 1) bg cells).take (cells.length - count) ++
      List.replicate (min count cells.length) (Cell.ofColor bg))[i]? =
      if i + count < cells.length then cells[i]? else if i < cells.length then some (Cell.ofColor bg) else none := by
    intro i
    have hlen : ((resetBoth col (cells.length - 1) bg cells).take (cells.length - count)).length =
        cells.length - count := by
      rw [List.length_take, resetBoth, length_blankWhere]
      omega
    rw [List.getElem?_append, hlen, List.getElem?_take, List.getElem?_replicate, resetBoth, getElem?_blankWhere]
    by_cases hi : i + count < cells.length
    · have hnone : ¬ (ResetAtStart cells col i ∨ ResetBefore cells (cells.length - 1) i) := by
        grind [ResetAtStart, ResetBefore]
      rw [if_pos (by omega), if_pos (by omega), if_neg hnone, if_pos hi]
    · rw [if_neg (by omega), if_neg hi]
      by_cases hlt : i < cells.length
      · rw [if_pos (by omega), if_pos hlt]
      · rw [if_neg (by omega), if_neg hlt]
  have hright : ∀ i, ((mended col cells.length bg cells).take col ++
      List.replicate (cells.length - col) (Cell.ofColor bg))[i]? =
      if i < col then (if Mended cells col i then some (Cell.ofColor bg) else cells[i]?)
      else if i < cells.length then some (Cell.ofColor bg) else none := by
    intro i
    have hlen : ((mended col cells.length bg cells).take col).length = col := by
      rw [List.length_take, mended, length_blankWhere]
      omega
    have hend : ¬ Mended cells cells.length i := fun h => absurd h.1.2.2.lt (Nat.lt_irrefl _)
    rw [List.getElem?_append, hlen, List.getElem?_take, List.getElem?_replicate, mended, getElem?_blankWhere]
    by_cases hi : i < col
    · have hcell : cells[i]? = some cells[i] := List.getElem?_eq_getElem (by omega)
      rw [if_pos hi, if_pos hi, if_pos hi]
      by_cases hmended : Mended cells col i
      · simp [hmended, hcell]
      · simp [hmended, hend]
    · rw [if_neg hi, if_neg hi]
      by_cases hlt : i < cells.length
      · rw [if_pos (by omega), if_pos hlt]
      · rw [if_neg (by omega), if_neg hlt]
  rw [List.ext_getElem?_iff]
  constructor
  · intro h i hi hcount
    have hget := h i
    rw [hleft, hright, if_neg (by omega), if_pos (by omega), if_pos hi] at hget
    by_cases hmended : Mended cells col i
    · exact .inl hmended
    · rw [if_neg hmended] at hget
      exact .inr hget.symm
  · intro h i
    rw [hleft, hright]
    by_cases hi : i + count < cells.length
    · have hnone : ¬ Mended cells col i := by
        rintro ⟨-, hi'⟩
        omega
      rw [if_pos hi, if_pos (by omega), if_neg hnone]
    · by_cases hlt : i < col
      · rw [if_neg hi, if_pos (by omega), if_pos hlt]
        split
        next => rfl
        next hnone => exact ((h i hlt (by omega)).resolve_left hnone).symm
      · rw [if_neg hi, if_neg hlt]

theorem spliced_eq_iff (hlen : x.length = y.length) :
    x.take start ++ x.drop stop ++ blanks = y.take start ++ y.drop stop ++ blanks ↔
      x.take start = y.take start ∧ x.drop stop = y.drop stop := by
  constructor
  · intro h
    exact List.append_inj (List.append_cancel_right h) (by simp [hlen])
  · rintro ⟨htake, hdrop⟩
    rw [htake, hdrop]

variable (bg) in
theorem deleteChars_spec (hlen : row.inner.length = numCols) (hcol : col < numCols) (count : Nat) :
    ∃ after, row.deleteChars numCols col count bg = some after ∧ after.inner.length = numCols ∧
      (after.inner = shiftedLeft col (min count (numCols - col)) bg row.inner ↔
        DeletesClean row.inner bg col count) := by
  subst hlen
  by_cases hcount : count = 0
  · refine ⟨row, by rw [deleteChars, if_pos hcount], rfl, ?_⟩
    rw [DeletesClean, if_pos hcount, shiftedLeft, if_pos (by omega)]
    simp
  · rw [DeletesClean, if_neg hcount, shiftedLeft, if_neg (by omega)]
    dsimp only
    by_cases hfits : col + count < row.inner.length
    · obtain ⟨after, hafter, hinner⟩ := Option.map_eq_some_iff.mp (deleteChars_inner bg rfl hcount hfits)
      have hsome : min count (row.inner.length - col) = count := by omega
      refine ⟨after, hafter, ?_, ?_⟩
      · rw [hinner]
        simp only [resetBoth, List.length_append, List.length_take, List.length_replicate, List.length_drop,
          length_blankWhere]
        omega
      · have hlt : col < col + count := by omega
        rw [hinner, hsome, spliced_eq_iff (by simp [resetBoth, mended]), if_pos (Nat.le_of_lt hfits), rangeClean_iff,
          take_reset_iff (Nat.le_of_lt hlt) (Nat.le_of_lt hlt), drop_reset_iff hlt]
    · obtain ⟨after, hafter, hinner⟩ := Option.map_eq_some_iff.mp
        (deleteChars_end_inner bg rfl hcol (Nat.le_of_not_lt hfits))
      have hsome : min count (row.inner.length - col) = row.inner.length - col := by omega
      have hend : col + (row.inner.length - col) = row.inner.length := by omega
      have hdrop : (mended col row.inner.length bg row.inner).drop row.inner.length = [] := by
        apply List.drop_of_length_le
        rw [mended, length_blankWhere]
      refine ⟨after, hafter, ?_, ?_⟩
      · rw [hinner]
        simp only [resetBoth, List.length_append, List.length_take, List.length_replicate, length_blankWhere]
        omega
      · rw [hinner, hsome, hend, hdrop, List.append_nil]
        split
        next hle =>
          have hcount' : row.inner.length - count = col := by omega
          have hblanks : min count row.inner.length = row.inner.length - col := by omega
          have hexact : col + count = row.inner.length := by omega
          rw [hcount', hblanks, List.append_left_inj, hexact, rangeClean_end_iff]
          exact take_reset_iff (by omega) (by omega)
        next hpast => exact deleted_past_end_iff hcol (by omega)

variable (bg) in
theorem clearRight_spec (hlen : row.inner.length = numCols) (hcol : col < numCols) :
    ∃ after, row.clearLine numCols col .right bg = some after ∧ after.inner.length = numCols ∧
      (after.inner = blanked col numCols bg row.inner ↔ LeftClean row.inner bg col) := by
  have hinner : (row.clearLine numCols col .right bg).map Row.inner =
      some (overwritten col numCols bg (resetBoth col numCols bg row.inner)) := by
    apply map_inner_bind (resetWideCharAtStartBoundary_inner hlen hcol)
    intro first hfirst
    have hlength : first.inner.length = numCols := by rw [hfirst, length_blankWhere, hlen]
    have hsame : resetBoth col numCols bg row.inner = first.inner := by
      rw [hfirst, resetBoth]
      apply blankWhere_congr
      intro i
      apply or_iff_left
      rintro ⟨-, hspacer, -⟩
      exact absurd hspacer.lt (by omega)
    rw [fillFrom_inner (by omega), hsame, overwritten, hlength, List.drop_of_length_le (Nat.le_of_eq hlength),
      List.append_nil]
  obtain ⟨after, hafter, hinner⟩ := Option.map_eq_some_iff.mp hinner
  refine ⟨after, hafter, ?_, ?_⟩
  · rw [hinner]
    simp only [overwritten, resetBoth, List.length_append, List.length_take, List.length_replicate, List.length_drop,
      length_blankWhere]
    omega
  · rw [hinner, overwritten_resetBoth_iff hcol, ← hlen, rangeClean_end_iff]

variable (bg) in
theorem clearLine_all (hlen : row.inner.length = numCols) (hcol : col < numCols) :
    ∃ after, row.clearLine numCols col .all bg = some after ∧ after.inner.length = numCols ∧
      after.inner = blanked 0 numCols bg row.inner := by
  have hinner : (row.clearLine numCols col .all bg).map Row.inner = some (blanked 0 numCols bg row.inner) := by
    have hnone : (mended 0 numCols bg row.inner).drop numCols = [] := by
      apply List.drop_of_length_le
      rw [mended, length_blankWhere, hlen]
    rw [clearLine, fillFrom_inner (Nat.zero_le _), blanked, if_neg (by omega), overwritten, hnone, hlen]
    simp
  obtain ⟨after, hafter, hinner⟩ := Option.map_eq_some_iff.mp hinner
  refine ⟨after, hafter, ?_, hinner⟩
  rw [hinner, blanked, if_neg (by omega), overwritten, mended]
  simp [hlen]

theorem overwritten_left_iff : overwritten 0 (col + 1) bg (blankWhere (ResetBefore cells (col + 1)) bg cells) =
    blanked 0 (col + 1) bg cells ↔ NoStray cells (col + 1) := by
  rw [blanked, if_neg (by omega), overwritten_eq_iff (by simp [mended]), mended, drop_blankWhere_eq_iff]
  constructor
  · rintro ⟨-, h⟩ - hspacer
    obtain hagree | hblank := h (col + 1) (Nat.le_refl _) hspacer.lt
    · grind [ResetBefore, Mended, Straddles]
    · exact absurd hspacer hblank.not_spacer
  · intro h
    refine ⟨by simp, fun i hi hlt => .inl ?_⟩
    grind [ResetBefore, Mended, Straddles, NoStray]

variable (bg) in
theorem clearLeft_spec (hlen : row.inner.length = numCols) (hcol : col < numCols) :
    ∃ after, row.clearLine numCols col .left bg = some after ∧ after.inner.length = numCols ∧
      (after.inner = blanked 0 (col + 1) bg row.inner ↔ NoStray row.inner (col + 1)) := by
  have hinner : (row.clearLine numCols col .left bg).map Row.inner =
      some (overwritten 0 (col + 1) bg (blankWhere (ResetBefore row.inner (col + 1)) bg row.inner)) := by
    apply map_inner_bind (resetWideCharBefore_inner hlen)
    intro first hfirst
    have hlength : first.inner.length = numCols := by rw [hfirst, length_blankWhere, hlen]
    rw [fillThrough, fill, if_pos ⟨Nat.zero_le _, by omega⟩, filled, hfirst]
    rfl
  obtain ⟨after, hafter, hinner⟩ := Option.map_eq_some_iff.mp hinner
  refine ⟨after, hafter, ?_, ?_⟩
  · rw [hinner]
    simp only [overwritten, List.length_append, List.length_take, List.length_replicate, List.length_drop,
      length_blankWhere]
    omega
  · rw [hinner, overwritten_left_iff]

variable (bg) in
theorem clearUpTo_spec (hlen : row.inner.length = numCols) (hcol : col < numCols) :
    ∃ after, row.clearUpTo numCols col bg = some after ∧ after.inner.length = numCols ∧
      (after.inner = blanked 0 (col + 1) bg row.inner ↔ NoStray row.inner (col + 1)) := by
  have hstop : min (col + 1) numCols = col + 1 := by omega
  have hinner : (row.clearUpTo numCols col bg).map Row.inner =
      some (overwritten 0 (col + 1) bg (blankWhere (ResetBefore row.inner (col + 1)) bg row.inner)) := by
    rw [clearUpTo, hstop]
    apply map_inner_bind (resetWideCharBefore_inner hlen)
    intro first hfirst
    have hlength : first.inner.length = numCols := by rw [hfirst, length_blankWhere, hlen]
    rw [fill_inner (Nat.zero_le _) (by omega), filled, hfirst]
    rfl
  obtain ⟨after, hafter, hinner⟩ := Option.map_eq_some_iff.mp hinner
  refine ⟨after, hafter, ?_, ?_⟩
  · rw [hinner]
    simp only [overwritten, List.length_append, List.length_take, List.length_replicate, List.length_drop,
      length_blankWhere]
    omega
  · rw [hinner, overwritten_left_iff]

end Row

end InfiniShell.Terminal
