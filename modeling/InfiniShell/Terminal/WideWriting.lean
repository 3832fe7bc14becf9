import InfiniShell.Terminal.WideEditing

namespace InfiniShell.Terminal

open Collections

namespace Row

variable {numCols : Nat} {row after : Row} {α : Type} {l : List α} {i : Nat}

theorem take_two_drop {x y : α} (hx : l[i]? = some x)
    (hy : l[i + 1]? = some y) : l = l.take i ++ x :: y :: l.drop (i + 2) := by
  obtain ⟨hi, rfl⟩ := List.getElem?_eq_some_iff.mp hx
  obtain ⟨hi', rfl⟩ := List.getElem?_eq_some_iff.mp hy
  rw [← List.drop_eq_getElem_cons hi', ← List.drop_eq_getElem_cons hi, List.take_append_drop]

theorem take_one_drop {x : α} (hx : l[i]? = some x) : l = l.take i ++ x :: l.drop (i + 1) := by
  obtain ⟨hi, rfl⟩ := List.getElem?_eq_some_iff.mp hx
  rw [← List.drop_eq_getElem_cons hi, List.take_append_drop]

variable {cell : Cell}

theorem Whole.last_not_wide (h : row.Whole numCols) (hcell : row.inner[numCols - 1]? = some cell) :
    cell.isWide = false := by
  by_contra hwide
  have hlt := h.lt_of_wide hcell (Bool.not_eq_false _ ▸ hwide)
  omega

theorem Whole.not_wide_of_openAt (h : row.Whole numCols) (hopen : row.OpenAt (i + 1))
    (hcell : row.inner[i]? = some cell) : cell.isWide = false := by
  by_contra hwide
  obtain ⟨next, hnext, hspacer⟩ := (h.paired.opens_iff i).mp ⟨cell, hcell, Bool.not_eq_false _ ▸ hwide⟩
  exact absurd (hopen next hnext) (by simp [hspacer])

variable {col : Nat} {bg : Color} {f : Cell → Cell}

theorem write_whole (h : row.Whole numCols)
    (hf : ∀ cell, (f cell).Narrow) (hwrite : row.write numCols col bg f = some after) : after.Whole numCols := by
  obtain ⟨middle, hreset, hmodify⟩ := Option.bind_eq_some_iff.mp hwrite
  obtain ⟨hmiddle, hnarrow, -⟩ := resetOtherHalf_spec h hreset
  obtain ⟨cell, hcell, hkept, -, hinner⟩ := modify_spec hmiddle.toKept hmodify
  refine ⟨hkept, ?_⟩
  rw [hinner]
  exact hmiddle.paired.set_plain hcell (hnarrow cell hcell) (hf cell)

theorem openAt_of_write (h : row.Whole numCols)
    (hwrite : row.write numCols col bg f = some after) : after.OpenAt (col + 1) := by
  obtain ⟨opened, hreset, hmodify⟩ := Option.bind_eq_some_iff.mp hwrite
  obtain ⟨hopened, hnarrow, -⟩ := resetOtherHalf_spec h hreset
  obtain ⟨cell, -, -, -, hinner⟩ := modify_spec hopened.toKept hmodify
  intro next hnext
  rw [hinner, List.getElem?_set_ne (by omega)] at hnext
  by_contra hspacer
  obtain ⟨cell', hcell', hwide⟩ := (hopened.paired.opens_iff col).mpr
    ⟨next, hnext, Bool.not_eq_false _ ▸ hspacer⟩
  exact absurd (hnarrow cell' hcell').1 (by simp [hwide])

variable {middle : Row} {f g : Cell → Cell}

theorem writePair_whole (h : row.Whole numCols)
    (hf : ∀ cell, (f cell).isWide = true ∧ (f cell).isSpacer = false)
    (hg : ∀ cell, (g cell).isWide = false ∧ (g cell).isSpacer = true)
    (hfirst : row.write numCols col bg f = some middle)
    (hsecond : middle.write numCols (col + 1) bg g = some after) : after.Whole numCols := by
  obtain ⟨opened, hreset, hmodify⟩ := Option.bind_eq_some_iff.mp hfirst
  obtain ⟨hopened, hnarrow, -⟩ := resetOtherHalf_spec h hreset
  obtain ⟨cell, hcell, hmiddle, hcol, hinner⟩ := modify_spec hopened.toKept hmodify
  obtain ⟨cleared, hreset', hmodify'⟩ := Option.bind_eq_some_iff.mp hsecond
  obtain ⟨next, hnext, hreset'⟩ := Option.bind_eq_some_iff.mp hreset'
  have hnext' : opened.inner[col + 1]? = some next := by
    rw [hinner, List.getElem?_set_ne (by omega)] at hnext
    exact hnext
  have hnextOpen := openAt_of_write h hfirst next hnext
  rw [if_neg fun hc => absurd hc.1 (by simpa [Cell.isSpacer] using hnextOpen)] at hreset'
  by_cases hwide : next.isWide = true
  · rw [if_pos ⟨hwide, hopened.lt_of_wide hnext' hwide⟩] at hreset'
    obtain ⟨hcleared, -, hlt, hcleared'⟩ := blankBoth_spec hmiddle hreset'
    obtain ⟨last, hlast, hafter, -, hafter'⟩ := modify_spec hcleared hmodify'
    obtain ⟨spacer, hspacer, hclose⟩ := (hopened.paired.opens_iff (col + 1)).mp ⟨next, hnext', hwide⟩
    have hpaired := hopened.paired.set_pair hspacer hclose (narrow_ofColor bg) (narrow_ofColor bg)
    refine ⟨hafter, ?_⟩
    have heq : after.inner =
        (((opened.inner.set (col + 1) (Cell.ofColor bg)).set (col + 1 + 1) (Cell.ofColor bg)).set col (f cell)).set
          (col + 1) (g last) := by
      rw [hafter', hcleared', hinner]
      apply List.ext_getElem?
      intro k
      simp only [List.getElem?_set, List.length_set]
      by_cases h0 : col = k <;> by_cases h1 : col + 1 = k <;> by_cases h2 : col + 1 + 1 = k <;>
        simp [h0, h1, h2] <;> omega
    rw [heq]
    apply hpaired.set_opens (x := cell) (y := Cell.ofColor bg) _ (hnarrow cell hcell) _ (narrow_ofColor bg)
      (hf cell) (hg last)
    · rw [List.getElem?_set_ne (by omega), List.getElem?_set_ne (by omega)]
      exact hcell
    · rw [List.getElem?_set_ne (by omega), List.getElem?_set_self (by rw [hopened.length]; omega)]
  · rw [if_neg fun hc => hwide hc.1] at hreset'
    obtain rfl := Option.some.inj hreset'
    obtain ⟨last, hlast, hafter, -, hafter'⟩ := modify_spec hmiddle hmodify'
    refine ⟨hafter, ?_⟩
    rw [hafter', hinner]
    exact hopened.paired.set_opens hcell (hnarrow cell hcell) hnext'
      ⟨Bool.not_eq_true _ ▸ hwide, hnextOpen⟩ (hf cell) (hg last)

def blankedRoom (row : Row) (col : Nat) : List Cell := (row.inner.set col {}).set (col + 1) {}

structure ReversedRoom (numCols col : Nat) (row : Row) : Prop extends Kept numCols row where
  lt : col + 2 < numCols
  paired : PairedCells (row.blankedRoom col)
  spacer : ∃ cell, row.inner[col]? = some cell ∧ cell.isSpacer = true ∧ cell.isWide = false
  wide : ∃ cell, row.inner[col + 1]? = some cell ∧ cell.isWide = true ∧ cell.isSpacer = false
  before : 0 < col → row.NarrowAt (col - 1)
  behind : row.NarrowAt (col + 2)

theorem blankedRoom_eq {x y : Cell} (hx : row.inner[col]? = some x) (hy : row.inner[col + 1]? = some y) :
    row.blankedRoom col = row.inner.take col ++ {} :: {} :: row.inner.drop (col + 2) := by
  have hcol : (row.inner.take col).length = col := by
    have hlt := (List.getElem?_eq_some_iff.mp hx).1
    rw [List.length_take]
    omega
  have hsplit := take_two_drop hx hy
  rw [blankedRoom]
  conv_lhs => rw [hsplit]
  rw [List.set_append_right _ _ (Nat.le_of_eq hcol), hcol, Nat.sub_self, List.set_cons_zero,
    List.set_append_right _ _ (by omega), hcol, Nat.add_sub_cancel_left, List.set_cons_succ, List.set_cons_zero]

theorem ReversedRoom.resetOtherHalf (h : row.ReversedRoom numCols col) {opened : Row}
    (hreset : row.resetOtherHalf numCols col bg = some opened) :
    opened.Kept numCols ∧ PairedCells (opened.blankedRoom col) ∧
      ∀ k, col < k → opened.inner[k]? = row.inner[k]? := by
  have hlt := h.lt
  have hlen := h.length
  obtain ⟨spacer, hspacer, hisSpacer, hnotWide⟩ := h.spacer
  obtain ⟨cell, hcell, hreset⟩ := Option.bind_eq_some_iff.mp hreset
  obtain rfl := Option.some.inj (hspacer.symm.trans hcell)
  by_cases hpos : col > 0
  · rw [if_pos ⟨hisSpacer, hpos⟩] at hreset
    obtain ⟨hkept, -, -, hinner⟩ := blankBoth_spec h.toKept hreset
    obtain ⟨before, hbefore⟩ : ∃ before, row.inner[col - 1]? = some before :=
      ⟨_, List.getElem?_eq_getElem (by omega)⟩
    have hblanked : (row.blankedRoom col)[col - 1]? = some before := by
      rw [blankedRoom, List.getElem?_set_ne (by omega), List.getElem?_set_ne (by omega)]
      exact hbefore
    have hset := h.paired.set_plain hblanked (h.before hpos before hbefore) (narrow_ofColor bg)
    refine ⟨hkept, ?_, ?_⟩
    · rw [blankedRoom, hinner, List.set_comm _ _ (show col - 1 ≠ col by omega),
        List.set_comm _ _ (show col - 1 ≠ col + 1 by omega), List.set_set]
      exact hset
    · intro k hk
      rw [hinner, List.getElem?_set_ne (by omega), List.getElem?_set_ne (by omega)]
  · rw [if_neg fun hc => hpos hc.2, if_neg fun hc => absurd hc.1 (by simpa [Cell.isWide] using hnotWide)] at hreset
    obtain rfl := Option.some.inj hreset
    exact ⟨h.toKept, h.paired, fun _ _ => rfl⟩

theorem ReversedRoom.openAt_of_write (h : row.ReversedRoom numCols col)
    (hwrite : row.write numCols col bg f = some after) : after.OpenAt (col + 1) := by
  obtain ⟨opened, hreset, hmodify⟩ := Option.bind_eq_some_iff.mp hwrite
  obtain ⟨hopened, -, hsame⟩ := h.resetOtherHalf hreset
  obtain ⟨cell, -, -, -, hinner⟩ := modify_spec hopened hmodify
  obtain ⟨wide, hwide, -, hnotSpacer⟩ := h.wide
  intro next hnext
  rw [hinner, List.getElem?_set_ne (by omega), hsame _ (Nat.lt_succ_self col)] at hnext
  exact Option.some.inj (hwide.symm.trans hnext) ▸ hnotSpacer

theorem ReversedRoom.writePair (h : row.ReversedRoom numCols col) (hf : ∀ cell, (f cell).isWide = true ∧ (f cell).isSpacer = false)
    (hg : ∀ cell, (g cell).isWide = false ∧ (g cell).isSpacer = true)
    (hfirst : row.write numCols col bg f = some middle)
    (hsecond : middle.write numCols (col + 1) bg g = some after) : after.Whole numCols := by
  have hlt := h.lt
  have hlen := h.length
  obtain ⟨opened, hreset, hmodify⟩ := Option.bind_eq_some_iff.mp hfirst
  obtain ⟨wide, hwide, hisWide, hnotSpacer⟩ := h.wide
  obtain ⟨hopenedKept, hpaired, hsame⟩ := h.resetOtherHalf hreset
  obtain ⟨cell, hcell, hmiddle, -, hinner⟩ := modify_spec hopenedKept hmodify
  obtain ⟨cleared, hreset', hmodify'⟩ := Option.bind_eq_some_iff.mp hsecond
  obtain ⟨next, hnext, hreset'⟩ := Option.bind_eq_some_iff.mp hreset'
  have hnext' : row.inner[col + 1]? = some next := by
    rw [hinner, List.getElem?_set_ne (by omega), hsame _ (by omega)] at hnext
    exact hnext
  obtain rfl := Option.some.inj (hwide.symm.trans hnext')
  rw [if_neg fun hc => absurd hc.1 (by simpa [Cell.isSpacer] using hnotSpacer), if_pos ⟨hisWide, hlt⟩] at hreset'
  obtain ⟨hcleared, -, -, hcleared'⟩ := blankBoth_spec hmiddle hreset'
  obtain ⟨last, hlast, hafter, -, hafter'⟩ := modify_spec hcleared hmodify'
  obtain ⟨behind, hbehind⟩ : ∃ behind, row.inner[col + 2]? = some behind :=
    ⟨_, List.getElem?_eq_getElem (by omega)⟩
  have hblanked : ((opened.inner.set col {}).set (col + 1) {})[col + 2]? = some behind := by
    rw [List.getElem?_set_ne (by omega), List.getElem?_set_ne (by omega), hsame _ (by omega)]
    exact hbehind
  have hset := hpaired.set_plain hblanked (h.behind behind hbehind) (narrow_ofColor bg)
  have hopenedLen := hopenedKept.length
  refine ⟨hafter, ?_⟩
  have heq : after.inner = ((((opened.inner.set col {}).set (col + 1) {}).set (col + 2) (Cell.ofColor bg)).set col
      (f cell)).set (col + 1) (g last) := by
    rw [hafter', hcleared', hinner]
    apply List.ext_getElem?
    intro k
    simp only [List.getElem?_set, List.length_set]
    by_cases h0 : col = k <;> by_cases h1 : col + 1 = k <;> by_cases h2 : col + 2 = k <;>
      simp [h0, h1, h2] <;> omega
  rw [heq]
  apply hset.set_opens (x := {}) (y := {}) _ (narrow_of_flags rfl) _ (narrow_of_flags rfl) (hf cell) (hg last)
  · rw [blankedRoom, List.getElem?_set_ne (by omega), List.getElem?_set_ne (by omega),
      List.getElem?_set_self (by omega)]
  · rw [blankedRoom, List.getElem?_set_ne (by omega), List.getElem?_set_self (by rw [List.length_set]; omega)]

theorem makeRoom_one (h : row.Whole numCols) (hcol : col + 1 < numCols)
    (hroom : row.makeRoom numCols 1 col bg = some after) : after.Whole numCols := by
  obtain ⟨first, hstart, hroom⟩ := Option.bind_eq_some_iff.mp hroom
  obtain ⟨second, hstop, hshift⟩ := Option.bind_eq_some_iff.mp hroom
  obtain ⟨hfirst, hnarrow, -⟩ := resetWideCharAtStartBoundary_spec h hstart
  obtain ⟨hsecond, hopen, hloose⟩ := resetWideCharAtEndBoundary_spec hfirst hstop
  have hcolOpen := hloose.openAt _ hnarrow.openAt
  rw [Nat.sub_sub, Nat.add_comm 1 col] at hshift
  obtain ⟨hkept, htake, hdrop⟩ := shiftRight_to_end hsecond.toKept (Nat.le_of_lt hcol) hshift
  obtain ⟨-, hinner⟩ := shiftRight_spec hsecond.toKept hshift
  have hgap := swapRight_gap_one col (numCols - (col + 1)) second.inner (by rw [hsecond.length]; omega)
  rw [← hinner, show col + (numCols - (col + 1)) = numCols - 1 by omega] at hgap
  obtain ⟨last, hlast⟩ : ∃ last, second.inner[numCols - 1]? = some last :=
    ⟨_, List.getElem?_eq_getElem (by rw [hsecond.length]; omega)⟩
  refine ⟨hkept, ?_⟩
  rw [take_one_drop (hgap.trans hlast), htake, hdrop]
  apply (hsecond.paired.take hcolOpen).append
  apply Paired.plain ⟨hsecond.last_not_wide hlast, hopen last hlast⟩
  apply (hsecond.paired.take hopen).drop
  intro cell hcell
  rw [List.getElem?_take] at hcell
  split at hcell
  next => exact hcolOpen cell hcell
  next => cases hcell

/-- Room for a wide character must not leave reversed halves before the cursor to write over. -/
def InsertsWhole (row : Row) (numCols col : Nat) : Prop :=
  col = 0 ∨ (numCols - col) % 2 = 0 ∨ row.OpenAt (col - 1) ∨ row.OpenAt (numCols - 1)

theorem makeRoom_two (h : row.Whole numCols) (hcol : col + 2 < numCols)
    (hsafe : row.InsertsWhole numCols col) (hroom : row.makeRoom numCols 2 col bg = some after) :
    after.Whole numCols ∨ after.ReversedRoom numCols col := by
  obtain ⟨first, hstart, hroom⟩ := Option.bind_eq_some_iff.mp hroom
  obtain ⟨second, hstop, hshift⟩ := Option.bind_eq_some_iff.mp hroom
  obtain ⟨hfirst, hnarrow, hloose⟩ := resetWideCharAtStartBoundary_spec h hstart
  obtain ⟨hsecond, hopen, hloose'⟩ := resetWideCharAtEndBoundary_spec hfirst hstop
  have hcolNarrow := hloose'.narrowAt _ hnarrow
  rw [Nat.sub_sub, Nat.add_comm 2 col] at hshift
  obtain ⟨hkept, htake, hdrop⟩ := shiftRight_to_end hsecond.toKept (Nat.le_of_lt hcol) hshift
  obtain ⟨-, hinner⟩ := shiftRight_spec hsecond.toKept hshift
  have hgap := swapRight_gap_two col (numCols - (col + 2)) second.inner (by rw [hsecond.length]; omega)
  simp only [← hinner] at hgap
  rw [show col + (numCols - (col + 2)) = numCols - 2 by omega,
    show numCols - 2 + 1 = numCols - 1 by omega] at hgap
  obtain ⟨a, ha⟩ : ∃ a, second.inner[numCols - 2]? = some a :=
    ⟨_, List.getElem?_eq_getElem (by rw [hsecond.length]; omega)⟩
  obtain ⟨b, hb⟩ : ∃ b, second.inner[numCols - 1]? = some b :=
    ⟨_, List.getElem?_eq_getElem (by rw [hsecond.length]; omega)⟩
  have haOpen := hopen a ha
  have hbWide := hsecond.last_not_wide hb
  have hbefore := hsecond.paired.take hcolNarrow.openAt
  have hmoved : PairedCells ((second.inner.take (numCols - 2)).drop col) := by
    apply (hsecond.paired.take hopen).drop
    intro cell hcell
    rw [List.getElem?_take] at hcell
    split at hcell
    next => exact hcolNarrow.openAt cell hcell
    next => cases hcell
  by_cases hwide : a.isWide = true
  · obtain ⟨b', hb', hspacer⟩ := (hsecond.paired.opens_iff (numCols - 2)).mp ⟨a, ha, hwide⟩
    rw [show numCols - 2 + 1 = numCols - 1 by omega] at hb'
    obtain rfl := Option.some.inj (hb.symm.trans hb')
    by_cases heven : (numCols - (col + 2)) % 2 = 0
    · rw [if_pos heven, ha, hb] at hgap
      refine Or.inl ⟨hkept, ?_⟩
      rw [take_two_drop hgap.1 hgap.2, htake, hdrop]
      exact hbefore.append (Paired.pair ⟨hwide, haOpen⟩ ⟨hbWide, hspacer⟩ hmoved)
    · rw [if_neg heven, ha, hb] at hgap
      refine Or.inr ⟨hkept, hcol, ?_, ⟨b, hgap.1, hspacer, hbWide⟩, ⟨a, hgap.2, hwide, haOpen⟩, ?_, ?_⟩
      · rw [blankedRoom_eq hgap.1 hgap.2, htake, hdrop]
        exact hbefore.append (Paired.plain (narrow_of_flags rfl) (Paired.plain (narrow_of_flags rfl) hmoved))
      · intro hpos cell hcell
        have hcell' : second.inner[col - 1]? = some cell := by
          have hget := congrArg (fun l => l[col - 1]?) htake
          simp only [List.getElem?_take, if_pos (show col - 1 < col by omega)] at hget
          exact hget ▸ hcell
        have hopenBefore : second.OpenAt (col - 1) := by
          have hrow : row.OpenAt (col - 1) := by
            obtain hzero | heven' | hbefore | hlast := hsafe
            · exact absurd hzero (Nat.ne_of_gt hpos)
            · exact absurd (show (numCols - (col + 2)) % 2 = 0 by omega) heven
            · exact hbefore
            · exact absurd (hloose'.openAt _ (hloose.openAt _ hlast) b hb) (by simp [hspacer])
          exact hloose'.openAt _ (hloose.openAt _ hrow)
        refine ⟨?_, hopenBefore cell hcell'⟩
        apply hsecond.not_wide_of_openAt (i := col - 1) _ hcell'
        rw [Nat.sub_add_cancel hpos]
        exact hcolNarrow.openAt
      · intro cell hcell
        have hget := congrArg (fun l => l[0]?) hdrop
        simp only [List.getElem?_drop, List.getElem?_take, Nat.add_zero,
          if_pos (show col < numCols - 2 by omega)] at hget
        exact hcolNarrow cell (hget ▸ hcell)
  · have haNarrow : a.Narrow := ⟨Bool.not_eq_true _ ▸ hwide, haOpen⟩
    have hbNarrow : b.Narrow := by
      refine ⟨hbWide, ?_⟩
      by_contra hspacer
      have hb' : second.inner[numCols - 2 + 1]? = some b := by
        rw [show numCols - 2 + 1 = numCols - 1 by omega]
        exact hb
      obtain ⟨a', ha', hwide'⟩ := (hsecond.paired.opens_iff (numCols - 2)).mpr
        ⟨b, hb', Bool.not_eq_false _ ▸ hspacer⟩
      obtain rfl := Option.some.inj (ha.symm.trans ha')
      exact hwide hwide'
    refine Or.inl ⟨hkept, ?_⟩
    by_cases heven : (numCols - (col + 2)) % 2 = 0
    · rw [if_pos heven, ha, hb] at hgap
      rw [take_two_drop hgap.1 hgap.2, htake, hdrop]
      exact hbefore.append (Paired.plain haNarrow (Paired.plain hbNarrow hmoved))
    · rw [if_neg heven, ha, hb] at hgap
      rw [take_two_drop hgap.1 hgap.2, htake, hdrop]
      exact hbefore.append (Paired.plain hbNarrow (Paired.plain haNarrow hmoved))

end Row

end InfiniShell.Terminal
