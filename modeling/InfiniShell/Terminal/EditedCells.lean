import InfiniShell.Terminal.WideCells

namespace InfiniShell.Terminal

variable {cells : List Cell} {bg : Color} {p q : Nat → Prop} [DecidablePred p] [DecidablePred q] {i b n start stop col : Nat}

def WideAt (cells : List Cell) (i : Nat) : Prop := ∃ cell, cells[i]? = some cell ∧ cell.isWide = true

/-- The second half. -/
def SpacerAt (cells : List Cell) (i : Nat) : Prop := ∃ cell, cells[i]? = some cell ∧ cell.isSpacer = true

def BlankAt (cells : List Cell) (bg : Color) (i : Nat) : Prop := cells[i]? = some (Cell.ofColor bg)

instance : Decidable (WideAt cells i) :=
  decidable_of_iff _ (Option.any_eq_true Cell.isWide cells[i]?)

instance : Decidable (SpacerAt cells i) :=
  decidable_of_iff _ (Option.any_eq_true Cell.isSpacer cells[i]?)

instance : Decidable (BlankAt cells bg i) := inferInstanceAs (Decidable (_ = _))

/-- A wide character has its halves on the two sides of the boundary before the cell. -/
def Straddles (cells : List Cell) (b : Nat) : Prop := 0 < b ∧ WideAt cells (b - 1) ∧ SpacerAt cells b

instance : Decidable (Straddles cells b) := inferInstanceAs (Decidable (_ ∧ _))

theorem BlankAt.not_wide (h : BlankAt cells bg i) : ¬ WideAt cells i := by
  rintro ⟨cell, hcell, hwide⟩
  obtain rfl := Option.some.inj (h.symm.trans hcell)
  cases hwide

theorem BlankAt.not_spacer (h : BlankAt cells bg i) : ¬ SpacerAt cells i := by
  rintro ⟨cell, hcell, hspacer⟩
  obtain rfl := Option.some.inj (h.symm.trans hcell)
  cases hspacer

theorem WideAt.lt (h : WideAt cells i) : i < cells.length := by
  obtain ⟨cell, hcell, -⟩ := h
  exact (List.getElem?_eq_some_iff.mp hcell).1

theorem SpacerAt.lt (h : SpacerAt cells i) : i < cells.length := by
  obtain ⟨cell, hcell, -⟩ := h
  exact (List.getElem?_eq_some_iff.mp hcell).1

section Blanking

variable (p) in
def blankWhere (bg : Color) (cells : List Cell) : List Cell :=
  cells.mapIdx fun i cell => if p i then Cell.ofColor bg else cell

@[simp] theorem length_blankWhere : (blankWhere p bg cells).length = cells.length := List.length_mapIdx

theorem getElem?_blankWhere : (blankWhere p bg cells)[i]? =
    if p i then cells[i]?.map fun _ => Cell.ofColor bg else cells[i]? := by
  rw [blankWhere, List.getElem?_mapIdx]
  split <;> simp

theorem getElem?_blankWhere_eq_iff : (blankWhere p bg cells)[i]? = (blankWhere q bg cells)[i]? ↔
    (i < cells.length → (p i ↔ q i) ∨ BlankAt cells bg i) := by
  rw [getElem?_blankWhere, getElem?_blankWhere, BlankAt]
  by_cases hi : i < cells.length
  · rw [List.getElem?_eq_getElem hi]
    by_cases hp : p i <;> by_cases hq : q i <;> simp [hp, hq, hi, eq_comm]
  · simp [hi]

theorem take_blankWhere_eq_iff : (blankWhere p bg cells).take n = (blankWhere q bg cells).take n ↔
    ∀ i, i < n → i < cells.length → (p i ↔ q i) ∨ BlankAt cells bg i := by
  rw [List.ext_getElem?_iff]
  apply forall_congr'
  intro i
  rw [List.getElem?_take, List.getElem?_take]
  by_cases hi : i < n
  · rw [if_pos hi, if_pos hi, getElem?_blankWhere_eq_iff]
    simp [hi]
  · simp [hi]

theorem drop_blankWhere_eq_iff : (blankWhere p bg cells).drop n = (blankWhere q bg cells).drop n ↔
    ∀ i, n ≤ i → i < cells.length → (p i ↔ q i) ∨ BlankAt cells bg i := by
  rw [List.ext_getElem?_iff]
  constructor
  · intro h i hn
    have hi := h (i - n)
    rwa [List.getElem?_drop, List.getElem?_drop, Nat.add_sub_cancel' hn, getElem?_blankWhere_eq_iff] at hi
  · intro h i
    rw [List.getElem?_drop, List.getElem?_drop, getElem?_blankWhere_eq_iff]
    exact h _ (Nat.le_add_right n i)

end Blanking

section Edits

def Mended (cells : List Cell) (b i : Nat) : Prop := Straddles cells b ∧ (i = b ∨ i + 1 = b)

instance : Decidable (Mended cells b i) := inferInstanceAs (Decidable (_ ∧ _))

def mended (a b : Nat) (bg : Color) (cells : List Cell) : List Cell :=
  blankWhere (fun i => Mended cells a i ∨ Mended cells b i) bg cells

def overwritten (start stop : Nat) (bg : Color) (cells : List Cell) : List Cell :=
  cells.take start ++ List.replicate (stop - start) (Cell.ofColor bg) ++ cells.drop stop

def blanked (start stop : Nat) (bg : Color) (cells : List Cell) : List Cell :=
  if stop ≤ start then cells else overwritten start stop bg (mended start stop bg cells)

/-- The cells from the column on shifted right by `count`, and the gap blank. -/
def shiftedRight (col count : Nat) (bg : Color) (cells : List Cell) : List Cell :=
  if count = 0 then cells
  else
    let kept := mended col (cells.length - count) bg cells
    kept.take col ++ List.replicate count (Cell.ofColor bg) ++ (kept.take (cells.length - count)).drop col

def shiftedLeft (col count : Nat) (bg : Color) (cells : List Cell) : List Cell :=
  if count = 0 then cells
  else
    let kept := mended col (col + count) bg cells
    kept.take col ++ kept.drop (col + count) ++ List.replicate count (Cell.ofColor bg)

end Edits

section Boundaries

def ResetAtStart (cells : List Cell) (col i : Nat) : Prop :=
  (0 < col ∧ SpacerAt cells col) ∧ (i = col ∨ i + 1 = col) ∨
    ¬ (0 < col ∧ SpacerAt cells col) ∧ WideAt cells col ∧ col + 1 < cells.length ∧ (i = col ∨ i = col + 1)

def ResetBefore (cells : List Cell) (b i : Nat) : Prop := 0 < b ∧ SpacerAt cells b ∧ (i = b ∨ i + 1 = b)

instance : Decidable (ResetAtStart cells col i) := inferInstanceAs (Decidable (_ ∧ _ ∨ _ ∧ _))

instance : Decidable (ResetBefore cells b i) := inferInstanceAs (Decidable (_ ∧ _))

/-- A spacer behind the boundary belongs to a wide character, or stands behind a blank. -/
def LeftClean (cells : List Cell) (bg : Color) (b : Nat) : Prop :=
  0 < b → SpacerAt cells b → WideAt cells (b - 1) ∨ BlankAt cells bg (b - 1)

def NoStray (cells : List Cell) (b : Nat) : Prop := 0 < b → SpacerAt cells b → WideAt cells (b - 1)

/-- A wide half that alone is in the range has its spacer, or a blank, behind it. -/
def RightClean (cells : List Cell) (bg : Color) (col stop : Nat) : Prop :=
  stop = col + 1 → stop < cells.length → WideAt cells col → ¬ (0 < col ∧ SpacerAt cells col) →
    SpacerAt cells stop ∨ BlankAt cells bg stop

instance : Decidable (LeftClean cells bg b) := inferInstanceAs (Decidable (_ → _))

instance : Decidable (NoStray cells b) := inferInstanceAs (Decidable (_ → _))

instance : Decidable (RightClean cells bg col stop) := inferInstanceAs (Decidable (_ → _))

/-- What the resets at the two boundaries blank at the column is what they should, or blank before. -/
def Agrees (cells : List Cell) (bg : Color) (col b b' i : Nat) : Prop :=
  ((ResetAtStart cells col i ∨ ResetBefore cells b i) ↔ (Mended cells col i ∨ Mended cells b' i)) ∨ BlankAt cells bg i

theorem agrees_before_iff {b' : Nat} (hle : col ≤ b) (hle' : col ≤ b') :
    (∀ i, i < col → i < cells.length → Agrees cells bg col b b' i) ↔ LeftClean cells bg col := by
  constructor
  · intro h hpos hspacer
    have hagree := h (col - 1) (by omega) (by have := hspacer.lt; omega)
    grind [Agrees, ResetAtStart, ResetBefore, Mended, Straddles]
  · intro h i hi hlt
    grind [Agrees, ResetAtStart, ResetBefore, Mended, Straddles, LeftClean]

theorem agrees_behind_iff (hlt : col < stop) :
    (∀ i, stop ≤ i → i < cells.length → Agrees cells bg col stop stop i) ↔
      NoStray cells stop ∧ RightClean cells bg col stop := by
  constructor
  · intro h
    constructor
    · intro hpos hspacer
      have hagree := h stop (Nat.le_refl _) hspacer.lt
      have hnot : ¬ BlankAt cells bg stop := fun hblank => hblank.not_spacer hspacer
      grind [Agrees, ResetAtStart, ResetBefore, Mended, Straddles]
    · intro heq hstop hwide hnot
      have hagree := h stop (Nat.le_refl _) hstop
      grind [Agrees, ResetAtStart, ResetBefore, Mended, Straddles]
  · intro ⟨hstray, hright⟩ i hi hlen
    grind [Agrees, ResetAtStart, ResetBefore, Mended, Straddles, NoStray, RightClean]

structure RangeClean (cells : List Cell) (bg : Color) (start stop : Nat) : Prop where
  left : LeftClean cells bg start
  stray : NoStray cells stop
  right : RightClean cells bg start stop

/-- What `insert_blank` needs of the cells that it keeps. -/
structure Shiftable (cells : List Cell) (bg : Color) (col b : Nat) : Prop where
  start : NoStray cells col ∨ LeftClean cells bg col ∧ col + 1 = b ∧ Straddles cells b
  cursor : WideAt cells col → Straddles cells col ∨ col + 1 = b ∧ SpacerAt cells b
  stop : LeftClean cells bg b ∨ col + 1 = b ∧ Straddles cells col

theorem agrees_kept_iff (hlt : col < b) (hb : b < cells.length) :
    (∀ i, i < b → i < cells.length → Agrees cells bg col b b i) ↔ Shiftable cells bg col b := by
  constructor
  · intro h
    constructor
    · by_cases hstray : NoStray cells col
      · exact .inl hstray
      · have hspacer : 0 < col ∧ SpacerAt cells col := by grind [NoStray]
        have hagree := h col hlt (by omega)
        have hbefore := h (col - 1) (by omega) (by omega)
        have hnot : ¬ BlankAt cells bg col := fun hblank => hblank.not_spacer hspacer.2
        grind [Agrees, ResetAtStart, ResetBefore, Mended, Straddles, NoStray, LeftClean]
    · intro hwide
      have hagree := h col hlt (by omega)
      have hnot : ¬ BlankAt cells bg col := fun hblank => hblank.not_wide hwide
      grind [Agrees, ResetAtStart, ResetBefore, Mended, Straddles]
    · have hagree := h (b - 1) (by omega) (by omega)
      grind [Agrees, ResetAtStart, ResetBefore, Mended, Straddles, LeftClean]
  · intro ⟨hstart, hcursor, hstop⟩ i hi hlen
    grind [Agrees, ResetAtStart, ResetBefore, Mended, Straddles, NoStray, LeftClean]

end Boundaries

end InfiniShell.Terminal
