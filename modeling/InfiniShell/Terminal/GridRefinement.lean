import InfiniShell.Terminal.GridScroll

namespace InfiniShell.Terminal

open Storage

/-- The grid as the plain list of its rows. -/
structure Screen where
  rows : List Row
  cursor : Cursor

namespace Screen

variable (columns : Nat)

/-- The rows kept end at or below the cursor, and those below it go first. -/
def shrunk (screen : Screen) (target : Nat) : List Row :=
  (screen.rows.drop (screen.cursor.point.row + 1 - target)).take target

def grown (screen : Screen) (target : Nat) : List Row :=
  screen.rows ++ List.replicate (target - screen.rows.length) (Row.new columns)

def targetLines (screen : Screen) (lines : Nat) (finished : Bool) : Nat :=
  if lines = 0 then screen.rows.length
  else if finished then min lines (screen.cursor.point.row + 1) else lines

def resize (screen : Screen) (target : Nat) : Screen :=
  if screen.rows.length < target then { screen with rows := screen.grown columns target }
  else
    { rows := screen.shrunk target
      cursor := { screen.cursor with point := screen.cursor.point.clampRow (target - 1) } }

def withTemplate (screen : Screen) (template : Cell) : Screen :=
  { screen with cursor := { screen.cursor with template } }

theorem resize_withTemplate (screen : Screen) (template : Cell) (target : Nat) :
    (screen.withTemplate template).resize columns target = (screen.resize columns target).withTemplate template := by
  rw [resize, resize, withTemplate]
  split <;> rfl

theorem resize_same {screen : Screen} (h : screen.cursor.point.row < screen.rows.length) :
    screen.resize columns screen.rows.length = screen := by
  rw [resize, if_neg (Nat.lt_irrefl _), shrunk, VisiblePoint.clampRow, Nat.min_eq_left (by omega),
    show screen.cursor.point.row + 1 - screen.rows.length = 0 by omega, List.drop_zero, List.take_length]

end Screen

namespace GridStorage

structure Shows (columns : Nat) (grid : GridStorage) (screen : Screen) : Prop where
  sound : grid.Sound columns
  rows : grid.raw.rows = screen.rows
  cursor : grid.cursor = screen.cursor

variable {columns : Nat} {grid : GridStorage} {screen : Screen} {rows : List Row}

theorem Sound.becomes (h : grid.Sound columns) {raw : Storage} {n : Nat}
    (hraw : Becomes columns grid.raw rows raw) (hlen : rows.length = grid.rows) :
    ({ grid with raw, numLinesTruncated := n } : GridStorage).Sound columns where
  raw := hraw.sound
  rows_eq := by rw [hraw.len, hlen]
  rows_pos := h.rows_pos
  columns_pos := h.columns_pos
  maxScrollLimit := h.maxScrollLimit
  cursor_lt := h.cursor_lt

theorem Sound.rows_length (h : grid.Sound columns) : grid.raw.rows.length = grid.rows := by
  rw [Storage.rows_length, h.rows_eq]

variable {region : Region} {distance : Nat}

theorem scrolledUp_length (blank : Row)
    (h : Fits region distance rows.length) : (scrolledUp rows region distance blank).length = rows.length := by
  obtain ⟨hstart, hstop, hdistance⟩ := h
  simp [scrolledUp]
  omega

theorem scrolledDown_length (blank : Row)
    (h : Fits region distance rows.length) : (scrolledDown rows region distance blank).length = rows.length := by
  obtain ⟨hstart, hstop, hdistance⟩ := h
  simp [scrolledDown]
  omega

theorem scrolledUp_all (rows : List Row) (distance : Nat) (blank : Row) :
    scrolledUp rows ⟨0, rows.length⟩ distance blank = rows.drop distance ++ List.replicate distance blank := by
  simp [scrolledUp]

variable {target : Nat} (h : Shows columns grid screen)
include h

theorem growLines_shows (hlayout : grid.raw.isSequential = false)
    (htemplate : screen.cursor.template = {}) (hlt : grid.rows < target) :
    ∃ grid', grid.growLines target = some grid' ∧
      Shows columns grid' { screen with rows := screen.grown columns target } ∧
      grid'.raw.isSequential = grid.raw.isSequential := by
  obtain ⟨hsound, hrows, hcursor⟩ := h
  have hlen := hsound.rows_eq
  have hpos := hsound.rows_pos
  obtain ⟨grown, hgrow, hgrown, hsame, hgrownLen, hdrop⟩ :=
    grow_spec hsound.raw hlayout (by omega) (show grid.raw.len ≤ target by omega)
  let grid₁ : GridStorage := { grid with raw := grown, rows := target }
  have hsound₁ : grid₁.Sound columns :=
    ⟨hgrown, hgrownLen.symm, show 0 < target by omega, hsound.columns_pos, hsound.maxScrollLimit, hsound.cursor_lt.trans hlt⟩
  have hfits : Fits ⟨0, target⟩ (target - grid.rows) target := ⟨Nat.zero_le _, Nat.le_refl _, Nat.sub_le _ _⟩
  obtain ⟨raw, n, hscroll, hbecomes⟩ := scrollUp_becomes hsound₁ hfits
  have hgrownRows : grown.rows.length = target := by rw [Storage.rows_length, hgrownLen]
  have hshown : scrolledUp grown.rows ⟨0, target⟩ (target - grid.rows) (Row.blank columns grid.cursor.template) =
      screen.grown columns target := by
    have hall := scrolledUp_all grown.rows (target - grid.rows) (Row.blank columns grid.cursor.template)
    rw [hgrownRows] at hall
    rw [hall, hlen, hdrop, hrows, hcursor, htemplate, Screen.grown, ← hrows, Storage.rows_length]
    rfl
  have hlength : (screen.grown columns target).length = target := by
    rw [← hshown, scrolledUp_length _ (by rwa [hgrownRows]), hgrownRows]
  have hresult : ({ grid₁ with raw, numLinesTruncated := n } : GridStorage).Sound columns := by
    apply hsound₁.becomes hbecomes
    exact (congrArg List.length hshown).trans hlength
  refine ⟨{ grid₁ with raw, numLinesTruncated := n }, ?_, ⟨hresult, hbecomes.rows.trans hshown, hcursor⟩,
    hbecomes.isSequential.trans hsame⟩
  have hdecrease : ({ grid₁ with raw, numLinesTruncated := n } : GridStorage).decreaseScrollLimit
      (target - grid.rows) = some { grid₁ with raw, numLinesTruncated := n } := by
    rw [decreaseScrollLimit, hresult.historySize]
    simp
  have hsome : (0 : Nat) ≠ target - grid.rows := by omega
  simp only [growLines, checkedSub, if_pos hlt.le, hgrow, Option.bind_eq_bind, Option.bind_some]
  change (grid₁.historySize.bind _) = _
  rw [hsound₁.historySize, Option.bind_some, Nat.zero_min, if_pos hsome, Nat.sub_zero, hscroll, Option.bind_some]
  exact hdecrease

theorem scrollIntoView_becomes : ∃ raw n, grid.scrollIntoView target (target - 1) = some { grid with
        raw, numLinesTruncated := n
        cursor := { grid.cursor with point := grid.cursor.point.clampRow (target - 1) } } ∧
      Becomes columns grid.raw raw.rows raw ∧ raw.len = grid.rows ∧
      (target ≤ grid.rows → raw.rows.take target = screen.shrunk target) := by
  obtain ⟨hsound, hrows, hcursor⟩ := h
  have hlen := hsound.rows_length
  have hcursorLt := hsound.cursor_lt
  rw [scrollIntoView]
  by_cases hrequired : grid.cursor.point.row + 1 - target > 0
  · have hfits : Fits ⟨0, grid.rows⟩ (grid.cursor.point.row + 1 - target) grid.rows :=
      ⟨Nat.zero_le _, Nat.le_refl _, by simp only [Nat.sub_zero]; omega⟩
    obtain ⟨raw, n, hscroll, hbecomes⟩ := scrollUp_becomes hsound hfits
    have hall := scrolledUp_all grid.raw.rows (grid.cursor.point.row + 1 - target)
      (Row.blank columns grid.cursor.template)
    rw [hlen] at hall
    rw [hall] at hbecomes
    refine ⟨raw, n, ?_, ⟨hbecomes.sound, rfl, hbecomes.isSequential⟩, ?_, ?_⟩
    · rw [if_pos hrequired, hscroll, Option.map_some]
    · rw [hbecomes.len]
      simp
      omega
    · intro hle
      rw [hbecomes.rows, List.take_append_of_le_length (by rw [List.length_drop]; omega), Screen.shrunk, hrows, hcursor]
  · refine ⟨grid.raw, grid.numLinesTruncated, ?_, ⟨hsound.raw, rfl, rfl⟩, hsound.rows_eq.symm, ?_⟩
    · rw [if_neg hrequired, VisiblePoint.clampRow, Nat.min_eq_left (by omega)]
    · intro _
      rw [Screen.shrunk, ← hrows, ← hcursor, show grid.cursor.point.row + 1 - target = 0 by omega, List.drop_zero]

theorem shrinkLines_shows (hlayout : grid.raw.isSequential = false)
    (hpos : 0 < target) (hlt : target < grid.rows) :
    ∃ grid', grid.shrinkLines target = some grid' ∧
      Shows columns grid' { rows := screen.shrunk target
                            cursor := { screen.cursor with point := screen.cursor.point.clampRow (target - 1) } } ∧
      grid'.raw.isSequential = grid.raw.isSequential := by
  obtain ⟨raw₁, n, hscroll, hbecomes₁, hlen₁, htake⟩ := scrollIntoView_becomes h
  obtain ⟨hsound, hrows, hcursor⟩ := h
  obtain ⟨raw₂, hshrink, hbecomes₂⟩ := shrink_becomes hbecomes₁.sound (hbecomes₁.isSequential.trans hlayout) hpos
    (hlt.le.trans_eq hlen₁.symm)
  rw [htake hlt.le] at hbecomes₂
  rw [hlen₁] at hshrink
  obtain ⟨turned, hrotate, hvisible⟩ := Option.bind_eq_some_iff.mp hshrink
  have hlength : (screen.shrunk target).length = target := by
    rw [← htake hlt.le, List.length_take, Storage.rows_length, hlen₁]
    exact Nat.min_eq_left hlt.le
  simp only [GridStorage.shrinkLines, checkedSub, if_pos (show 1 ≤ target by omega), Option.bind_eq_bind,
    Option.bind_some, hscroll, if_pos hlt.le, hrotate, hvisible]
  refine ⟨_, rfl, ⟨⟨hbecomes₂.sound, ?_, hpos, hsound.columns_pos, hsound.maxScrollLimit, ?_⟩, hbecomes₂.rows, ?_⟩,
    hbecomes₂.isSequential.trans hbecomes₁.isSequential⟩
  · exact hlength.symm.trans hbecomes₂.len.symm
  · exact Nat.lt_of_le_of_lt (Nat.min_le_right _ _) (show target - 1 < target by omega)
  · rw [← hcursor]

theorem Shows.withTemplate (template : Cell) :
    Shows columns (grid.withTemplate template) (screen.withTemplate template) where
  sound := ⟨h.sound.raw, h.sound.rows_eq, h.sound.rows_pos, h.sound.columns_pos, h.sound.maxScrollLimit,
    h.sound.cursor_lt⟩
  rows := h.rows
  cursor := by rw [GridStorage.withTemplate, Screen.withTemplate, h.cursor]

theorem Shows.rows_length : screen.rows.length = grid.rows := by
  rw [← h.rows, h.sound.rows_length]

theorem Shows.cursor_lt : screen.cursor.point.row < screen.rows.length := by
  rw [← h.cursor, h.rows_length]
  exact h.sound.cursor_lt

theorem Shows.targetLines {lines : Nat} (hlines : lines ≠ 0) (finished : Bool) :
    (grid.withTemplate {}).targetLines lines finished = screen.targetLines lines finished := by
  rw [GridStorage.targetLines, Screen.targetLines, if_neg hlines, ← h.cursor]
  rfl

theorem changeLines_shows (htemplate : screen.cursor.template = {})
    (hpos : 0 < target) (hlayout : grid.raw.isSequential = true → target = screen.rows.length) :
    ∃ grid', grid.changeLines target = some grid' ∧
      Shows columns grid' (screen.resize columns target) ∧ grid'.raw.isSequential = grid.raw.isSequential := by
  have hlen := h.rows_length
  have hreversed : target ≠ grid.rows → grid.raw.isSequential = false := by
    intro hne
    cases hseq : grid.raw.isSequential with
    | false => rfl
    | true => exact absurd ((hlayout hseq).trans hlen) hne
  rw [changeLines]
  cases hcompare : compare grid.rows target with
  | lt =>
    have hlt := compare_lt_iff_lt.mp hcompare
    rw [Screen.resize, if_pos (by omega)]
    exact growLines_shows h (hreversed (by omega)) htemplate hlt
  | gt =>
    have hgt := compare_gt_iff_gt.mp hcompare
    rw [Screen.resize, if_neg (by omega)]
    exact shrinkLines_shows h (hreversed (by omega)) hpos hgt
  | eq =>
    rw [← compare_eq_iff_eq.mp hcompare, ← hlen, Screen.resize_same columns h.cursor_lt]
    exact ⟨grid, rfl, h, rfl⟩

theorem resizeLines_shows (lines : Nat) (finished : Bool)
    (hlayout : grid.raw.isSequential = true → screen.targetLines lines finished = screen.rows.length) :
    ∃ grid', grid.resizeLines lines finished = some grid' ∧
      Shows columns grid' (screen.resize columns (screen.targetLines lines finished)) ∧
      grid'.raw.isSequential = grid.raw.isSequential := by
  rw [resizeLines]
  by_cases hzero : lines = 0
  · rw [if_pos hzero, Screen.targetLines, if_pos hzero, Screen.resize_same columns h.cursor_lt]
    exact ⟨grid, rfl, h, rfl⟩
  · have hpos : 0 < screen.targetLines lines finished := by
      rw [Screen.targetLines, if_neg hzero]
      split <;> omega
    obtain ⟨grid', hchange, hshows, hsame⟩ := changeLines_shows (h.withTemplate {}) rfl hpos hlayout
    have hrestored := hshows.withTemplate grid.cursor.template
    rw [← Screen.resize_withTemplate, h.cursor] at hrestored
    refine ⟨grid'.withTemplate grid.cursor.template, ?_, ?_, hsame⟩
    · simp only [if_neg hzero, h.targetLines hzero, hchange, Option.bind_eq_bind, Option.bind_some]
    · rw [h.cursor]
      exact hrestored

end GridStorage

end InfiniShell.Terminal
