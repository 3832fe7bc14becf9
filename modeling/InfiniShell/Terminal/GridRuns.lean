import InfiniShell.Terminal.GridRefinement

namespace InfiniShell.Terminal

open Collections Storage

/-- A write stands for any change of a row, a move for any change of the cursor and its template. -/
inductive GridOperation where
  | scrollUp (region : Region) (distance : Nat)
  | scrollDown (region : Region) (distance : Nat)
  | swap (a b : Nat)
  | swapLines (a b : Nat)
  | resize (lines : Nat) (finished : Bool)
  | write (index : Nat) (row : Row)
  | moveCursor (cursor : Cursor)

namespace GridStorage

def apply (grid : GridStorage) : GridOperation → Option GridStorage
  | .scrollUp region distance => grid.scrollUp region distance
  | .scrollDown region distance => grid.scrollDown region distance
  | .swap a b => (grid.raw.swap a b).map fun raw => { grid with raw }
  | .swapLines a b => (grid.raw.swapLines a b).map fun raw => { grid with raw }
  | .resize lines finished => grid.resizeLines lines finished
  | .write index row => (grid.raw.update index fun _ => some row).map fun raw => { grid with raw }
  | .moveCursor cursor => some { grid with cursor }

def run (grid : GridStorage) (ops : List GridOperation) : Option GridStorage := ops.foldlM apply grid

end GridStorage

namespace Screen

variable (columns : Nat)

def apply (screen : Screen) : GridOperation → Screen
  | .scrollUp region distance =>
    { screen with
      rows := GridStorage.scrolledUp screen.rows region distance (Row.blank columns screen.cursor.template) }
  | .scrollDown region distance =>
    { screen with
      rows := GridStorage.scrolledDown screen.rows region distance (Row.blank columns screen.cursor.template) }
  | .swap a b => { screen with rows := swapped screen.rows a b }
  | .swapLines a b => { screen with rows := swapped screen.rows a b }
  | .resize lines finished => screen.resize columns (screen.targetLines lines finished)
  | .write index row => { screen with rows := screen.rows.set index row }
  | .moveCursor cursor => { screen with cursor }

def run (screen : Screen) (ops : List GridOperation) : Screen := ops.foldl (apply columns) screen

def new (rows : Nat) : Screen := ⟨List.replicate rows (Row.new columns), {}⟩

/-- Regions and indices within the screen, rows as wide as it. -/
def Permits (screen : Screen) : GridOperation → Prop
  | .scrollUp region distance => GridStorage.Fits region distance screen.rows.length
  | .scrollDown region distance => GridStorage.Fits region distance screen.rows.length
  | .swap a b => a < screen.rows.length ∧ b < screen.rows.length
  | .swapLines a b => a < screen.rows.length ∧ b < screen.rows.length
  | .resize _ _ => True
  | .write index row => index < screen.rows.length ∧ row.Sound columns
  | .moveCursor cursor => cursor.point.row < screen.rows.length

/-- In the sequential layout no resize changes the number of lines. -/
def KeepsLines (isSequential : Bool) (screen : Screen) : GridOperation → Prop
  | .resize lines finished => isSequential = true → screen.targetLines lines finished = screen.rows.length
  | _ => True

/-- A condition on every operation of a run and the screen before it. -/
def Along (P : Screen → GridOperation → Prop) (screen : Screen) : List GridOperation → Prop
  | [] => True
  | op :: ops => P screen op ∧ Along P (screen.apply columns op) ops

end Screen

namespace GridStorage

variable {columns : Nat} {grid : GridStorage} {screen : Screen}

section

variable (h : Shows columns grid screen)
include h

theorem Shows.becomes {rows : List Row} {raw : Storage} (n : Nat)
    (hraw : Becomes columns grid.raw rows raw) (hlen : rows.length = screen.rows.length) :
    Shows columns { grid with raw, numLinesTruncated := n } { screen with rows } where
  sound := h.sound.becomes hraw (hlen.trans h.rows_length)
  rows := hraw.rows
  cursor := h.cursor

theorem Shows.swap {a b : Nat} (ha : a < screen.rows.length) (hb : b < screen.rows.length) :
    ∃ raw, grid.raw.swap a b = some raw ∧ Shows columns { grid with raw } { screen with rows := swapped screen.rows a b } ∧
      raw.isSequential = grid.raw.isSequential := by
  rw [h.rows_length, h.sound.rows_eq] at ha hb
  obtain ⟨raw, hswap, hbecomes⟩ := swap_becomes h.sound.raw ha hb
  rw [h.rows] at hbecomes
  exact ⟨raw, hswap, h.becomes grid.numLinesTruncated hbecomes (swapped_length _ _ _), hbecomes.isSequential⟩

theorem apply_shows {op : GridOperation} (hpermits : screen.Permits columns op)
    (hlines : screen.KeepsLines grid.raw.isSequential op) :
    ∃ grid', grid.apply op = some grid' ∧ Shows columns grid' (screen.apply columns op) ∧
      grid'.raw.isSequential = grid.raw.isSequential := by
  have hlen := h.rows_length
  have hcursor := h.cursor
  cases op with
  | scrollUp region distance =>
    have hfits : Fits region distance grid.rows := by rw [← hlen]; exact hpermits
    obtain ⟨raw, n, hscroll, hbecomes⟩ := scrollUp_becomes h.sound hfits
    rw [h.rows, hcursor] at hbecomes
    exact ⟨_, hscroll, h.becomes n hbecomes (scrolledUp_length _ hpermits), hbecomes.isSequential⟩
  | scrollDown region distance =>
    have hfits : Fits region distance grid.rows := by rw [← hlen]; exact hpermits
    obtain ⟨raw, hscroll, hbecomes⟩ := scrollDown_becomes h.sound hfits
    rw [h.rows, hcursor] at hbecomes
    exact ⟨_, hscroll, h.becomes grid.numLinesTruncated hbecomes (scrolledDown_length _ hpermits),
      hbecomes.isSequential⟩
  | swap a b =>
    obtain ⟨raw, hswap, hshows, hsame⟩ := h.swap hpermits.1 hpermits.2
    exact ⟨_, by rw [apply, hswap, Option.map_some], hshows, hsame⟩
  | swapLines a b =>
    obtain ⟨raw, hswap, hshows, hsame⟩ := h.swap hpermits.1 hpermits.2
    have hlines : grid.raw.swapLines a b = some raw := by
      simp only [swapLines, toGridIndex_eq h.sound.raw, hswap, Option.bind_eq_bind, Option.bind_some]
    exact ⟨_, by rw [apply, hlines, Option.map_some], hshows, hsame⟩
  | resize lines finished => exact resizeLines_shows h lines finished hlines
  | write index row =>
    have hindex : index < grid.raw.len := by
      rw [← h.sound.rows_eq, ← hlen]
      exact hpermits.1
    obtain ⟨raw, hupdate, hbecomes⟩ := update_becomes h.sound.raw hindex (f := fun _ => some row) rfl hpermits.2
    rw [h.rows] at hbecomes
    exact ⟨_, by rw [apply, hupdate, Option.map_some], h.becomes grid.numLinesTruncated hbecomes List.length_set,
      hbecomes.isSequential⟩
  | moveCursor cursor =>
    refine ⟨_, rfl, ⟨⟨h.sound.raw, h.sound.rows_eq, h.sound.rows_pos, h.sound.columns_pos, h.sound.maxScrollLimit, ?_⟩,
      h.rows, rfl⟩, rfl⟩
    exact hpermits.trans_eq hlen

theorem run_shows (ops : List GridOperation) (hpermits : screen.Along columns (Screen.Permits columns) ops)
    (hlines : screen.Along columns (Screen.KeepsLines grid.raw.isSequential) ops) :
    ∃ grid', grid.run ops = some grid' ∧ Shows columns grid' (screen.run columns ops) := by
  induction ops generalizing grid screen with
  | nil => exact ⟨grid, rfl, h⟩
  | cons op ops ih =>
    obtain ⟨next, happly, hshows, hsame⟩ := apply_shows h hpermits.1 hlines.1
    obtain ⟨grid', hrun, hshows'⟩ := ih hshows hpermits.2 (by rw [hsame]; exact hlines.2)
    refine ⟨grid', ?_, hshows'⟩
    rw [run, List.foldlM_cons, happly]
    exact hrun

end

theorem new_shows {rows : Nat} (hrows : 0 < rows) (hcolumns : 0 < columns) (isSequential : Bool) :
    Shows columns (GridStorage.new rows columns 0 isSequential) (Screen.new columns rows) := by
  have hlen : (GridStorage.new rows columns 0 isSequential).raw.inner.length = rows := List.length_replicate
  have hraw : (GridStorage.new rows columns 0 isSequential).raw.Sound columns := by
    refine ⟨by rw [hlen]; exact hrows, ?_, ?_, ?_⟩
    · exact Nat.le_refl _
    · exact List.length_replicate.symm
    · intro row hrow
      rw [List.eq_of_mem_replicate hrow]
      exact Row.new_sound columns
  refine ⟨⟨hraw, List.length_replicate.symm, hrows, hcolumns, rfl, hrows⟩, ?_, rfl⟩
  apply List.eq_replicate_iff.mpr
  refine ⟨by rw [Storage.rows_length]; exact List.length_replicate, ?_⟩
  intro row hrow
  obtain ⟨i, -, rfl⟩ := List.mem_map.mp hrow
  exact List.eq_of_mem_replicate (List.mem_of_getElem? (ringRow_eq hraw.pos i))

theorem Shows.get (h : Shows columns grid screen) (i : Nat) : grid.raw.get i = screen.rows[i]? := by
  by_cases hi : i < grid.raw.len
  · rw [get_eq h.sound.raw hi, ← h.rows, getElem?_rows hi]
  · have hnone : screen.rows[i]? = none := by
      apply List.getElem?_eq_none
      rw [h.rows_length, h.sound.rows_eq]
      omega
    rw [hnone, Storage.get, fromGridIndex, if_neg hi]
    rfl

/-- Indexing shows the rows of the list as long as no resize of the sequential layout changes the number of
lines. -/
theorem ring_buffer_is_list {rows : Nat} (hrows : 0 < rows) (hcolumns : 0 < columns) (isSequential : Bool)
    (ops : List GridOperation) (hpermits : (Screen.new columns rows).Along columns (Screen.Permits columns) ops)
    (hlines : (Screen.new columns rows).Along columns (Screen.KeepsLines isSequential) ops) :
    ∃ grid, (GridStorage.new rows columns 0 isSequential).run ops = some grid ∧
      grid.raw.len = ((Screen.new columns rows).run columns ops).rows.length ∧
      ∀ i, grid.raw.get i = ((Screen.new columns rows).run columns ops).rows[i]? := by
  obtain ⟨grid, hrun, hshows⟩ := run_shows (new_shows hrows hcolumns isSequential) ops hpermits hlines
  exact ⟨grid, hrun, by rw [hshows.rows_length, hshows.sound.rows_eq], hshows.get⟩

def redRow : Row := Row.blank 1 (Cell.ofColor (.named .red))

theorem ring_buffer_is_list_reversed :
    let ops : List GridOperation := [.write 0 redRow, .scrollDown ⟨0, 2⟩ 1, .resize 3 false]
    ∃ grid, (GridStorage.new 2 1 0 false).run ops = some grid ∧
      grid.raw.len = ((Screen.new 1 2).run 1 ops).rows.length ∧
      ∀ i, grid.raw.get i = ((Screen.new 1 2).run 1 ops).rows[i]? := by
  apply ring_buffer_is_list (by decide) (by decide)
  · exact ⟨⟨by decide, Row.blank_sound _ _⟩, ⟨by decide, by decide, by decide⟩, trivial, trivial⟩
  · exact ⟨trivial, trivial, fun h => absurd h Bool.false_ne_true, trivial⟩

theorem sequential_grow_drops_top :
    let ops : List GridOperation := [.write 0 redRow, .resize 3 false]
    (Screen.new 1 2).Along 1 (Screen.Permits 1) ops ∧
      ((GridStorage.new 2 1 0 true).run ops).map (·.raw.get 0) ≠ some ((Screen.new 1 2).run 1 ops).rows[0]? := by
  refine ⟨⟨⟨by decide, Row.blank_sound _ _⟩, trivial, trivial⟩, ?_⟩
  decide

end GridStorage

end InfiniShell.Terminal
