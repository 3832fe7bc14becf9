import InfiniShell.Terminal.RingBuffer

namespace InfiniShell.Terminal.GridStorage

open Collections Storage

def scrolledUp (rows : List Row) (region : Region) (distance : Nat) (blank : Row) : List Row :=
  rows.take region.start ++ ((rows.take region.stop).drop (region.start + distance) ++
    (List.replicate distance blank ++ rows.drop region.stop))

def scrolledDown (rows : List Row) (region : Region) (distance : Nat) (blank : Row) : List Row :=
  rows.take region.start ++ (List.replicate distance blank ++
    ((rows.take (region.stop - distance)).drop region.start ++ rows.drop region.stop))

/-- A region of `count` visible rows, and a distance within it. -/
structure Fits (region : Region) (distance count : Nat) : Prop where
  start_le : region.start ≤ region.stop
  stop_le : region.stop ≤ count
  distance_le : distance ≤ region.stop - region.start

variable {columns : Nat} {s : Storage} {region : Region} {distance : Nat} {template : Cell}

theorem upTo_zero (n : Nat) : upTo 0 n = List.range n := by
  rw [upTo, Nat.sub_zero, List.range_eq_range']

theorem foldl_set (blank : Row) (before set after : List Row) :
    (List.range' before.length set.length).foldl (fun rows i => rows.set i blank) (before ++ (set ++ after)) =
      before ++ (List.replicate set.length blank ++ after) := by
  induction set generalizing before with
  | nil => rfl
  | cons row set ih =>
    have h := ih (before ++ [blank])
    rw [List.length_append, List.length_singleton, List.append_assoc, List.append_assoc] at h
    rw [List.length_cons, List.range'_succ, List.foldl_cons, List.cons_append, List.set_append_right _ _ (Nat.le_refl _),
      Nat.sub_self, List.set_cons_zero, List.replicate_succ]
    exact h

theorem foldl_set_range' (rows : List Row) (blank : Row) (start count : Nat) (h : start + count ≤ rows.length) :
    (List.range' start count).foldl (fun rows i => rows.set i blank) rows =
      rows.take start ++ (List.replicate count blank ++ rows.drop (start + count)) := by
  have hset := foldl_set blank (rows.take start) ((rows.drop start).take count) (rows.drop (start + count))
  have hstart : (rows.take start).length = start := by
    rw [List.length_take]
    omega
  have hcount : ((rows.drop start).take count).length = count := by
    rw [List.length_take, List.length_drop]
    omega
  have hrows : rows.take start ++ ((rows.drop start).take count ++ rows.drop (start + count)) = rows := by
    rw [← List.drop_drop, List.take_append_drop, List.take_append_drop]
  rwa [hstart, hcount, hrows] at hset

theorem resetRow_becomes (h : s.Sound columns) (hpos : 0 < columns) (template : Cell) {i : Nat} (hi : i < s.len) :
    ∃ s', resetRow template s i = some s' ∧ Becomes columns s (s.rows.set i (Row.blank columns template)) s' :=
  update_becomes h hi ((ringRow_sound h i).reset hpos template) (Row.blank_sound columns template)

theorem resetRows_becomes (h : s.Sound columns) (hpos : 0 < columns) (template : Cell) {start count : Nat}
    (hle : start + count ≤ s.len) :
    ∃ s', (List.range' start count).foldlM (resetRow template) s = some s' ∧
      Becomes columns s (s.rows.take start ++ (List.replicate count (Row.blank columns template) ++
        s.rows.drop (start + count))) s' := by
  have hstep : ∀ s' i, i ∈ List.range' start count → s'.Sound columns → s'.len = s.len →
      ∃ s'', resetRow template s' i = some s'' ∧
        Becomes columns s' (s'.rows.set i (Row.blank columns template)) s'' := by
    intro s' i hi hsound hlen
    rw [List.mem_range'_1] at hi
    exact resetRow_becomes hsound hpos _ (by omega)
  obtain ⟨s', hrun, hbecomes⟩ := foldlM_becomes (fun rows i => rows.set i (Row.blank columns template))
    (List.range' start count) h rfl hstep
    fun rows i => List.length_set
  rw [foldl_set_range' _ _ _ _ (by rwa [rows_length])] at hbecomes
  exact ⟨s', hrun, hbecomes⟩

theorem resetLine_eq (h : s.Sound columns) (line : Nat) : resetLine template s line = resetRow template s line := by
  simp only [resetLine, toGridIndex_eq h, Option.bind_eq_bind, Option.bind_some]

theorem resetLines_becomes (grid : GridStorage) (h : grid.raw.Sound columns) (hpos : 0 < columns) {start stop : Nat}
    (hle : start ≤ stop) (hstop : stop ≤ grid.raw.len) :
    ∃ raw, grid.resetLines start stop = some { grid with raw } ∧
      Becomes columns grid.raw (grid.raw.rows.take start ++
        (List.replicate (stop - start) (Row.blank columns grid.cursor.template) ++ grid.raw.rows.drop stop)) raw := by
  have hstep : ∀ s' i, i ∈ List.range' start (stop - start) → s'.Sound columns → s'.len = grid.raw.len →
      ∃ s'', resetLine grid.cursor.template s' i = some s'' ∧
        Becomes columns s' (s'.rows.set i (Row.blank columns grid.cursor.template)) s'' := by
    intro s' i hi hsound hlen
    rw [List.mem_range'_1] at hi
    rw [resetLine_eq hsound]
    exact resetRow_becomes hsound hpos _ (by omega)
  obtain ⟨raw, hrun, hbecomes⟩ := foldlM_becomes
    (fun rows i => rows.set i (Row.blank columns grid.cursor.template)) (List.range' start (stop - start)) h rfl hstep
    fun rows i => List.length_set
  rw [foldl_set_range' _ _ _ _ (by rw [rows_length]; omega), Nat.add_sub_of_le hle] at hbecomes
  refine ⟨raw, ?_, hbecomes⟩
  simp only [resetLines, upTo, hrun, Option.bind_eq_bind, Option.bind_some]

theorem swapBelow_becomes (h : s.Sound columns) (indices : List Nat) (hindices : ∀ i ∈ indices, i + distance < s.len) :
    ∃ s', indices.foldlM (fun raw i => raw.swap i (i + distance)) s = some s' ∧
      Becomes columns s (indices.foldl (fun rows i => swapped rows i (i + distance)) s.rows) s' := by
  refine foldlM_becomes _ indices h rfl ?_ fun rows i => swapped_length _ _ _
  intro s' i hi hsound hlen
  have hlt := hindices i hi
  exact swap_becomes hsound (by omega) (by omega)

theorem swapFromBottom_becomes (h : s.Sound columns) (indices : List Nat)
    (hindices : ∀ i ∈ indices, i + 1 + distance ≤ s.len) :
    ∃ s', indices.foldlM (swapFromBottom s.len distance) s = some s' ∧
      Becomes columns s (indices.foldl (fun rows i => swapped rows (s.len - (i + 1)) (s.len - (i + 1) - distance))
        s.rows) s' := by
  refine foldlM_becomes _ indices h rfl ?_ fun rows i => swapped_length _ _ _
  intro s' i hi hsound hlen
  have hlt := hindices i hi
  simp only [swapFromBottom, checkedSub, if_pos (show i + 1 ≤ s.len by omega),
    if_pos (show distance ≤ s.len - (i + 1) by omega), Option.bind_eq_bind, Option.bind_some]
  exact swap_becomes hsound (by omega) (by omega)

/-- A grid without history, all of whose rows are visible. -/
structure Sound (columns : Nat) (grid : GridStorage) : Prop where
  raw : grid.raw.Sound columns
  rows_eq : grid.rows = grid.raw.len
  rows_pos : 0 < grid.rows
  columns_pos : 0 < columns
  maxScrollLimit : grid.maxScrollLimit = 0
  cursor_lt : grid.cursor.point.row < grid.rows

variable {grid : GridStorage}

theorem Sound.historySize (h : grid.Sound columns) : grid.historySize = some 0 := by
  rw [GridStorage.historySize, checkedSub, ← h.rows_eq, if_pos (Nat.le_refl _), Nat.sub_self]

theorem Sound.increaseScrollLimit (h : grid.Sound columns) (count : Nat) :
    grid.increaseScrollLimit count = some grid.raw := by
  simp [GridStorage.increaseScrollLimit, h.historySize, h.maxScrollLimit, checkedSub]

variable {rows : List Row}

theorem drop_eq_region {from' stop : Nat} (h : from' ≤ stop) :
    rows.drop from' = (rows.take stop).drop from' ++ rows.drop stop := by
  conv_lhs => rw [← List.take_append_drop stop rows]
  by_cases hstop : stop ≤ rows.length
  · rw [List.drop_append_of_le_length (by rw [List.length_take]; omega)]
  · rw [List.drop_of_length_le (show rows.length ≤ stop by omega), List.append_nil, List.append_nil]

theorem rotateUp_becomes (h : s.Sound columns) (hpos : 0 < columns) (hfits : Fits region distance s.len)
    (template : Cell) :
    ∃ raw₁ raw₂ raw₃ raw₄,
      (upTo 0 region.start).reverse.foldlM (fun raw i => raw.swap i (i + distance)) s = some raw₁ ∧
      raw₁.extend distance = some raw₂ ∧ raw₂.len = s.len ∧
      (upTo (s.len - distance) s.len).foldlM (resetRow template) raw₂ = some raw₃ ∧
      (upTo 0 (s.len - region.stop)).foldlM (swapFromBottom s.len distance) raw₃ = some raw₄ ∧
      Becomes columns s (scrolledUp s.rows region distance (Row.blank columns template)) raw₄ := by
  obtain ⟨hstart, hstop, hdistance⟩ := hfits
  have hlen := rows_length (s := s)
  have hbelow : ∀ i ∈ (List.range region.start).reverse, i + distance < s.len := by
    intro i hi
    rw [List.mem_reverse, List.mem_range] at hi
    omega
  have hfixed : ∀ i ∈ List.range (s.len - region.stop), i + 1 + distance ≤ s.len := by
    intro i hi
    rw [List.mem_range] at hi
    omega
  rw [upTo_zero, upTo_zero, upTo]
  obtain ⟨raw₁, hswap, hbecomes₁⟩ := swapBelow_becomes h _ hbelow
  have hlen₁ : raw₁.len = s.len := by
    rw [hbecomes₁.len, foldl_swapped_length (fun i => i) fun i => i + distance, hlen]
  obtain ⟨raw₂, hextend, hsound₂, hlayout₂, hlen₂, hrows₂⟩ := extend_spec hbecomes₁.sound
    (show distance ≤ raw₁.len by omega)
  rw [hlen₁, hbecomes₁.rows, swapDown_drop distance region.start s.rows (by omega)] at hrows₂
  obtain ⟨raw₃, hreset, hbecomes₃⟩ := resetRows_becomes hsound₂ hpos template
    (show s.len - distance + (s.len - (s.len - distance)) ≤ raw₂.len by omega)
  have hnone : raw₂.rows.drop (s.len - distance + (s.len - (s.len - distance))) = [] := by
    apply List.drop_of_length_le
    rw [rows_length]
    omega
  have hrows₃ : raw₃.rows = s.rows.take region.start ++ (s.rows.take region.stop).drop (region.start + distance) ++
      (s.rows.drop region.stop ++ (List.replicate distance (Row.blank columns template) ++ [])) := by
    rw [hbecomes₃.rows, hnone, hrows₂, drop_eq_region (show region.start + distance ≤ region.stop by omega),
      show s.len - (s.len - distance) = distance by omega]
    simp
  have hlen₃ : raw₃.len = s.len := by
    rw [← rows_length, hrows₃]
    simp
    omega
  rw [← hlen₃] at hfixed
  obtain ⟨raw₄, hback, hbecomes₄⟩ := swapFromBottom_becomes hbecomes₃.sound _ hfixed
  have hmoved : (s.rows.drop region.stop).length = s.len - region.stop := by rw [List.length_drop, hlen]
  have hchain := swapBehind_run (Row.blank columns template) distance s.len
    (s.rows.take region.start ++ (s.rows.take region.stop).drop (region.start + distance)) (s.rows.drop region.stop) []
    (by simp; omega)
  rw [List.length_nil, hmoved, ← List.range_eq_range'] at hchain
  rw [hlen₃] at hback hbecomes₄
  rw [hrows₃, hchain] at hbecomes₄
  refine ⟨raw₁, raw₂, raw₃, raw₄, hswap, hextend, hlen₂.trans hlen₁, hreset, hback, hbecomes₄.sound, ?_, ?_⟩
  · rw [hbecomes₄.rows, scrolledUp]
    simp
  · rw [hbecomes₄.isSequential, hbecomes₃.isSequential, hlayout₂, hbecomes₁.isSequential]

theorem rotateDown_becomes (h : s.Sound columns) (hpos : 0 < columns) (hfits : Fits region distance s.len)
    (template : Cell) :
    ∃ raw₁ raw₂ raw₃ raw₄,
      (upTo 0 (s.len - region.stop)).reverse.foldlM (swapFromBottom s.len distance) s = some raw₁ ∧
      raw₁.retract distance = some raw₂ ∧
      (upTo 0 distance).foldlM (resetRow template) raw₂ = some raw₃ ∧
      (upTo 0 region.start).foldlM (fun raw i => raw.swap i (i + distance)) raw₃ = some raw₄ ∧
      Becomes columns s (scrolledDown s.rows region distance (Row.blank columns template)) raw₄ := by
  obtain ⟨hstart, hstop, hdistance⟩ := hfits
  have hlen := rows_length (s := s)
  have hfixed : ∀ i ∈ (List.range (s.len - region.stop)).reverse, i + 1 + distance ≤ s.len := by
    intro i hi
    rw [List.mem_reverse, List.mem_range] at hi
    omega
  have hbelow : ∀ i ∈ List.range region.start, i + distance < s.len := by
    intro i hi
    rw [List.mem_range] at hi
    omega
  rw [upTo_zero, upTo_zero, upTo_zero]
  obtain ⟨raw₁, hswap, hbecomes₁⟩ := swapFromBottom_becomes h _ hfixed
  have hlen₁ : raw₁.len = s.len := by
    rw [hbecomes₁.len, foldl_swapped_length (fun i => s.len - (i + 1)) fun i => s.len - (i + 1) - distance, hlen]
  have htake := swapUp_take distance (s.len - region.stop) s.rows (by omega)
  simp only [hlen, show s.len - (s.len - region.stop) = region.stop by omega] at htake
  obtain ⟨raw₂, hretract, hsound₂, hlayout₂, hlen₂, hrows₂⟩ := retract_spec hbecomes₁.sound
    (show distance ≤ raw₁.len by omega)
  rw [hlen₁, hbecomes₁.rows, htake] at hrows₂
  obtain ⟨raw₃, hreset, hbecomes₃⟩ := resetRows_becomes hsound₂ hpos template (show 0 + distance ≤ raw₂.len by omega)
  have hregion : s.rows.take (region.stop - distance) =
      s.rows.take region.start ++ (s.rows.take (region.stop - distance)).drop region.start := by
    conv_lhs => rw [← List.take_append_drop region.start (s.rows.take (region.stop - distance))]
    rw [List.take_take, Nat.min_eq_left (by omega)]
  have hrows₃ : raw₃.rows = [] ++ (List.replicate distance (Row.blank columns template) ++ (s.rows.take region.start ++
      ((s.rows.take (region.stop - distance)).drop region.start ++ s.rows.drop region.stop))) := by
    rw [hbecomes₃.rows, Nat.zero_add, hrows₂]
    conv_lhs => rw [hregion]
    simp
  have hlen₃ : raw₃.len = s.len := by
    rw [← rows_length, hrows₃]
    simp
    omega
  rw [← hlen₃] at hbelow
  obtain ⟨raw₄, hback, hbecomes₄⟩ := swapBelow_becomes hbecomes₃.sound _ hbelow
  have hmoved : (s.rows.take region.start).length = region.start := by
    rw [List.length_take]
    omega
  have hchain := swapBefore_run (Row.blank columns template) distance (s.rows.take region.start)
    ((s.rows.take (region.stop - distance)).drop region.start ++ s.rows.drop region.stop) []
  rw [List.length_nil, hmoved, ← List.range_eq_range'] at hchain
  rw [hrows₃, hchain] at hbecomes₄
  refine ⟨raw₁, raw₂, raw₃, raw₄, hswap, hretract, ?_, hback, hbecomes₄.sound, ?_, ?_⟩
  · rw [List.range_eq_range']
    exact hreset
  · rw [hbecomes₄.rows, scrolledDown, List.nil_append]
  · rw [hbecomes₄.isSequential, hbecomes₃.isSequential, hlayout₂, hbecomes₁.isSequential]

theorem scrolled_whole {blank : Row} (hdistance : distance = region.stop - region.start)
    (hle : region.start ≤ region.stop) :
    scrolledUp rows region distance blank = rows.take region.start ++
        (List.replicate (region.stop - region.start) blank ++ rows.drop region.stop) ∧
      scrolledDown rows region distance blank = rows.take region.start ++
        (List.replicate (region.stop - region.start) blank ++ rows.drop region.stop) := by
  have hup : (rows.take region.stop).drop (region.start + distance) = [] := by
    apply List.drop_of_length_le
    rw [List.length_take]
    omega
  have hdown : (rows.take (region.stop - distance)).drop region.start = [] := by
    apply List.drop_of_length_le
    rw [List.length_take]
    omega
  rw [scrolledUp, scrolledDown, hup, hdown, hdistance, List.nil_append]
  exact ⟨rfl, rfl⟩

theorem scrollUp_becomes (h : grid.Sound columns) (hfits : Fits region distance grid.rows) :
    ∃ raw n, grid.scrollUp region distance = some { grid with raw, numLinesTruncated := n } ∧
      Becomes columns grid.raw
        (scrolledUp grid.raw.rows region distance (Row.blank columns grid.cursor.template)) raw := by
  obtain ⟨hstart, hstop, hdistance⟩ := hfits
  have hrows := h.rows_eq
  have hfits' : Fits region distance grid.raw.len := ⟨hstart, hstop.trans_eq hrows, hdistance⟩
  rw [scrollUp]
  simp only [checkedSub, if_pos hstart, if_pos hstop, h.historySize, h.increaseScrollLimit, Option.bind_eq_bind,
    Option.bind_some]
  by_cases hwhole : distance ≥ region.stop - region.start ∧ region.start ≠ 0
  · rw [if_pos hwhole, (scrolled_whole (by omega) hstart).1]
    obtain ⟨raw, hreset, hbecomes⟩ := resetLines_becomes grid h.raw h.columns_pos hstart (hstop.trans_eq hrows)
    exact ⟨raw, grid.numLinesTruncated, hreset, hbecomes⟩
  · obtain ⟨raw₁, raw₂, raw₃, raw₄, hswap, hextend, hlen, hreset, hback, hbecomes⟩ :=
      rotateUp_becomes h.raw h.columns_pos hfits' grid.cursor.template
    have hhistory : ({ grid with raw := raw₄ } : GridStorage).historySize = some 0 := by
      have hlen₄ : raw₄.len = grid.rows := by
        rw [hbecomes.len, scrolledUp]
        simp
        have := rows_length (s := grid.raw)
        omega
      simp [GridStorage.historySize, checkedSub, hlen₄]
    rw [if_neg hwhole]
    simp only [hswap, hextend, hlen, if_pos (show distance ≤ grid.raw.len by omega), hreset, hrows, hback,
      Option.bind_some]
    rw [← hrows, hhistory]
    exact ⟨raw₄, _, rfl, hbecomes⟩

theorem scrollDown_becomes (h : grid.Sound columns) (hfits : Fits region distance grid.rows) :
    ∃ raw, grid.scrollDown region distance = some { grid with raw } ∧
      Becomes columns grid.raw
        (scrolledDown grid.raw.rows region distance (Row.blank columns grid.cursor.template)) raw := by
  obtain ⟨hstart, hstop, hdistance⟩ := hfits
  have hrows := h.rows_eq
  have hfits' : Fits region distance grid.raw.len := ⟨hstart, hstop.trans_eq hrows, hdistance⟩
  rw [scrollDown]
  simp only [checkedSub, if_pos hstart, if_pos hstop, Option.bind_eq_bind, Option.bind_some]
  by_cases hwhole : distance ≥ region.stop - region.start
  · rw [if_pos hwhole, (scrolled_whole (by omega) hstart).2]
    exact resetLines_becomes grid h.raw h.columns_pos hstart (hstop.trans_eq hrows)
  · obtain ⟨raw₁, raw₂, raw₃, raw₄, hswap, hretract, hreset, hback, hbecomes⟩ :=
      rotateDown_becomes h.raw h.columns_pos hfits' grid.cursor.template
    rw [if_neg hwhole, if_pos h.maxScrollLimit]
    simp only [hrows, hswap, hretract, hreset, hback, Option.bind_some]
    exact ⟨raw₄, rfl, hbecomes⟩

end InfiniShell.Terminal.GridStorage
