import InfiniShell.Scrollback.HeldRows

namespace InfiniShell.Scrollback

open Collections Terminal
open Index (expand)

/-- The values of the graphemes before the one that has the `k`-th of all their sizes. -/
def valueBefore (size value : GraphemeInfo → Nat) : List GraphemeInfo → Nat → Nat
  | [], _ => 0
  | info :: infos, k => if k < size info then 0 else value info + valueBefore size value infos (k - size info)

variable {size value : GraphemeInfo → Nat} {info : GraphemeInfo} {infos : List GraphemeInfo} {k : Nat}

theorem valueBefore_append (pre post : List GraphemeInfo) (hk : k < size info) :
    valueBefore size value (pre ++ info :: post) ((pre.map size).sum + k) = (pre.map value).sum := by
  induction pre with
  | nil => simp [valueBefore, hk]
  | cons first pre ih =>
    rw [List.cons_append, valueBefore, List.map_cons, List.sum_cons, if_neg (by omega), List.map_cons, List.sum_cons]
    rw [Nat.add_assoc, Nat.add_sub_cancel_left, ih]

theorem valueBefore_replicate (hpos : 0 < size info) (n : Nat) :
    valueBefore size value (List.replicate n info ++ infos) k = if k < n * size info then k / size info * value info
      else n * value info + valueBefore size value infos (k - n * size info) := by
  induction n generalizing k with
  | zero => simp
  | succ n ih =>
    rw [List.replicate_succ, List.cons_append, valueBefore, ih, Nat.succ_mul, Nat.succ_mul]
    by_cases hlt : k < size info
    · rw [if_pos hlt, if_pos (by omega), Nat.div_eq_of_lt hlt, Nat.zero_mul]
    · rw [if_neg hlt]
      by_cases hin : k < n * size info + size info
      · have hdiv := Nat.div_eq_sub_div hpos (Nat.not_lt.mp hlt)
        rw [if_pos (by omega), if_pos hin, hdiv, Nat.succ_mul, Nat.add_comm]
      · rw [if_neg (by omega), if_neg hin, Nat.add_comm (n * size info), Nat.sub_add_eq]
        omega

theorem valueBefore_zero (hpos : ∀ info ∈ infos, 0 < size info) : valueBefore size value infos 0 = 0 := by
  cases infos with
  | nil => rfl
  | cons info infos => exact if_pos (hpos info List.mem_cons_self)

variable {run : GraphemeRun} {runs : List GraphemeRun} {offset column : Nat}

theorem info_mem_expand (hcount : 0 < run.count) : run.info ∈ expand (run :: runs) := by
  apply List.mem_append_left
  rw [List.mem_replicate]
  exact ⟨Nat.ne_of_gt hcount, rfl⟩

theorem walkColumns_eq (hwidth : ∀ info ∈ expand runs, 0 < info.cellWidth) (hcount : ∀ run ∈ runs, 0 < run.count)
    (hk : k ≤ colsOf (expand runs)) : Index.walkColumns runs offset k =
      (offset + valueBefore GraphemeInfo.cellWidth GraphemeInfo.utf8Bytes (expand runs) k, 0) := by
  induction runs generalizing offset k with
  | nil =>
    obtain rfl := Nat.eq_zero_of_le_zero hk
    rfl
  | cons run runs ih =>
    rw [Index.walkColumns]
    split
    next hzero => rw [hzero, valueBefore_zero hwidth, Nat.add_zero]
    next =>
      have hpos := hwidth run.info (info_mem_expand (hcount run List.mem_cons_self))
      have hrest : ∀ info ∈ expand runs, 0 < info.cellWidth := fun info hinfo => hwidth info (List.mem_append_right _ hinfo)
      have hwalk := fun offset k => @ih offset k hrest fun run hrun => hcount run (List.mem_cons_of_mem _ hrun)
      rw [Index.expand_cons, colsOf_append, colsOf_replicate] at hk
      rw [Index.expand_cons, valueBefore_replicate hpos]
      simp only [GraphemeRun.cols]
      split
      next hlt =>
        rw [Nat.min_eq_right (Nat.le_of_lt hlt), Nat.sub_self, hwalk _ _ (Nat.zero_le _), valueBefore_zero hrest]
        rfl
      next hle =>
        rw [Nat.min_eq_left (Nat.not_lt.mp hle), Nat.mul_div_cancel _ hpos, hwalk _ _ (by omega), Nat.add_assoc]

theorem walkBytes_eq (hwidth : ∀ info ∈ expand runs, 0 < info.cellWidth) (hcount : ∀ run ∈ runs, 0 < run.count)
    (hk : k < bytesOf (expand runs)) : Index.walkBytes runs column k =
      some (column + valueBefore GraphemeInfo.utf8Bytes GraphemeInfo.cellWidth (expand runs) k) := by
  induction runs generalizing column k with
  | nil => cases hk
  | cons run runs ih =>
    have hmem := hwidth run.info (info_mem_expand (hcount run List.mem_cons_self))
    rw [Index.expand_cons, bytesOf_append, bytesOf_replicate] at hk
    rw [Index.walkBytes, Index.expand_cons, valueBefore_replicate run.info.pos]
    simp only [GraphemeRun.cols, Nat.mul_div_cancel _ hmem]
    split
    next hzero =>
      split
      next hlt => rw [Nat.min_eq_left (Nat.le_of_lt hlt)]
      next hle =>
        rw [Nat.min_eq_right (Nat.not_lt.mp hle)] at hzero ⊢
        rw [Nat.mul_div_cancel _ run.info.pos, hzero, valueBefore_zero fun info _ => info.pos, Nat.add_zero]
    next hne =>
      rw [if_neg (by omega), Nat.min_eq_right (by omega), Nat.mul_div_cancel _ run.info.pos,
        ih (fun info hinfo => hwidth info (List.mem_append_right _ hinfo))
          (fun run hrun => hcount run (List.mem_cons_of_mem _ hrun)) (by omega), Nat.add_assoc]

theorem Index.Holds.partitionPoint {index : Index} {front i : Nat} {rows : List TextRow} {row : TextRow}
    (h : index.Holds front rows) (hrow : rows[i]? = some row) (hk : k < row.bytes) :
    index.partitionPoint (front + totalBytes (rows.take i) + k) = i + 1 := by
  obtain ⟨hi, rfl⟩ := List.getElem?_eq_some_iff.mp hrow
  have hnext : totalBytes (rows.take (i + 1)) = totalBytes (rows.take i) + rows[i].bytes := by
    rw [List.take_succ_eq_append_getElem hi, totalBytes_append, totalBytes_cons, totalBytes_nil, Nat.add_zero]
  have hlen := h.entries.length
  rw [Index.partitionPoint, ← List.take_append_drop (i + 1) index.rows, List.takeWhile_append_of_pos]
  · have hstop : (index.rows.drop (i + 1)).takeWhile
        (fun entry => entry.contentOffset ≤ front + totalBytes (rows.take i) + k) = [] := by
      cases hdrop : index.rows.drop (i + 1) with
      | nil => rfl
      | cons entry rest =>
        have hentry : index.rows[i + 1]? = some entry := by
          rw [← List.head?_drop, hdrop]
          rfl
        obtain ⟨_, -, hdescribes⟩ := h.entries.get hentry
        apply List.takeWhile_cons_of_neg
        rw [hdescribes.start, hnext]
        simp only [decide_eq_true_eq]
        omega
    rw [hstop, List.append_nil, List.length_take]
    omega
  · intro entry hentry
    obtain ⟨j, hj, rfl⟩ := List.mem_take_iff_getElem.mp hentry
    obtain ⟨_, -, hdescribes⟩ := h.entries.get (List.getElem?_eq_getElem (Nat.lt_of_lt_of_le hj (Nat.min_le_right _ _)))
    have hbefore := totalBytes_take_add_drop (rows.take i) j
    rw [List.take_take, Nat.min_eq_left (by omega)] at hbefore
    rw [hdescribes.start, decide_eq_true_eq]
    omega

namespace FlatStorage

variable {s : FlatStorage} {front i : Nat} {rows : List TextRow} {row : TextRow}

theorem Represents.located (h : s.Represents front rows) (hrow : rows[i]? = some row) {pre post : List GraphemeInfo}
    {info : GraphemeInfo} (hinfos : row.infos = pre ++ info :: post) :
    (∀ k, k < info.utf8Bytes → s.contentOffsetToPoint (front + totalBytes (rows.take i) + (bytesOf pre + k)) =
        some (.ok ⟨i, colsOf pre⟩)) ∧
      ∀ k, k < info.cellWidth → s.contentOffsetAtPoint ⟨i, colsOf pre + k⟩ =
        .ok (front + totalBytes (rows.take i) + bytesOf pre) := by
  obtain ⟨entry, hentry, hdescribes⟩ := h.index.getEntry hrow
  obtain ⟨runs, hencodes, hsizing, hruns⟩ := Index.runsOfEntry_eq hdescribes
  obtain ⟨hexpand, hcount⟩ := hencodes.spec
  have hwidth : ∀ info ∈ expand runs, 0 < info.cellWidth := by
    intro info hinfo
    rw [hexpand] at hinfo
    obtain ⟨g, hg, rfl⟩ := List.mem_map.mp hinfo
    have hpos : 0 < g.cellWidth := by cases ((h.rowText hrow).2 g hg).width <;> omega
    exact hpos
  have hnonempty : entry.graphemeSizing ≠ .emptyRow := by
    rw [hsizing]
    cases runs with
    | nil => simp [hinfos] at hexpand
    | cons run runs => cases runs <;> simp [sizingOf]
  constructor
  · intro k hk
    have hlt : bytesOf pre + k < bytesOf row.infos := by
      rw [hinfos, bytesOf_append, bytesOf_cons]
      omega
    unfold FlatStorage.contentOffsetToPoint Index.contentOffsetToPoint
    rw [h.index.partitionPoint hrow (Nat.lt_of_lt_of_le hlt (Nat.le_add_right _ _))]
    simp only [hentry, if_neg hnonempty, hruns, hdescribes.start, Nat.add_sub_cancel_left]
    rw [walkBytes_eq hwidth hcount (by rwa [hexpand]), hexpand, hinfos, bytesOf, valueBefore_append _ _ hk, Nat.zero_add]
    rfl
  · intro k hk
    unfold FlatStorage.contentOffsetAtPoint Index.contentOffsetAtPoint
    rw [Index.getEntry] at hentry
    have hle : colsOf pre + k ≤ colsOf (expand runs) := by
      rw [hexpand, hinfos, colsOf_append, colsOf_cons]
      omega
    simp only [hentry, if_neg hnonempty, hruns, hdescribes.start, walkColumns_eq hwidth hcount hle, if_true]
    rw [hexpand, hinfos, colsOf, valueBefore_append _ _ hk]
    rfl

/-- The offsets of the bytes of a stored grapheme and the columns it takes lead to each other. -/
theorem offsets_locate_graphemes (columns : Nat) (maxRows : Option Nat) (steps : List Step) (s : FlatStorage)
    (hrun : (new columns maxRows).run steps = some s) (i : Nat) (row : TextRow) (hrow : s.storedRow i = some row)
    (pre post : List Grapheme) (g : Grapheme) (hgs : row.graphemes = pre ++ g :: post) :
    ∃ start, s.content.get start (start + g.len) = some g.content ∧
      (∀ k, k < g.len → s.contentOffsetToPoint (start + k) = some (.ok ⟨i, (pre.map Grapheme.cellWidth).sum⟩)) ∧
      ∀ k, k < g.cellWidth → s.contentOffsetAtPoint ⟨i, (pre.map Grapheme.cellWidth).sum + k⟩ = .ok start := by
  obtain ⟨front, rows, h⟩ := (new_represents columns maxRows).run hrun
  rw [h.storedRow] at hrow
  obtain ⟨htext, hsized⟩ := h.rowText hrow
  have hinfos : row.infos = pre.map Grapheme.sizingInfo ++ g.sizingInfo :: post.map Grapheme.sizingInfo := by
    rw [TextRow.infos, hgs, List.map_append, List.map_cons]
  have hwidth : colsOf (pre.map Grapheme.sizingInfo) = (pre.map Grapheme.cellWidth).sum := by
    rw [colsOf, List.map_map]
    rfl
  obtain ⟨hto, hat⟩ := h.located hrow hinfos
  rw [hgs, List.map_append, Content.holdsText_append, ← bytesOf_graphemes] at htext
  have hlen : byteLen (TextUnit.grapheme g).content = g.len := (hsized g (hgs ▸ List.mem_append_right _ List.mem_cons_self)).bytes
  refine ⟨front + totalBytes (rows.take i) + bytesOf (pre.map Grapheme.sizingInfo), ?_, ?_, ?_⟩
  · rw [← hlen]
    exact htext.2.1.get
  · intro k hk
    rw [Nat.add_assoc, hto k hk, hwidth]
  · intro k hk
    rw [← hwidth, hat k hk]

theorem offsets_locate_graphemes_wide : ∃ s start, (new 3 none).run [.pushRows [wideRow]] = some s ∧
    s.contentOffsetToPoint start = some (.ok ⟨0, 1⟩) ∧ s.contentOffsetAtPoint ⟨0, 2⟩ = .ok start := by
  have hcomputed : (do
      let s ← (new 3 none).run [.pushRows [wideRow]]
      let row ← s.storedRow 0
      some (row.graphemes.map fun g => (g.cellWidth, g.len))) = some [(1, 1), (2, 3)] := by decide +kernel
  simp only [Option.bind_eq_bind, Option.bind_eq_some_iff] at hcomputed
  obtain ⟨s, hs, row, hrow, hsizes⟩ := hcomputed
  obtain ⟨x, _, hgs, hx, htail⟩ := List.map_eq_cons_iff.mp (Option.some.inj hsizes)
  obtain ⟨g, _, rfl, hg, hnil⟩ := List.map_eq_cons_iff.mp htail
  obtain rfl := List.map_eq_nil_iff.mp hnil
  obtain ⟨start, -, hto, hat⟩ := offsets_locate_graphemes 3 none _ s hs 0 row hrow [x] [] g hgs
  obtain ⟨hwidth, hlen⟩ := Prod.mk.inj hg
  have hbefore : ([x].map Grapheme.cellWidth).sum = 1 := (Prod.mk.inj hx).1
  rw [hbefore] at hto hat
  exact ⟨s, start, hs, hto 0 (by omega), hat 1 (by omega)⟩

end FlatStorage

end InfiniShell.Scrollback
