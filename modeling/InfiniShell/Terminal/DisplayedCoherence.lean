import InfiniShell.Terminal.DisplayedOutput
import Mathlib.Data.List.Induction

namespace InfiniShell.Terminal.DisplayedOutput

open Collections

variable {M : Type} [BiMap M Nat Nat] {output : DisplayedOutput M} {lines lines' : List DisplayedRows}
  {map : M} {row : Nat}

theorem offset_behind {last : DisplayedRows} {rest : List Nat}
    (hmap : BiMap.Indexes map (rowsOf (lines ++ [last]) ++ rest)) (hlast : last.start ≤ last.stop) :
    ((BiMap.getByLeft map last.stop).map (· + 1)).getD 0 = (rowsOf (lines ++ [last])).length := by
  obtain ⟨init, hinit⟩ := rows_getLast hlast
  have hall : rowsOf (lines ++ [last]) = rowsOf lines ++ init ++ [last.stop] := by
    rw [rowsOf_append, rowsOf_cons, rowsOf_nil, List.append_nil, hinit, List.append_assoc]
  have hget : BiMap.getByLeft map last.stop = some (rowsOf lines ++ init).length := by
    rw [hmap last.stop, hall, List.append_assoc, List.getElem?_append_right (Nat.le_refl _)]
    simp
  rw [hget, hall]
  simp
  omega

variable [LawfulBiMap M Nat Nat]

theorem indexes_insertAll_empty (h : (rowsOf lines).Nodup) :
    BiMap.Indexes (BiMap.insertAll (BiMap.empty : M) 0 (rowsOf lines)).1 (rowsOf lines) :=
  BiMap.indexes_empty.insertAll (by simpa using h)

theorem newFromDisplayedLines_coherent (h : Ascending lines) :
    Coherent (newFromDisplayedLines lines : DisplayedOutput M) where
  ascending := h
  height := h.totalCount
  map := indexes_insertAll_empty h.nodup

theorem reset_coherent : Coherent (reset : DisplayedOutput M) where
  ascending := ⟨by simp [reset], List.Pairwise.nil⟩
  height := rfl
  map := BiMap.indexes_empty

theorem Coherent.extend (h : Coherent output) (hlines : Ascending (output.displayedRows ++ lines)) :
    Coherent (output.extendDisplayedLines lines) where
  ascending := hlines
  height := by
    have hheight := h.height
    rw [extendDisplayedLines, rows, rowsOf_append, List.length_append, hlines.append_right.totalCount]
    simp only [hheight, rows]
  map := by
    have hoffset : ((BiMap.getByLeft output.rowTranslationMap
        ((output.displayedRows.getLast?.map DisplayedRows.stop).getD 0)).map (· + 1)).getD 0 =
          output.rows.length := by
      cases output.displayedRows.eq_nil_or_concat' with
      | inl hnil =>
        have hrows : output.rows = [] := by rw [rows, hnil, rowsOf_nil]
        have hnone : BiMap.getByLeft output.rowTranslationMap 0 = none := by
          rw [Option.eq_none_iff_forall_ne_some]
          intro i hi
          rw [h.map 0 i, hrows] at hi
          cases hi
        rw [hnil, hrows, List.getLast?_nil, Option.map_none, Option.getD_none, hnone]
        rfl
      | inr hconcat =>
        obtain ⟨init, last, hlast⟩ := hconcat
        have hmap := h.map
        rw [rows, hlast] at hmap ⊢
        rw [List.getLast?_concat, Option.map_some, Option.getD_some]
        rw [← List.append_nil (rowsOf (init ++ [last]))] at hmap
        exact offset_behind hmap (h.ascending.1 last (by simp [hlast]))
    have hnodup : (output.rows ++ rowsOf lines).Nodup := by
      have := hlines.nodup
      rwa [rowsOf_append] at this
    rw [extendDisplayedLines, rows, rowsOf_append]
    simp only [appendToRowTranslation, hoffset]
    exact h.map.insertAll hnodup

theorem Coherent.prepend (h : Coherent output) (hlines : Ascending (lines ++ output.displayedRows)) :
    Coherent (output.prependDisplayedLines lines) where
  ascending := hlines
  height := by
    have hheight := h.height
    rw [prependDisplayedLines, rows, rowsOf_append, List.length_append, hlines.append_left.totalCount]
    simp only [hheight, rows]
    omega
  map := indexes_insertAll_empty hlines.nodup

variable {before after inserted : List DisplayedRows}

omit [LawfulBiMap M Nat Nat] in
theorem offsetBefore_eq
    (hmap : BiMap.Indexes map (rowsOf (before ++ after))) (hlines : Ascending (before ++ inserted)) :
    offsetBefore (before ++ inserted) map before.length = (rowsOf before).length := by
  cases before.eq_nil_or_concat' with
  | inl hnil => simp [offsetBefore, hnil]
  | inr hconcat =>
    obtain ⟨init, last, rfl⟩ := hconcat
    have hget : ((init ++ [last]) ++ inserted)[(init ++ [last]).length - 1]? = some last := by simp
    rw [offsetBefore, if_neg (by simp), hget, Option.map_some]
    rw [rowsOf_append] at hmap
    exact offset_behind hmap (hlines.1 last (by simp))

theorem replaceRows_indexes
    (hmap : BiMap.Indexes map (rowsOf (before ++ after))) (hlines : Ascending (before ++ inserted)) :
    BiMap.Indexes (replaceRowsFromRowTranslation (before ++ inserted) map before.length)
      (rowsOf (before ++ inserted)) := by
  have hlen := hmap.len
  have hall : (rowsOf (before ++ after)).length ≤
      (rowsOf before).length + (BiMap.len map + 1 - (rowsOf before).length) := by omega
  have hcleared := hmap.removeRange hall
  have hbefore : (rowsOf (before ++ after)).take (rowsOf before).length = rowsOf before := by
    rw [rowsOf_append]
    exact List.take_left
  rw [hbefore] at hcleared
  have hnodup := hlines.nodup
  rw [rowsOf_append] at hnodup
  rw [replaceRowsFromRowTranslation, offsetBefore_eq hmap hlines, List.drop_left, rowsOf_append]
  exact hcleared.insertAll hnodup

theorem Coherent.splice (h : Coherent output) {replaceStart replaceEnd : Nat} (hle : replaceStart ≤ replaceEnd)
    (hend : replaceEnd ≤ output.displayedRows.length)
    (hlines : Ascending (output.displayedRows.take replaceStart ++ lines ++ output.displayedRows.drop replaceEnd)) :
    Coherent (output.spliceDisplayedLines replaceStart replaceEnd lines).1 where
  ascending := hlines
  height := by
    have hsplit : output.displayedRows = output.displayedRows.take replaceStart ++
        ((output.displayedRows.take replaceEnd).drop replaceStart ++ output.displayedRows.drop replaceEnd) := by
      conv_lhs => rw [← List.take_append_drop replaceEnd output.displayedRows,
        ← List.take_append_drop replaceStart (output.displayedRows.take replaceEnd)]
      rw [List.take_take, Nat.min_eq_left hle, List.append_assoc]
    have hheight := h.height
    have hasc := h.ascending
    rw [hsplit] at hasc
    have hremoved := hasc.append_right.append_left.totalCount
    rw [rows, hsplit] at hheight
    simp only [spliceDisplayedLines, rows, rowsOf_append, List.length_append] at hheight ⊢
    rw [hremoved, hlines.append_left.append_right.totalCount]
    omega
  map := by
    have hlen : (output.displayedRows.take replaceStart).length = replaceStart := by
      rw [List.length_take]
      omega
    have hmap := h.map
    rw [rows, ← List.take_append_drop replaceStart output.displayedRows] at hmap
    rw [List.append_assoc] at hlines
    have hindexes := replaceRows_indexes hmap hlines
    rw [hlen, ← List.append_assoc] at hindexes
    exact hindexes

section Truncate

variable {kept rest : List DisplayedRows}

omit [BiMap M Nat Nat] [LawfulBiMap M Nat Nat]

theorem scanBack_spec (lines after : List DisplayedRows) (hafter : ∀ r ∈ after, row ≤ r.stop) :
    ∃ kept rest, lines ++ after = kept ++ rest ∧
      scanBack row (after.head?.map fun r => (lines.length, r)) lines.zipIdx.reverse =
        rest.head?.map (fun r => (kept.length, r)) ∧
      (∀ last, kept.getLast? = some last → last.stop < row) ∧ ∀ r ∈ rest, row ≤ r.stop := by
  induction lines using List.reverseRecOn generalizing after with
  | nil => exact ⟨[], after, rfl, rfl, by simp, hafter⟩
  | append_singleton lines r ih =>
    have hreverse : (lines ++ [r]).zipIdx.reverse = (r, lines.length) :: lines.zipIdx.reverse := by
      simp [List.zipIdx_append]
    rw [hreverse, scanBack]
    by_cases hrow : row > r.stop
    · rw [if_pos hrow]
      refine ⟨lines ++ [r], after, rfl, rfl, ?_, hafter⟩
      intro last hlast
      rw [List.getLast?_concat, Option.some.injEq] at hlast
      rwa [← hlast]
    · rw [if_neg hrow]
      have hafter' : ∀ r' ∈ r :: after, row ≤ r'.stop := by
        intro r' hr'
        cases List.mem_cons.mp hr' with
        | inl heq => rw [heq]; omega
        | inr hmem => exact hafter r' hmem
      obtain ⟨kept, rest, hsplit, hscan, hkept, hrest⟩ := ih (r :: after) hafter'
      exact ⟨kept, rest, by rw [← hsplit, List.append_assoc]; rfl, hscan, hkept, hrest⟩

theorem firstRows_spec (output : DisplayedOutput M) (row : Nat) :
    ∃ kept rest, output.displayedRows = kept ++ rest ∧
      output.firstRowsGreaterThanOrContainedIn row = rest.head?.map (fun r => (kept.length, r)) ∧
      (∀ last, kept.getLast? = some last → last.stop < row) ∧ ∀ r ∈ rest, row ≤ r.stop := by
  have hnil : ∀ r ∈ ([] : List DisplayedRows), row ≤ r.stop := by simp
  obtain ⟨kept, rest, hsplit, hscan⟩ := scanBack_spec output.displayedRows [] hnil
  rw [List.append_nil] at hsplit
  exact ⟨kept, rest, hsplit, hscan⟩

theorem Ascending.le_of_getLast (h : Ascending kept) (hkept : ∀ last, kept.getLast? = some last → last.stop < row) :
    ∀ r ∈ rowsOf kept, r < row := by
  cases kept.eq_nil_or_concat' with
  | inl hnil => simp [hnil]
  | inr hconcat =>
    obtain ⟨init, last, rfl⟩ := hconcat
    have hlast : last.stop < row := hkept last List.getLast?_concat
    intro r hr
    obtain ⟨rows, hmem, -, hstop⟩ := mem_rowsOf.mp hr
    cases List.mem_append.mp hmem with
    | inl hinit =>
      have hbefore := (List.pairwise_append.mp h.2).2.2 rows hinit last (by simp)
      have hne := h.1 last (by simp)
      omega
    | inr heq =>
      rw [List.mem_singleton.mp heq] at hstop
      omega

theorem truncateToRow_rows_le (h : Ascending output.displayedRows) (row : Nat) :
    ∀ r ∈ (output.truncateToRow row).rows, r ≤ row := by
  obtain ⟨kept, rest, hsplit, hfirst, hkept, hrest⟩ := firstRows_spec output row
  have hbefore : ∀ r ∈ rowsOf kept, r ≤ row := by
    rw [hsplit] at h
    exact fun r hr => Nat.le_of_lt (h.append_left.le_of_getLast hkept r hr)
  rw [truncateToRow]
  split
  · rename_i hnil
    simp [rows, hnil]
  · split
    · simp [rows]
    · rw [hfirst]
      cases rest with
      | nil =>
        rw [List.append_nil] at hsplit
        simpa [rows, hsplit] using hbefore
      | cons r rest =>
        simp only [List.head?_cons, Option.map_some, truncateFrom, hsplit, List.drop_left, List.take_left]
        split
        · simp only [rows, rowsOf_append, rowsOf_cons, rowsOf_nil, List.append_nil]
          intro r' hr'
          cases List.mem_append.mp hr' with
          | inl hmem => exact hbefore r' hmem
          | inr hmem => exact (mem_rows.mp hmem).2
        · exact hbefore

end Truncate

omit [LawfulBiMap M Nat Nat] in
theorem truncateToRow_of_le (h : Coherent output) (hle : ∀ r ∈ output.rows, r ≤ row) :
    output.truncateToRow row = output := by
  obtain ⟨kept, rest, hsplit, hfirst, hkept, hrest⟩ := firstRows_spec output row
  have hasc := h.ascending
  rw [truncateToRow]
  split
  · rfl
  · rename_i first others hrows
    have hstart : first.start ≤ row := by
      apply hle
      rw [rows, hrows, rowsOf_cons]
      exact List.mem_append_left _ (mem_rows.mpr ⟨Nat.le_refl _, hasc.1 first (by simp [hrows])⟩)
    rw [if_neg (Nat.not_lt.mpr hstart), hfirst]
    cases rest with
    | nil => rfl
    | cons r rest =>
      rw [hsplit] at hasc
      have hstop : ∀ r' ∈ r :: rest, r'.stop = row := by
        intro r' hr'
        have hmem : r'.stop ∈ output.rows := by
          rw [rows, mem_rowsOf, hsplit]
          exact ⟨r', List.mem_append_right _ hr', hasc.1 r' (List.mem_append_right _ hr'), Nat.le_refl _⟩
        exact Nat.le_antisymm (hle _ hmem) (hrest r' hr')
      have hlast : rest = [] := by
        cases rest with
        | nil => rfl
        | cons r' rest =>
          obtain ⟨hne, hbehind, hbefore⟩ := hasc.append_right.cons
          have hlt := hbefore r'.stop (mem_rowsOf.mpr ⟨r', by simp, hbehind.1 r' (by simp), Nat.le_refl _⟩)
          rw [hstop r (by simp), hstop r' (by simp)] at hlt
          omega
      have hrow : r.start ≤ row ∧ row ≤ r.stop := by
        rw [hstop r (by simp)]
        exact ⟨hstop r (by simp) ▸ hasc.1 r (by simp), Nat.le_refl _⟩
      have hsame : (⟨r.start, row, r.source⟩ : DisplayedRows) = r := by
        rw [← hstop r (by simp)]
      have hcount : r.count ≤ output.height := by
        have htotal := h.ascending.totalCount
        rw [hsplit, totalCount, List.map_append, List.sum_append, List.map_cons, List.sum_cons, ← hsplit] at htotal
        have hheight := h.height
        rw [rows] at hheight
        omega
      simp only [List.head?_cons, Option.map_some, truncateFrom, hsplit, List.drop_left, List.take_left, hrow, hsame,
        and_self, if_true, hlast, totalCount, List.map_nil, List.sum_nil, Nat.sub_zero]
      rw [Nat.sub_add_cancel hcount]
      obtain ⟨displayedRows, height, rowTranslationMap⟩ := output
      rw [hlast] at hsplit
      cases hsplit
      rfl

end InfiniShell.Terminal.DisplayedOutput
