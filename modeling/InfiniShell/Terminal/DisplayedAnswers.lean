import InfiniShell.Terminal.DisplayedCoherence

namespace InfiniShell.Terminal.DisplayedOutput

open Collections

variable {M : Type} [BiMap M Nat Nat]

section Search

variable [LawfulBiMap M Nat Nat] {map : M} {rows : List Nat} {target k : Nat}

theorem searchDisplayedRow_eq (hmap : BiMap.Indexes map rows) (htarget : target ∉ rows) (hk : k ≤ rows.length)
    (hbefore : ∀ i row, rows[i]? = some row → (row < target ↔ i < k)) (low high : Nat) (candidate : Option Nat)
    (hlow : low ≤ k) (hhigh : k ≤ high + 1) (hlen : high < rows.length)
    (hcandidate : candidate = if high + 1 < rows.length then some (high + 1) else none) :
    searchDisplayedRow map target low high candidate = if k < rows.length then some k else none := by
  fun_induction searchDisplayedRow map target low high candidate with
  | case1 low high candidate hle displayedRow hnone =>
    rw [hmap.getByRight, List.getElem?_eq_none_iff] at hnone
    omega
  | case2 low high candidate hle displayedRow row hget hgreater hzero =>
    rw [hmap.getByRight] at hget
    have hrow := hbefore _ _ hget
    rw [if_pos (by omega)]
    congr 1
    omega
  | case3 low high candidate hle displayedRow row hget hgreater hzero ih =>
    rw [hmap.getByRight] at hget
    have hrow := hbefore _ _ hget
    apply ih <;> try omega
    rw [if_pos (by omega)]
    congr 1
    omega
  | case4 low high candidate hle displayedRow row hget hgreater hless ih =>
    rw [hmap.getByRight] at hget
    have hrow := hbefore _ _ hget
    exact ih (by omega) hhigh hlen hcandidate
  | case5 low high candidate hle displayedRow row hget hgreater hless =>
    rw [hmap.getByRight, show row = target by omega] at hget
    exact absurd (List.mem_of_getElem? hget) htarget
  | case6 low high candidate hle =>
    rw [hcandidate, show high + 1 = k by omega]

theorem lt_findIdx_iff (hrows : rows.Pairwise (· < ·)) (target : Nat) {i row : Nat} (hi : rows[i]? = some row) :
    row < target ↔ i < rows.findIdx (fun row => target ≤ row) := by
  obtain ⟨hlt, rfl⟩ := List.getElem?_eq_some_iff.mp hi
  constructor
  · intro hbefore
    by_contra hle
    have hidx : rows.findIdx (fun row => target ≤ row) < rows.length := by omega
    have hfound : target ≤ rows[rows.findIdx fun row => target ≤ row] := by
      simpa using List.findIdx_getElem (w := hidx)
    by_cases heq : rows.findIdx (fun row => target ≤ row) = i
    · simp only [heq] at hfound
      omega
    · have hpair := List.pairwise_iff_getElem.mp hrows _ i hidx hlt (by omega)
      omega
  · intro hbefore
    simpa using List.not_of_lt_findIdx hbefore

theorem Coherent.getExactOrNextDisplayedRow {output : DisplayedOutput M} (h : Coherent output) (target : Nat) :
    output.getExactOrNextDisplayedRow target = output.rows.findIdx? fun row => target ≤ row := by
  have hsorted : output.rows.Pairwise (· < ·) := h.ascending.rows_pairwise
  have hlen := h.map.len
  rw [List.findIdx?_eq_guard_findIdx_lt, Option.guard_def, DisplayedOutput.getExactOrNextDisplayedRow, BiMap.isEmpty]
  by_cases hempty : output.rows = []
  · simp [hlen, hempty]
  · have hpos : 0 < output.rows.length := List.length_pos_of_ne_nil hempty
    rw [if_neg (by simp [hlen]; exact hempty)]
    cases hget : BiMap.getByLeft output.rowTranslationMap target with
    | some i =>
      rw [h.map target i] at hget
      obtain ⟨hi, htarget⟩ := List.getElem?_eq_some_iff.mp hget
      have hidx : output.rows.findIdx (fun row => target ≤ row) = i := by
        rw [List.findIdx_eq hi]
        refine ⟨by simp [htarget], ?_⟩
        intro j hj
        have hlt : j < output.rows.length := Nat.lt_trans hj hi
        have hpair := List.pairwise_iff_getElem.mp hsorted j i hlt hi hj
        simpa [htarget] using hpair
      simp [hidx, hi]
    | none =>
      have hmem : target ∉ output.rows := by
        intro hmem
        obtain ⟨i, hi⟩ := List.mem_iff_getElem?.mp hmem
        rw [(h.map target i).mpr hi] at hget
        cases hget
      have hle : output.rows.findIdx (fun row => target ≤ row) ≤ output.rows.length := List.findIdx_le_length
      have hsearch := searchDisplayedRow_eq h.map hmem hle
        (fun i row hi => lt_findIdx_iff hsorted target hi) 0 (output.rows.length - 1) none (Nat.zero_le _)
        (by omega) (by omega) (by rw [if_neg (by omega)])
      rw [hlen, hsearch]
      simp

end Search

/-- What the queries say, according to the displayed rows. -/
structure Answers (output : DisplayedOutput M) : Prop where
  height : output.height = output.rows.length
  ascending : output.rows.Pairwise (· < ·)
  getByLeft : ∀ row i, BiMap.getByLeft output.rowTranslationMap row = some i ↔ output.rows[i]? = some row
  getByRight : ∀ i, BiMap.getByRight output.rowTranslationMap i = output.rows[i]?
  isDisplayedRow : ∀ row, output.isDisplayedRow row = true ↔ row ∈ output.rows
  toDisplayed : ∀ point, output.maybeTranslatePointFromOriginalToDisplayed point =
    ⟨(output.rows.findIdx? (· == point.row)).getD point.row, point.col⟩
  toOriginal : ∀ point, output.maybeTranslatePointFromDisplayedToOriginal point =
    ⟨output.rows[point.row]?.getD point.row, point.col⟩
  rowToOriginal : ∀ row, output.maybeTranslateRowFromDisplayedToOriginal row = output.rows[row]?.getD row
  exactOrNext : ∀ target, output.getExactOrNextDisplayedRow target = output.rows.findIdx? fun row => target ≤ row

theorem Coherent.answers [LawfulBiMap M Nat Nat] {output : DisplayedOutput M} (h : Coherent output) :
    Answers output where
  height := h.height
  ascending := h.ascending.rows_pairwise
  getByLeft := h.map
  getByRight := h.map.getByRight
  isDisplayedRow := h.map.containsLeft
  toDisplayed := by
    intro point
    have hsorted : output.rows.Pairwise (· < ·) := h.ascending.rows_pairwise
    have hget : BiMap.getByLeft output.rowTranslationMap point.row = output.rows.findIdx? (· == point.row) := by
      apply Option.ext
      intro i
      rw [h.map point.row i, List.findIdx?_eq_some_iff_getElem, List.getElem?_eq_some_iff]
      constructor
      · intro hi
        obtain ⟨hlt, hrow⟩ := hi
        refine ⟨hlt, by simp [hrow], ?_⟩
        intro j hj
        have hlt' : j < output.rows.length := Nat.lt_trans hj hlt
        have hpair := List.pairwise_iff_getElem.mp hsorted j i hlt' hlt hj
        rw [← hrow]
        simpa using Nat.ne_of_lt hpair
      · intro hi
        obtain ⟨hlt, hrow, -⟩ := hi
        exact ⟨hlt, by simpa using hrow⟩
    rw [maybeTranslatePointFromOriginalToDisplayed, hget]
    cases output.rows.findIdx? (· == point.row) <;> rfl
  toOriginal := by
    intro point
    rw [maybeTranslatePointFromDisplayedToOriginal, h.map.getByRight]
    cases output.rows[point.row]? <;> rfl
  rowToOriginal := by
    intro row
    rw [maybeTranslateRowFromDisplayedToOriginal, h.map.getByRight]
  exactOrNext := h.getExactOrNextDisplayedRow

inductive Operation where
  | newFromDisplayedLines (displayedLines : List DisplayedRows)
  | extendDisplayedLines (displayedLines : List DisplayedRows)
  | prependDisplayedLines (displayedLines : List DisplayedRows)
  | spliceDisplayedLines (replaceStart replaceEnd : Nat) (displayedLines : List DisplayedRows)
  | truncateToRow (row : Nat)
  | reset

def Operation.apply (output : DisplayedOutput M) : Operation → DisplayedOutput M
  | .newFromDisplayedLines displayedLines => DisplayedOutput.newFromDisplayedLines displayedLines
  | .extendDisplayedLines displayedLines => output.extendDisplayedLines displayedLines
  | .prependDisplayedLines displayedLines => output.prependDisplayedLines displayedLines
  | .spliceDisplayedLines replaceStart replaceEnd displayedLines =>
    (output.spliceDisplayedLines replaceStart replaceEnd displayedLines).1
  | .truncateToRow row => output.truncateToRow row
  | .reset => DisplayedOutput.reset

/-- The arguments keep the ranges ascending and disjoint, and a splice replaces ranges that are there. -/
def Keeps (output : DisplayedOutput M) : Operation → Prop
  | .newFromDisplayedLines displayedLines => Ascending displayedLines
  | .extendDisplayedLines displayedLines => Ascending (output.displayedRows ++ displayedLines)
  | .prependDisplayedLines displayedLines => Ascending (displayedLines ++ output.displayedRows)
  | .spliceDisplayedLines replaceStart replaceEnd displayedLines =>
    replaceStart ≤ replaceEnd ∧ replaceEnd ≤ output.displayedRows.length ∧
      Ascending (output.displayedRows.take replaceStart ++ displayedLines ++ output.displayedRows.drop replaceEnd)
  | .truncateToRow _ => True
  | .reset => True

/-- A truncation finds no displayed row behind its row. -/
def CutsNothing (output : DisplayedOutput M) : Operation → Prop
  | .truncateToRow row => ∀ r ∈ output.rows, r ≤ row
  | _ => True

def Along (P : DisplayedOutput M → Operation → Prop) (output : DisplayedOutput M) : List Operation → Prop
  | [] => True
  | op :: ops => P output op ∧ Along P (op.apply output) ops

def states (output : DisplayedOutput M) : List Operation → List (DisplayedOutput M)
  | [] => [output]
  | op :: ops => output :: states (op.apply output) ops

variable [LawfulBiMap M Nat Nat] {output : DisplayedOutput M} {op : Operation}

theorem Coherent.apply (h : Coherent output) (hkeeps : Keeps output op) (hcuts : CutsNothing output op) :
    Coherent (op.apply output) := by
  cases op with
  | newFromDisplayedLines displayedLines => exact newFromDisplayedLines_coherent hkeeps
  | extendDisplayedLines displayedLines => exact h.extend hkeeps
  | prependDisplayedLines displayedLines => exact h.prepend hkeeps
  | spliceDisplayedLines replaceStart replaceEnd displayedLines => exact h.splice hkeeps.1 hkeeps.2.1 hkeeps.2.2
  | truncateToRow row =>
    rw [Operation.apply, truncateToRow_of_le h hcuts]
    exact h
  | reset => exact reset_coherent

omit [BiMap M Nat Nat] [LawfulBiMap M Nat Nat] in
theorem truncateToRow_map (output : DisplayedOutput M) (row : Nat) :
    (output.truncateToRow row).rowTranslationMap = output.rowTranslationMap := by
  rw [truncateToRow]
  split
  · rfl
  · split
    · rfl
    · split
      · rfl
      · rw [truncateFrom]
        split
        · rfl
        · simp only
          split <;> rfl

omit [LawfulBiMap M Nat Nat] in
theorem cutsNothing_of_answers (h : Coherent output) (hanswers : Answers (op.apply output)) :
    CutsNothing output op := by
  cases op with
  | truncateToRow row =>
    intro r hr
    apply truncateToRow_rows_le h.ascending row r
    apply (hanswers.isDisplayedRow r).mp
    rw [Operation.apply, isDisplayedRow, truncateToRow_map]
    exact (h.map.containsLeft r).mpr hr
  | _ => trivial

theorem answers_iff_cutsNothing (h : Coherent output) (ops : List Operation) (hkeeps : Along Keeps output ops) :
    (∀ o ∈ states output ops, Answers o) ↔ Along CutsNothing output ops := by
  induction ops generalizing output with
  | nil => simpa [states, Along] using h.answers
  | cons op ops ih =>
    obtain ⟨hop, hops⟩ := hkeeps
    rw [states, Along, List.forall_mem_cons]
    constructor
    · intro hanswers
      have hnext : Answers (op.apply output) := hanswers.2 _ (by cases ops <;> simp [states])
      have hcuts := cutsNothing_of_answers h hnext
      exact ⟨hcuts, (ih (h.apply hop hcuts) hops).mp hanswers.2⟩
    · intro hcuts
      exact ⟨h.answers, (ih (h.apply hop hcuts.1) hops).mpr hcuts.2⟩

/-- The map and the queries are right in every state exactly if no truncation cuts a row off. -/
theorem displayed_output_answers (ops : List Operation) (hkeeps : Along Keeps (reset : DisplayedOutput M) ops) :
    (∀ o ∈ states (reset : DisplayedOutput M) ops, Answers o) ↔ Along CutsNothing (reset : DisplayedOutput M) ops :=
  answers_iff_cutsNothing reset_coherent ops hkeeps

/-- The last row of the block is displayed when it is truncated there. -/
theorem displayed_output_answers_at_end :
    let ops : List Operation := [.newFromDisplayedLines [⟨2, 4, .filterMatch⟩, ⟨6, 10, .filterMatch⟩], .truncateToRow 10,
      .extendDisplayedLines [⟨16, 17, .cursorLine⟩]]
    Along CutsNothing (reset : DisplayedOutput (PairMap Nat Nat)) ops ∧
      ∀ o ∈ states (reset : DisplayedOutput (PairMap Nat Nat)) ops, Answers o := by
  intro ops
  have hcuts : Along CutsNothing (reset : DisplayedOutput (PairMap Nat Nat)) ops := by
    simp only [ops, Along, CutsNothing, true_and, and_true]
    decide
  have hkeeps : Along Keeps (reset : DisplayedOutput (PairMap Nat Nat)) ops := by
    simp only [ops, Along, Keeps, true_and, and_true, Ascending]
    decide
  exact ⟨hcuts, (displayed_output_answers ops hkeeps).mpr hcuts⟩

/-- Rows 3 and 4 are truncated, but still said to be displayed. -/
theorem truncated_row_still_displayed :
    let ops : List Operation := [.newFromDisplayedLines [⟨2, 4, .filterMatch⟩], .truncateToRow 2]
    Along Keeps (reset : DisplayedOutput (PairMap Nat Nat)) ops ∧
      ¬ ∀ o ∈ states (reset : DisplayedOutput (PairMap Nat Nat)) ops, Answers o := by
  refine ⟨?_, ?_⟩
  · simp only [Along, Keeps, and_true, Ascending]
    decide
  · intro hanswers
    have hlast := (hanswers _ (List.mem_cons_of_mem _ (List.mem_cons_of_mem _ List.mem_cons_self))).isDisplayedRow 3
    revert hlast
    decide

end InfiniShell.Terminal.DisplayedOutput
