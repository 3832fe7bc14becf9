import InfiniShell.DiffValidation.Matching

namespace InfiniShell.DiffValidation

structure SearchAndReplace where
  search : Text
  replace : Text

def usizeMax : Nat := 18446744073709551615

def digitsValue (digits : List Char) : Nat := digits.foldl (fun n c => 10 * n + (c.toNat - '0'.toNat)) 0

/-- A line with its number, if it starts with one that is a `usize`. -/
def parseLineNumber (line : Line) : Option Nat × Line :=
  let digits := line.takeWhile Char.isDigit
  match line.dropWhile Char.isDigit with
  | '|' :: rest => if digits ≠ [] ∧ digitsValue digits ≤ usizeMax then (some (digitsValue digits), rest) else (none, line)
  | _ => (none, line)

def parseLineNumbers (overflowChecks : Bool) (search : Text) : Except Fault (Option LineRange × Text) :=
  match (strLines search).map parseLineNumber with
  | [] => .ok (some ⟨0, 0⟩, search)
  | first :: rest =>
    match first.1, ((first :: rest).getLast (List.cons_ne_nil first rest)).1 with
    | some start, some stop =>
      if stop = usizeMax ∧ overflowChecks then .error .overflow
      else
        .ok (some ⟨start, if stop = usizeMax then 0 else stop + 1⟩, joinLines ((first :: rest).map Prod.snd))
    | _, _ => .ok (none, search)

def validRange (count : Nat) (range : LineRange) : Bool :=
  0 < range.start ∧ range.start ≤ count ∧ 0 < range.stop ∧ range.stop ≤ count + 1 ∧ range.start ≤ range.stop

def unmatchedLineSuffix (searchLine fileLine : Line) : Option Text :=
  if isStrictTrimmedPrefix searchLine fileLine then some ((trimStart fileLine).drop (trimStart searchLine).length)
  else none

def appendUnmatchedLineSuffix (search : Text) (fileLine : Line) (insertion : Text) : Text :=
  match (lines search).getLast?, (lines insertion).getLast? with
  | some searchLast, some insertionLast =>
    match unmatchedLineSuffix searchLast fileLine with
    | none => insertion
    | some suffix =>
      if (lines search).length ≠ (lines insertion).length ∧ trimStart searchLast ≠ trimStart insertionLast then insertion
      else
        let newlines := insertion.reverse.takeWhile (· = '\n')
        insertion.take (insertion.length - newlines.length) ++ suffix ++ newlines
  | _, _ => insertion

inductive BlockOutcome where
  | noop
  | matched (delta : DiffDelta)
  | unmatched
deriving DecidableEq

variable (similarity : Text → Text → ℚ)

def blockTiers (lineRange : Option LineRange) : List (ℚ × MakeScorer) :=
  (sectionMatchThreshold, makeExactMatch) :: (sectionMatchThreshold, makeIndentationAgnosticMatch) ::
    ((if lineRange.isSome then [(1, makePrefixTailMatch)] else []) ++
      [(sectionMatchThreshold, makeJaroWinklerMatch similarity)])

def locateBlock (file : List Line) (lineRange : Option LineRange) (search : Text) :
    Except Fault (Option LineRange) :=
  if lineRange = some ⟨0, 0⟩ then .ok lineRange
  else
    let hint := lineRange.filter (validRange file.length)
    matchTiers search hint file (blockTiers similarity hint)

def replaceBlock (file : List Line) (search replace : Text) (range : LineRange) : Except Fault BlockOutcome :=
  if range = ⟨0, 0⟩ then .ok (.matched ⟨range, replace⟩)
  else do
    let original ← sliceLines file (← checkedSub range.start 1) (← checkedSub range.stop 1)
    if strLines replace = original then .ok .noop
    else if 2 ≤ range.stop then
      match file[range.stop - 2]? with
      | none => .error .outOfRange
      | some line => .ok (.matched ⟨range, appendUnmatchedLineSuffix search line replace⟩)
    else .ok (.matched ⟨range, replace⟩)

def resolveBlock (file : List Line) (replace : Text) (parsed : Option LineRange × Text) : Except Fault BlockOutcome :=
  if parsed.2 = replace then .ok .noop
  else do
    match ← locateBlock similarity file parsed.1 parsed.2 with
    | none => .ok .unmatched
    | some range => replaceBlock file parsed.2 replace range

def missesLineNumbers (parsed : Option LineRange × Text) : Bool := parsed.1 = none && !parsed.2.isEmpty

def recordOutcome (overflowChecks : Bool) (deltas : List DiffDelta) (failures : DiffMatchFailures) :
    BlockOutcome → Except Fault (List DiffDelta × DiffMatchFailures)
  | .noop => do .ok (deltas, { failures with noopDeltas := ← bump overflowChecks failures.noopDeltas })
  | .matched delta => .ok (deltas ++ [delta], failures)
  | .unmatched => do
    .ok (deltas, { failures with fuzzyMatchFailures := ← bump overflowChecks failures.fuzzyMatchFailures })

def recordMissing (overflowChecks : Bool) (failures : DiffMatchFailures) (parsed : Option LineRange × Text) :
    Except Fault DiffMatchFailures :=
  if missesLineNumbers parsed then do
    .ok { failures with missingLineNumbers := ← bump overflowChecks failures.missingLineNumbers }
  else .ok failures

def matchBlock (overflowChecks : Bool) (file : List Line) (acc : List DiffDelta × DiffMatchFailures)
    (diff : SearchAndReplace) : Except Fault (List DiffDelta × DiffMatchFailures) := do
  let (deltas, failures) := acc
  let parsed ← parseLineNumbers overflowChecks diff.search
  let failures ← recordMissing overflowChecks failures parsed
  recordOutcome overflowChecks deltas failures (← resolveBlock similarity file diff.replace parsed)

def fuzzyMatchFileDiffs (overflowChecks : Bool) (diffs : List SearchAndReplace) (fileContent : Text) :
    Except Fault (List DiffDelta × DiffMatchFailures) :=
  diffs.foldlM (matchBlock similarity overflowChecks (lines fileContent)) ([], {})

def fuzzyMatchDiffs (overflowChecks : Bool) (fileName : Text) (diffs : List SearchAndReplace) (fileContent : Text) :
    Except Fault AIRequestedCodeDiff := do
  let (deltas, failures) ← fuzzyMatchFileDiffs similarity overflowChecks diffs fileContent
  .ok { fileName, deltas, rename := none, failures := failures.surface deltas, originalContent := fileContent }

section Places

def matchAt (file : List Line) (length : Nat) (scorer : Scorer) (w : Nat) : Match :=
  ⟨w + 1, w + length + 1, scorer (window file length w)⟩

/-- The window to take between two lines: it reaches the threshold, none is better, and none before it as good. -/
structure BestPlace (file : List Line) (length : Nat) (threshold : ℚ) (scorer : Scorer) (hint : Option Nat)
    (first last w : Nat) : Prop where
  after : first ≤ w
  before : w + length ≤ last
  enough : threshold ≤ scorer (window file length w)
  best : ∀ j, first ≤ j → j + length ≤ last → threshold ≤ scorer (window file length j) →
    atLeastAsGood hint (matchAt file length scorer w) (matchAt file length scorer j)
  earliest : ∀ j < w, first ≤ j → threshold ≤ scorer (window file length j) →
    ¬ atLeastAsGood hint (matchAt file length scorer j) (matchAt file length scorer w)

def NoPlace (file : List Line) (length : Nat) (threshold : ℚ) (scorer : Scorer) (first last : Nat) : Prop :=
  ∀ w, first ≤ w → w + length ≤ last → scorer (window file length w) < threshold

variable {file : List Line} {length : Nat} {threshold : ℚ} {scorer : Scorer} {hint : Option Nat} {first last : Nat}

theorem BestPlace.unique {v w : Nat} (hv : BestPlace file length threshold scorer hint first last v)
    (hw : BestPlace file length threshold scorer hint first last w) : v = w := by
  obtain hlt | heq | hgt := Nat.lt_trichotomy v w
  · exact absurd (hv.best w hw.after hw.before hw.enough) (hw.earliest v hlt hv.after hv.enough)
  · exact heq
  · exact absurd (hw.best v hv.after hv.before hv.enough) (hv.earliest w hgt hw.after hw.enough)

theorem NoPlace.not_best (h : NoPlace file length threshold scorer first last) {w : Nat} :
    ¬ BestPlace file length threshold scorer hint first last w := by
  intro hw
  exact absurd hw.enough (not_le.mpr (h w hw.after hw.before))

variable (file threshold hint scorer) in
theorem head?_scoreMatches (hpos : 0 < length) :
    (scoreMatches file length threshold hint scorer).head? = none ∧
      NoPlace file length threshold scorer 0 file.length ∨
    ∃ w, BestPlace file length threshold scorer hint 0 file.length w ∧
      (scoreMatches file length threshold hint scorer).head? = some (matchAt file length scorer w) := by
  have hmem : ∀ {j}, j + length ≤ file.length → j ∈ List.range (file.length + 1 - length) := by
    intro j hj
    exact List.mem_range.mpr (by omega)
  cases hhead : (scoreMatches file length threshold hint scorer).head? with
  | none =>
    refine .inl ⟨rfl, ?_⟩
    rw [scoreMatches_eq hpos, head?_insertionSort_eq_none, List.filterMap_eq_nil_iff] at hhead
    intro w _ hw
    have hnone := hhead w (hmem hw)
    split at hnone
    next => cases hnone
    next hlow => exact not_le.mp hlow
  | some m =>
    rw [scoreMatches_eq hpos] at hhead
    obtain ⟨w, hw, hf, hbest⟩ := head?_insertionSort_filterMap (atLeastAsGood_total hint) (atLeastAsGood_trans hint)
      List.pairwise_lt_range hhead
    rw [List.mem_range] at hw
    split at hf
    next henough =>
      obtain rfl := Option.some.inj hf
      refine .inr ⟨w, ⟨Nat.zero_le _, by omega, henough, ?_, ?_⟩, rfl⟩
      · intro j _ hj hscore
        exact (hbest j (hmem hj) _ (if_pos hscore)).2
      · intro j hj _ hscore
        exact (hbest j (hmem (by omega)) _ (if_pos hscore)).1 hj
    next => cases hf

variable (file threshold scorer) in
theorem globalMatch_spec (hpos : 0 < length) (range : Option LineRange) :
    globalMatch scorer length threshold file range = none ∧ NoPlace file length threshold scorer 0 file.length ∨
    ∃ w, BestPlace file length threshold scorer (range.map LineRange.start) 0 file.length w ∧
      globalMatch scorer length threshold file range = some ⟨w + 1, w + length + 1⟩ := by
  unfold globalMatch
  obtain ⟨hhead, hnone⟩ | ⟨w, hw, hhead⟩ := head?_scoreMatches file threshold scorer (range.map LineRange.start) hpos
  · exact .inl ⟨by rw [hhead]; rfl, hnone⟩
  · exact .inr ⟨w, hw, by rw [hhead]; rfl⟩

theorem window_slice {j : Nat} (h : first + j + length ≤ last) :
    window ((file.drop first).take (last - first)) length j = window file length (first + j) := by
  unfold window
  rw [List.drop_take, List.drop_drop, List.take_take]
  congr 1
  omega

theorem absDiff_add (a b n : Nat) : absDiff (a + n) (b + n) = absDiff a b := by
  unfold absDiff
  split <;> split <;> omega

theorem atLeastAsGood_slice {expected j w : Nat} (hj : first + j + length ≤ last) (hw : first + w + length ≤ last) :
    atLeastAsGood (some expected) (matchAt ((file.drop first).take (last - first)) length scorer j)
      (matchAt ((file.drop first).take (last - first)) length scorer w) ↔
    atLeastAsGood (some (expected + first)) (matchAt file length scorer (first + j))
      (matchAt file length scorer (first + w)) := by
  have hdiff : ∀ k, absDiff (first + k + 1) (expected + first) = absDiff (k + 1) expected := by
    intro k
    rw [← absDiff_add (k + 1) expected first]
    congr 1
    omega
  unfold atLeastAsGood matchAt
  rw [window_slice hj, window_slice hw]
  simp [hdiff]

variable (threshold scorer) in
theorem head?_scoreMatches_slice (hpos : 0 < length) (hlast : last ≤ file.length) (hfirst : first ≤ last)
    (expected : Nat) :
    (scoreMatches ((file.drop first).take (last - first)) length threshold (some expected) scorer).head? = none ∧
      NoPlace file length threshold scorer first last ∨
    ∃ w, BestPlace file length threshold scorer (some (expected + first)) first last w ∧
      (scoreMatches ((file.drop first).take (last - first)) length threshold (some expected) scorer).head? =
        some ⟨w - first + 1, w - first + length + 1, scorer (window file length w)⟩ := by
  have hslice : ((file.drop first).take (last - first)).length = last - first := by
    rw [List.length_take, List.length_drop]
    omega
  obtain ⟨hhead, hnone⟩ | ⟨w, hw, hhead⟩ :=
    head?_scoreMatches ((file.drop first).take (last - first)) threshold scorer (some expected) hpos
  · refine .inl ⟨hhead, ?_⟩
    intro w hw hstop
    have hlow := hnone (w - first) (Nat.zero_le _) (by omega)
    rw [window_slice (by omega), Nat.add_sub_of_le hw] at hlow
    exact hlow
  · have hstop := hw.before
    rw [hslice] at hstop
    have hwin : window ((file.drop first).take (last - first)) length w = window file length (first + w) :=
      window_slice (by omega)
    refine .inr ⟨first + w, ⟨Nat.le_add_right _ _, by omega, hwin ▸ hw.enough, ?_, ?_⟩, ?_⟩
    · intro j hj hjstop hscore
      obtain ⟨i, rfl⟩ := Nat.exists_eq_add_of_le hj
      rw [← window_slice hjstop] at hscore
      exact (atLeastAsGood_slice (by omega) hjstop).mp (hw.best i (Nat.zero_le _) (by omega) hscore)
    · intro j hj hfrom hscore
      obtain ⟨i, rfl⟩ := Nat.exists_eq_add_of_le hfrom
      have histop : first + i + length ≤ last := by omega
      rw [← window_slice histop] at hscore
      intro hgood
      exact hw.earliest i (by omega) (Nat.zero_le _) hscore ((atLeastAsGood_slice histop (by omega)).mpr hgood)
    · rw [hhead, matchAt, hwin, Nat.add_sub_cancel_left]

end Places

section Tiers

/-- The window that a tier takes: the best near the given lines or, if none is there, the best of the file. -/
inductive TierPlace (file : List Line) (search : Text) (tier : ℚ × MakeScorer) : Option LineRange → Nat → Prop where
  | anywhere {w : Nat} : BestPlace file (lines search).length tier.1 (tier.2 search) none 0 file.length w →
    TierPlace file search tier none w
  | nearby {range : LineRange} {w : Nat} : BestPlace file (lines search).length tier.1 (tier.2 search)
      (some range.start) (range.start - 2) (min (range.stop + 2) file.length) w →
    TierPlace file search tier (some range) w
  | elsewhere {range : LineRange} {w : Nat} : NoPlace file (lines search).length tier.1 (tier.2 search)
      (range.start - 2) (min (range.stop + 2) file.length) →
    BestPlace file (lines search).length tier.1 (tier.2 search) (some range.start) 0 file.length w →
    TierPlace file search tier (some range) w

def NoTierPlace (file : List Line) (search : Text) (tier : ℚ × MakeScorer) : Prop :=
  NoPlace file (lines search).length tier.1 (tier.2 search) 0 file.length

/-- The window of the first tier that has one. -/
inductive PlacedAt (file : List Line) (search : Text) (hint : Option LineRange) :
    List (ℚ × MakeScorer) → Nat → Prop where
  | here {tier : ℚ × MakeScorer} {tiers : List (ℚ × MakeScorer)} {w : Nat} : TierPlace file search tier hint w →
    PlacedAt file search hint (tier :: tiers) w
  | later {tier : ℚ × MakeScorer} {tiers : List (ℚ × MakeScorer)} {w : Nat} : NoTierPlace file search tier →
    PlacedAt file search hint tiers w → PlacedAt file search hint (tier :: tiers) w

variable {file : List Line} {search : Text} {hint : Option LineRange} {tier : ℚ × MakeScorer}
  {tiers : List (ℚ × MakeScorer)}

variable {w : Nat}

theorem TierPlace.inside (h : TierPlace file search tier hint w) :
    w + (lines search).length ≤ file.length ∧ tier.1 ≤ tier.2 search (window file (lines search).length w) := by
  cases h with
  | anywhere h => exact ⟨h.before, h.enough⟩
  | nearby h => exact ⟨Nat.le_trans h.before (Nat.min_le_right _ _), h.enough⟩
  | elsewhere _ h => exact ⟨h.before, h.enough⟩

theorem NoTierPlace.not_place (h : NoTierPlace file search tier) : ¬ TierPlace file search tier hint w := by
  intro hw
  obtain ⟨hinside, henough⟩ := hw.inside
  exact absurd henough (not_le.mpr (h w (Nat.zero_le _) hinside))

variable {v w : Nat}

theorem TierPlace.unique (hv : TierPlace file search tier hint v) (hw : TierPlace file search tier hint w) :
    v = w := by
  cases hv with
  | anywhere hv =>
    cases hw with
    | anywhere hw => exact hv.unique hw
  | nearby hv =>
    cases hw with
    | nearby hw => exact hv.unique hw
    | elsewhere hnone _ => exact absurd hv hnone.not_best
  | elsewhere hnone hv =>
    cases hw with
    | nearby hw => exact absurd hw hnone.not_best
    | elsewhere _ hw => exact hv.unique hw

theorem PlacedAt.unique (hv : PlacedAt file search hint tiers v) (hw : PlacedAt file search hint tiers w) :
    v = w := by
  induction hv with
  | here hv =>
    cases hw with
    | here hw => exact hv.unique hw
    | later hnone _ => exact absurd hv hnone.not_place
  | later hnone _ ih =>
    cases hw with
    | here hw => exact absurd hw hnone.not_place
    | later _ hw => exact ih hw

theorem PlacedAt.inside (h : PlacedAt file search hint tiers w) :
    w + (lines search).length ≤ file.length := by
  induction h with
  | here h => exact h.inside.1
  | later _ _ ih => exact ih

theorem PlacedAt.exists_tier (h : PlacedAt file search hint tiers w) :
    ∃ tier ∈ tiers, ¬ NoTierPlace file search tier := by
  induction h with
  | here h => exact ⟨_, List.mem_cons_self, fun hnone => hnone.not_place h⟩
  | later _ _ ih =>
    obtain ⟨tier, htier, hplace⟩ := ih
    exact ⟨tier, List.mem_cons_of_mem _ htier, hplace⟩

theorem strLines_length_pos {s : Text} (h : s ≠ []) : 0 < (strLines s).length := by
  unfold strLines
  have hsplit : ['\n'].intercalate (s.splitOn '\n') = s := List.intercalate_splitOn '\n'
  generalize s.splitOn '\n' = parts at hsplit
  cases parts using List.reverseRecOn with
  | nil => exact absurd hsplit.symm h
  | append_singleton parts last =>
    rw [textLines_concat]
    split
    next hlast =>
      cases parts with
      | nil => exact absurd (by rw [← hsplit, hlast]; rfl) h
      | cons first rest => exact Nat.succ_pos _
    next => simp

theorem lines_length_pos (s : Text) : 0 < (lines s).length := by
  unfold lines
  split
  next => exact Nat.zero_lt_one
  next h => exact strLines_length_pos h

variable (search tier) in
theorem localMatch_spec {range : LineRange} (hvalid : validRange file.length range) :
    localMatch (tier.2 search) (lines search).length tier.1 file range = .ok none ∧
      NoPlace file (lines search).length tier.1 (tier.2 search) (range.start - 2) (min (range.stop + 2) file.length) ∨
    ∃ w, BestPlace file (lines search).length tier.1 (tier.2 search) (some range.start) (range.start - 2)
        (min (range.stop + 2) file.length) w ∧
      localMatch (tier.2 search) (lines search).length tier.1 file range =
        .ok (some ⟨w + 1, w + (lines search).length + 1⟩) := by
  unfold validRange at hvalid
  rw [decide_eq_true_eq] at hvalid
  have hle : range.start - 2 ≤ min (range.stop + 2) file.length := by omega
  have hslice : sliceLines file (range.start - 2) (min (range.stop + 2) file.length) =
      .ok ((file.drop (range.start - 2)).take (min (range.stop + 2) file.length - (range.start - 2))) :=
    if_pos ⟨hle, Nat.min_le_right _ _⟩
  have hstart : checkedSub range.start (range.start - 2) = .ok (range.start - (range.start - 2)) :=
    if_pos (Nat.sub_le _ _)
  have hstop : checkedSub range.stop (range.start - 2) = .ok (range.stop - (range.start - 2)) := if_pos (by omega)
  have hlocal : localMatch (tier.2 search) (lines search).length tier.1 file range =
      .ok ((scoreMatches ((file.drop (range.start - 2)).take (min (range.stop + 2) file.length - (range.start - 2)))
        (lines search).length tier.1 (some (range.start - (range.start - 2))) (tier.2 search)).head?.map fun m =>
          ⟨m.startLine + (range.start - 2), m.endLine + (range.start - 2)⟩) := by
    unfold localMatch
    simp only [if_pos hle, hslice, hstart, hstop]
    rfl
  rw [hlocal]
  obtain ⟨hhead, hnone⟩ | ⟨w, hw, hhead⟩ := head?_scoreMatches_slice tier.1 (tier.2 search)
    (lines_length_pos search) (Nat.min_le_right _ _) hle (range.start - (range.start - 2))
  · exact .inl ⟨by rw [hhead]; rfl, hnone⟩
  · rw [Nat.sub_add_cancel (Nat.sub_le _ _)] at hw
    refine .inr ⟨w, hw, ?_⟩
    have hafter := hw.after
    have hfrom : w - (range.start - 2) + (range.start - 2) = w := Nat.sub_add_cancel hafter
    rw [hhead, Option.map_some]
    congr 3
    · change w - (range.start - 2) + 1 + (range.start - 2) = w + 1
      omega
    · change w - (range.start - 2) + (lines search).length + 1 + (range.start - 2) = w + (lines search).length + 1
      omega

variable (search tier) in
theorem matchDiff_spec (hvalid : ∀ range ∈ hint, validRange file.length range) :
    matchDiff search hint file tier.1 tier.2 = .ok none ∧ NoTierPlace file search tier ∨
    ∃ w, TierPlace file search tier hint w ∧
      matchDiff search hint file tier.1 tier.2 = .ok (some ⟨w + 1, w + (lines search).length + 1⟩) := by
  cases hint with
  | none =>
    rw [matchDiff_none]
    obtain ⟨hglobal, hnone⟩ | ⟨w, hw, hglobal⟩ := globalMatch_spec file tier.1 (tier.2 search)
      (lines_length_pos search) none
    · exact .inl ⟨congrArg _ hglobal, hnone⟩
    · exact .inr ⟨w, .anywhere hw, congrArg _ hglobal⟩
  | some range =>
    obtain ⟨hlocal, hnone⟩ | ⟨w, hw, hlocal⟩ := localMatch_spec search tier (hvalid range rfl)
    · have hmatch : matchDiff search (some range) file tier.1 tier.2 =
          .ok (globalMatch (tier.2 search) (lines search).length tier.1 file (some range)) := by
        unfold matchDiff
        simp only [hlocal]
        rfl
      rw [hmatch]
      obtain ⟨hglobal, hnowhere⟩ | ⟨w, hw, hglobal⟩ := globalMatch_spec file tier.1 (tier.2 search)
        (lines_length_pos search) (some range)
      · exact .inl ⟨congrArg _ hglobal, hnowhere⟩
      · exact .inr ⟨w, .elsewhere hnone hw, congrArg _ hglobal⟩
    · refine .inr ⟨w, .nearby hw, ?_⟩
      unfold matchDiff
      simp only [hlocal]
      rfl

variable (search) in
theorem matchTiers_spec (hvalid : ∀ range ∈ hint, validRange file.length range) (tiers : List (ℚ × MakeScorer)) :
    matchTiers search hint file tiers = .ok none ∧ (∀ tier ∈ tiers, NoTierPlace file search tier) ∨
    ∃ w, PlacedAt file search hint tiers w ∧
      matchTiers search hint file tiers = .ok (some ⟨w + 1, w + (lines search).length + 1⟩) := by
  induction tiers with
  | nil => exact .inl ⟨rfl, fun tier htier => absurd htier List.not_mem_nil⟩
  | cons tier tiers ih =>
    rw [matchTiers]
    obtain ⟨hmatch, hnone⟩ | ⟨w, hw, hmatch⟩ := matchDiff_spec search tier hvalid
    · rw [hmatch]
      obtain ⟨hrest, hnowhere⟩ | ⟨w, hw, hrest⟩ := ih
      · exact .inl ⟨hrest, List.forall_mem_cons.mpr ⟨hnone, hnowhere⟩⟩
      · exact .inr ⟨w, .later hnone hw, hrest⟩
    · rw [hmatch]
      exact .inr ⟨w, .here hw, rfl⟩

end Tiers

end InfiniShell.DiffValidation
