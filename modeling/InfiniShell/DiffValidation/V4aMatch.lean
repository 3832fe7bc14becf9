import InfiniShell.DiffValidation.Matching

namespace InfiniShell.DiffValidation

open Ssh (isWhitespace)

structure V4AHunk where
  changeContext : List Text
  preContext : Text
  old : Text
  new : Text
  postContext : Text

def trim (s : Text) : Text := ((trimStart s).reverse.dropWhile isWhitespace).reverse

/-- The line behind the last marker, `none` where a marker is missing. -/
def findChangeContextStart (file : List Line) : List Text → Nat → Except Fault (Option Nat)
  | [], currentPos => .ok (some currentPos)
  | marker :: markers, currentPos =>
    if marker = [] then findChangeContextStart file markers currentPos
    else do
      let rest ← sliceLines file currentPos file.length
      match rest.findIdx? fun line => (trim marker).isPrefixOf (trimStart line) with
      | none => .ok none
      | some relativeMatch => findChangeContextStart file markers (currentPos + relativeMatch + 1)

def calculateOldRange (searchStart : Nat) (matched : LineRange) (preLines oldLines : List Line) :
    Except Fault (Option LineRange) := do
  let oldStart := (← checkedSub (searchStart + matched.start) 1) + preLines.length
  let oldEnd := oldStart + oldLines.length
  .ok (some ⟨oldStart + 1, oldEnd + 1⟩)

def contextStart (edit : V4AHunk) (file : List Line) : Except Fault (Option Nat) :=
  if edit.changeContext = [] then .ok (some 0) else findChangeContextStart file edit.changeContext 0

variable (similarity : Text → Text → ℚ)

def v4aTiers : List (ℚ × MakeScorer) :=
  [(1, makeExactMatch), (1, makeIndentationAgnosticMatch), (sectionMatchThreshold, makeJaroWinklerMatch similarity)]

def findV4aMatch (edit : V4AHunk) (file : List Line) : Except Fault (Option LineRange) := do
  let preLines := strLines edit.preContext
  let oldLines := strLines edit.old
  let postLines := strLines edit.postContext
  match ← contextStart edit file with
  | none => .ok none
  | some searchStart =>
    let searchLines ← sliceLines file searchStart file.length
    let patternLength := preLines.length + oldLines.length + postLines.length
    if patternLength = 0 then .ok (some ⟨searchStart + 1, searchStart + 1⟩)
    else if searchLines.length < patternLength then .ok none
    else
      let combinedSearch := joinLines (preLines ++ oldLines ++ postLines)
      match ← matchTiers combinedSearch none searchLines (v4aTiers similarity) with
      | none => .ok none
      | some range => calculateOldRange searchStart range preLines oldLines

def keepApart (result : List DiffDelta) (delta : DiffDelta) : List DiffDelta :=
  if result.getLast?.any fun prev => delta.replacementLineRange.start < prev.replacementLineRange.stop then result
  else result ++ [delta]

def deduplicateOverlappingDeltas (sortedDeltas : List DiffDelta) : List DiffDelta := sortedDeltas.foldl keepApart []

def matchHunk (overflowChecks : Bool) (file : List Line) (acc : List DiffDelta × DiffMatchFailures) (diff : V4AHunk) :
    Except Fault (List DiffDelta × DiffMatchFailures) := do
  let (deltas, failures) := acc
  if diff.old = diff.new then .ok (deltas, { failures with noopDeltas := ← bump overflowChecks failures.noopDeltas })
  else
    match ← findV4aMatch similarity diff file with
    | some range =>
      let matchedLines ← sliceLines file (← checkedSub range.start 1) (← checkedSub range.stop 1)
      if diff.new = joinLines matchedLines then
        .ok (deltas, { failures with noopDeltas := ← bump overflowChecks failures.noopDeltas })
      else .ok (deltas ++ [⟨range, diff.new⟩], failures)
    | none =>
      .ok (deltas, { failures with fuzzyMatchFailures := ← bump overflowChecks failures.fuzzyMatchFailures })

def fuzzyMatchV4aDiffs (overflowChecks : Bool) (fileName : Text) (diffs : List V4AHunk) (renameTo : Option Text)
    (fileContent : Text) : Except Fault AIRequestedCodeDiff := do
  let (deltas, failures) ← diffs.foldlM (matchHunk similarity overflowChecks (strLines fileContent)) ([], {})
  let sorted := deltas.insertionSort fun a b => a.replacementLineRange.start ≤ b.replacementLineRange.start
  let deltas := deduplicateOverlappingDeltas sorted
  .ok { fileName, deltas, rename := renameTo, failures := failures.surface deltas, originalContent := fileContent }

section Occurrences

/-- The lines stand in the file from line `i` on. -/
def OccursAt (p ls : List Line) (i : Nat) : Prop := i + p.length ≤ ls.length ∧ window ls p.length i = p

def FirstOccurrence (p ls : List Line) (i : Nat) : Prop := OccursAt p ls i ∧ ∀ j < i, ¬ OccursAt p ls j

variable {p ls : List Line}

theorem FirstOccurrence.unique {i j : Nat} (hi : FirstOccurrence p ls i)
    (hj : FirstOccurrence p ls j) : i = j := by
  obtain hlt | heq | hgt := Nat.lt_trichotomy i j
  · exact absurd hi.1 (hj.2 i hlt)
  · exact heq
  · exact absurd hj.1 (hi.2 j hgt)

theorem exists_firstOccurrence {i : Nat} (h : OccursAt p ls i) : ∃ w, FirstOccurrence p ls w := by
  induction i using Nat.strong_induction_on with
  | _ i ih =>
    by_cases hearlier : ∃ j < i, OccursAt p ls j
    · obtain ⟨j, hj, hoccurs⟩ := hearlier
      exact ih j hj hoccurs
    · exact ⟨i, h, fun j hj hoccurs => hearlier ⟨j, hj, hoccurs⟩⟩

theorem window_map (ls : List Line) (length i : Nat) :
    window (ls.map trimStart) length i = (window ls length i).map trimStart := by
  rw [window, window, ← List.map_drop, ← List.map_take]

theorem window_length {length i : Nat} (h : i + length ≤ ls.length) :
    (window ls length i).length = length := by
  rw [window, List.length_take, List.length_drop]
  omega

/-- The first place where the lines stand exactly or, if they stand nowhere, up to their indentation. -/
def ReadAt (p ls : List Line) (w : Nat) : Prop :=
  FirstOccurrence p ls w ∨
    (∀ i, ¬ OccursAt p ls i) ∧ FirstOccurrence (p.map trimStart) (ls.map trimStart) w

theorem ReadAt.unique {v w : Nat} (hv : ReadAt p ls v) (hw : ReadAt p ls w) : v = w := by
  obtain hv | ⟨hnone, hv⟩ := hv
  · obtain hw | ⟨hnone, hw⟩ := hw
    · exact hv.unique hw
    · exact absurd hv.1 (hnone v)
  · obtain hw | ⟨-, hw⟩ := hw
    · exact absurd hw.1 (hnone w)
    · exact hv.unique hw

theorem ReadAt.inside {w : Nat} (h : ReadAt p ls w) : w + p.length ≤ ls.length := by
  obtain h | ⟨-, h⟩ := h
  · exact h.1.1
  · have hle := h.1.1
    rw [List.length_map, List.length_map] at hle
    exact hle

end Occurrences

section Tiers

variable {scorer : Scorer}

theorem bestWindow_iff (test : List Line → Prop) [DecidablePred test] {ls : List Line} {length w : Nat} (hscorer : ∀ i, i + length ≤ ls.length →
      scorer (window ls length i) = if test (window ls length i) then 1 else 0) :
    BestWindow ls length 1 scorer w ↔
      w + length ≤ ls.length ∧ test (window ls length w) ∧ ∀ j < w, ¬ test (window ls length j) := by
  constructor
  · intro h
    have htest : test (window ls length w) := by
      apply Classical.byContradiction
      intro hnot
      have henough := h.enough
      rw [hscorer w h.inside, if_neg hnot] at henough
      exact absurd henough (by decide)
    refine ⟨h.inside, htest, ?_⟩
    intro j hj hpass
    have hfirst := h.first j hj
    have hinside := h.inside
    rw [hscorer w h.inside, hscorer j (by omega), if_pos htest, if_pos hpass] at hfirst
    exact lt_irrefl _ hfirst
  · rintro ⟨hinside, htest, hfirst⟩
    constructor
    · exact hinside
    · rw [hscorer w hinside, if_pos htest]
    · intro j hj
      rw [hscorer w hinside, hscorer j (by omega), if_pos htest, if_neg (hfirst j hj)]
      decide
    · intro j hj
      rw [hscorer w hinside, hscorer j hj, if_pos htest]
      split
      · exact le_refl _
      · decide

theorem zip_all_eq {a b : List Line} (h : a.length = b.length) :
    ((a.zip b).all fun pair => decide (pair.1 = pair.2)) = true ↔ a = b := by
  induction a generalizing b with
  | nil =>
    cases b with
    | nil => simp
    | cons y b => cases h
  | cons x a ih =>
    cases b with
    | nil => cases h
    | cons y b =>
      rw [List.zip_cons_cons, List.all_cons, Bool.and_eq_true, ih (Nat.succ.inj h)]
      simp

variable {search : Text} {ls : List Line} {w : Nat}

theorem exactMatch_iff :
    BestWindow ls (lines search).length 1 (makeExactMatch search) w ↔ FirstOccurrence (lines search) ls w := by
  rw [bestWindow_iff (fun win => win = lines search) (fun i _ => rfl)]
  unfold FirstOccurrence OccursAt
  constructor
  · rintro ⟨hinside, htest, hfirst⟩
    exact ⟨⟨hinside, htest⟩, fun j hj hoccurs => hfirst j hj hoccurs.2⟩
  · rintro ⟨⟨hinside, htest⟩, hfirst⟩
    exact ⟨hinside, htest, fun j hj hpass => hfirst j hj ⟨by omega, hpass⟩⟩

theorem indentationMatch_iff :
    BestWindow ls (lines search).length 1 (makeIndentationAgnosticMatch search) w ↔
      FirstOccurrence ((lines search).map trimStart) (ls.map trimStart) w := by
  rw [bestWindow_iff fun win => win.map trimStart = (lines search).map trimStart]
  · unfold FirstOccurrence OccursAt
    simp only [List.length_map, window_map]
    constructor
    · rintro ⟨hinside, htest, hfirst⟩
      exact ⟨⟨hinside, htest⟩, fun j hj hoccurs => hfirst j hj hoccurs.2⟩
    · rintro ⟨⟨hinside, htest⟩, hfirst⟩
      exact ⟨hinside, htest, fun j hj hpass => hfirst j hj ⟨by omega, hpass⟩⟩
  · intro i hi
    unfold makeIndentationAgnosticMatch
    have hlen : ((window ls (lines search).length i).map trimStart).length = ((lines search).map trimStart).length := by
      rw [List.length_map, List.length_map, window_length hi]
    rw [if_congr (zip_all_eq hlen) rfl rfl]

theorem globalMatch_eq_none_of {length : Nat} (hpos : 0 < length) {threshold : ℚ}
    (h : ∀ w, ¬ BestWindow ls length threshold scorer w) : globalMatch scorer length threshold ls none = none := by
  cases hmatch : globalMatch scorer length threshold ls none with
  | none => rfl
  | some range =>
    obtain ⟨w, hw, -⟩ := (globalMatch_none_eq_some hpos).mp hmatch
    exact absurd hw (h w)

theorem matchTiers_v4a (search : Text) (ls : List Line) (hpos : 0 < (lines search).length) :
    (∀ w, ReadAt (lines search) ls w → matchTiers search none ls (v4aTiers similarity) =
      .ok (some ⟨w + 1, w + (lines search).length + 1⟩)) ∧
    ((∀ w, ¬ ReadAt (lines search) ls w) → matchTiers search none ls (v4aTiers similarity) =
      .ok (globalMatch (makeJaroWinklerMatch similarity search) (lines search).length sectionMatchThreshold ls none)) := by
  have hunfold : matchTiers search none ls (v4aTiers similarity) =
      match globalMatch (makeExactMatch search) (lines search).length 1 ls none with
      | some range => .ok (some range)
      | none =>
        match globalMatch (makeIndentationAgnosticMatch search) (lines search).length 1 ls none with
        | some range => .ok (some range)
        | none => .ok (globalMatch (makeJaroWinklerMatch similarity search) (lines search).length
            sectionMatchThreshold ls none) := by
    unfold v4aTiers matchTiers
    rw [matchDiff_none]
    cases globalMatch (makeExactMatch search) (lines search).length 1 ls none with
    | some range => rfl
    | none =>
      change matchTiers search none ls [_, _] = _
      unfold matchTiers
      rw [matchDiff_none]
      cases globalMatch (makeIndentationAgnosticMatch search) (lines search).length 1 ls none with
      | some range => rfl
      | none =>
        change matchTiers search none ls [_] = _
        unfold matchTiers
        rw [matchDiff_none]
        cases globalMatch (makeJaroWinklerMatch similarity search) (lines search).length sectionMatchThreshold ls none <;>
          rfl
  have hexactNone : (∀ i, ¬ OccursAt (lines search) ls i) →
      globalMatch (makeExactMatch search) (lines search).length 1 ls none = none := by
    intro hnone
    apply globalMatch_eq_none_of hpos
    intro w hw
    exact hnone w (exactMatch_iff.mp hw).1
  rw [hunfold]
  constructor
  · intro w hread
    obtain hexact | ⟨hnone, hloose⟩ := hread
    · rw [(globalMatch_none_eq_some hpos).mpr ⟨w, exactMatch_iff.mpr hexact, rfl⟩]
    · rw [hexactNone hnone, (globalMatch_none_eq_some hpos).mpr ⟨w, indentationMatch_iff.mpr hloose, rfl⟩]
  · intro hnever
    have hnone : ∀ i, ¬ OccursAt (lines search) ls i := by
      intro i hi
      obtain ⟨w, hw⟩ := exists_firstOccurrence hi
      exact hnever w (.inl hw)
    rw [hexactNone hnone, globalMatch_eq_none_of hpos]
    intro w hw
    exact hnever w (.inr ⟨hnone, indentationMatch_iff.mp hw⟩)

end Tiers

end InfiniShell.DiffValidation
