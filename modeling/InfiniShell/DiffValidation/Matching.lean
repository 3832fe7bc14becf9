import InfiniShell.Ssh.ConfigParser
import Mathlib.Data.List.Induction
import Mathlib.Data.List.Infix
import Mathlib.Data.List.Sort
import Mathlib.Data.Rat.Defs
import Mathlib.Algebra.Order.Ring.Unbundled.Rat

namespace InfiniShell.DiffValidation

open Ssh (isWhitespace)

abbrev Text := List Char

abbrev Line := List Char

def stripCarriageReturn (line : Line) : Line := if line.getLast? = some '\r' then line.dropLast else line

def textLines (parts : List Line) : List Line :=
  if parts.getLast? = some [] then parts.dropLast.map stripCarriageReturn
  else parts.dropLast.map stripCarriageReturn ++ parts.getLast?.toList

/-- `str::lines`. -/
def strLines (s : Text) : List Line := textLines (s.splitOn '\n')

def lines (s : Text) : List Line := if s = [] then [[]] else strLines s

/-- `join` with a line feed. -/
def joinLines (ls : List Line) : Text := ['\n'].intercalate ls

def trimStart (line : Line) : Line := line.dropWhile isWhitespace

structure LineRange where
  start : Nat
  stop : Nat
deriving DecidableEq

/-- What ends a call: an index outside the file, or an arithmetic overflow. -/
inductive Fault where
  | outOfRange
  | overflow
deriving DecidableEq

/-- `&lines[start..stop]`. -/
def sliceLines (ls : List Line) (start stop : Nat) : Except Fault (List Line) :=
  if start ≤ stop ∧ stop ≤ ls.length then .ok ((ls.drop start).take (stop - start)) else .error .outOfRange

structure Match where
  startLine : Nat
  endLine : Nat
  similarity : ℚ

abbrev Scorer := List Line → ℚ

abbrev MakeScorer := Text → Scorer

def makeExactMatch : MakeScorer := fun search window => if window = lines search then 1 else 0

def makeIndentationAgnosticMatch : MakeScorer := fun search window =>
  if ((window.map trimStart).zip ((lines search).map trimStart)).all fun pair => pair.1 = pair.2 then 1 else 0

def isStrictTrimmedPrefix (search fileLine : Line) : Bool :=
  let trimmedSearch := trimStart search
  let trimmedFile := trimStart fileLine
  !trimmedSearch.isEmpty && decide (trimmedSearch.length < trimmedFile.length) && trimmedSearch.isPrefixOf trimmedFile

def makePrefixTailMatch : MakeScorer := fun search window =>
  let searchLines := (lines search).map trimStart
  if window.length ≠ searchLines.length then 0
  else if (searchLines.dropLast.zip window.dropLast).all fun pair => pair.1 = trimStart pair.2 then
    match searchLines.getLast?, window.getLast? with
    | some last, some target => if isStrictTrimmedPrefix last target then 1 else 0
    | _, _ => 0
  else 0

def makeJaroWinklerMatch (similarity : Text → Text → ℚ) : MakeScorer := fun search window =>
  similarity (joinLines ((lines search).map trimStart)) (joinLines (window.map trimStart))

def sectionMatchThreshold : ℚ := 9 / 10

def window (ls : List Line) (length i : Nat) : List Line := (ls.drop i).take length

/-- `windows`, each with its index. -/
def windows (ls : List Line) (length : Nat) : List (Nat × List Line) :=
  (List.range (ls.length + 1 - length)).map fun i => (i, window ls length i)

def absDiff (a b : Nat) : Nat := if a < b then b - a else a - b

/-- The order of matches: by similarity, then by the distance to the expected line. -/
def atLeastAsGood (expected : Option Nat) (a b : Match) : Prop :=
  b.similarity < a.similarity ∨
    a.similarity = b.similarity ∧ ∀ start ∈ expected, absDiff a.startLine start ≤ absDiff b.startLine start

instance (expected : Option Nat) : DecidableRel (atLeastAsGood expected) := fun _ _ =>
  inferInstanceAs (Decidable (_ ∨ _ ∧ ∀ start ∈ expected, _))

def matchesOf (ls : List Line) (length : Nat) (threshold : ℚ) (scorer : Scorer) : List Match :=
  (windows ls length).filterMap fun w =>
    if threshold ≤ scorer w.2 then some ⟨w.1 + 1, w.1 + length + 1, scorer w.2⟩ else none

def scoreMatches (ls : List Line) (length : Nat) (threshold : ℚ) (expected : Option Nat) (scorer : Scorer) :
    List Match :=
  if length = 0 ∨ ls.length < length then []
  else (matchesOf ls length threshold scorer).insertionSort (atLeastAsGood expected)

def checkedSub (a b : Nat) : Except Fault Nat := if b ≤ a then .ok (a - b) else .error .overflow

def localMatch (scorer : Scorer) (length : Nat) (threshold : ℚ) (file : List Line) (range : LineRange) :
    Except Fault (Option LineRange) :=
  let searchStart := range.start - 2
  let searchEnd := min (range.stop + 2) file.length
  if searchStart ≤ searchEnd then do
    let localLines ← sliceLines file searchStart searchEnd
    let expected ← checkedSub range.start searchStart
    let _ ← checkedSub range.stop searchStart
    .ok ((scoreMatches localLines length threshold (some expected) scorer).head?.map fun m =>
      ⟨m.startLine + searchStart, m.endLine + searchStart⟩)
  else .ok none

def globalMatch (scorer : Scorer) (length : Nat) (threshold : ℚ) (file : List Line) (lineRange : Option LineRange) :
    Option LineRange :=
  (scoreMatches file length threshold (lineRange.map LineRange.start) scorer).head?.map fun m => ⟨m.startLine, m.endLine⟩

def matchDiff (search : Text) (lineRange : Option LineRange) (file : List Line) (threshold : ℚ)
    (factory : MakeScorer) : Except Fault (Option LineRange) := do
  let searchLength := (lines search).length
  let scorer := factory search
  match lineRange with
  | none => .ok (globalMatch scorer searchLength threshold file none)
  | some range =>
    match ← localMatch scorer searchLength threshold file range with
    | some found => .ok (some found)
    | none => .ok (globalMatch scorer searchLength threshold file (some range))

/-- The tiers of a search, each with its threshold and tried where the ones before it find nothing. -/
def matchTiers (search : Text) (lineRange : Option LineRange) (file : List Line) :
    List (ℚ × MakeScorer) → Except Fault (Option LineRange)
  | [] => .ok none
  | tier :: tiers => do
    match ← matchDiff search lineRange file tier.1 tier.2 with
    | some range => .ok (some range)
    | none => matchTiers search lineRange file tiers

/-- The result of an edit request; the fields are those of the source. -/
structure DiffDelta where
  replacementLineRange : LineRange
  insertion : Text
deriving DecidableEq

structure DiffMatchFailures where
  fuzzyMatchFailures : Nat := 0
  noopDeltas : Nat := 0
  missingLineNumbers : Nat := 0

structure AIRequestedCodeDiff where
  fileName : Text
  deltas : List DiffDelta
  rename : Option Text
  failures : Option DiffMatchFailures
  originalContent : Text

def DiffMatchFailures.surface (failures : DiffMatchFailures) (deltas : List DiffDelta) : Option DiffMatchFailures :=
  if 0 < failures.fuzzyMatchFailures ∨ 0 < failures.missingLineNumbers ∨ (0 < failures.noopDeltas ∧ deltas = []) then
    some failures
  else none

def bump (overflowChecks : Bool) (n : Nat) : Except Fault Nat :=
  if n + 1 < 256 then .ok (n + 1) else if overflowChecks then .error .overflow else .ok 0

section Lines

theorem textLines_concat (parts : List Line) (last : Line) : textLines (parts ++ [last]) =
    if last = [] then parts.map stripCarriageReturn else parts.map stripCarriageReturn ++ [last] := by
  unfold textLines
  rw [List.getLast?_concat, List.dropLast_concat]
  split
  next h => rw [if_pos (Option.some.inj h)]
  next h => rw [if_neg (fun hnil => h (congrArg some hnil))]; rfl

variable {s : Text}

theorem newline_not_mem_splitOn : ∀ line ∈ s.splitOn '\n', '\n' ∉ line := by
  induction s with
  | nil =>
    intro line hline
    rw [List.splitOn_nil, List.mem_singleton] at hline
    rw [hline]
    exact List.not_mem_nil
  | cons c s ih =>
    rw [List.splitOn_cons_eq_if_modifyHead]
    split
    next =>
      intro line hline
      obtain rfl | hline := List.mem_cons.mp hline
      · exact List.not_mem_nil
      · exact ih line hline
    next hne =>
      cases hsplit : s.splitOn '\n' with
      | nil => exact absurd hsplit (List.splitOn_ne_nil _ _)
      | cons first rest =>
        rw [hsplit] at ih
        rw [List.modifyHead_cons]
        intro line hline
        obtain rfl | hline := List.mem_cons.mp hline
        · intro hmem
          obtain rfl | hmem := List.mem_cons.mp hmem
          · exact hne (beq_self_eq_true _)
          · exact ih first List.mem_cons_self hmem
        · exact ih line (List.mem_cons_of_mem first hline)

theorem newline_not_mem_strip {line : Line} (h : '\n' ∉ line) : '\n' ∉ stripCarriageReturn line := by
  unfold stripCarriageReturn
  split
  · exact fun hmem => h (List.mem_of_mem_dropLast hmem)
  · exact h

theorem newline_not_mem_strLines : ∀ line ∈ strLines s, '\n' ∉ line := by
  have hparts := newline_not_mem_splitOn (s := s)
  unfold strLines
  generalize s.splitOn '\n' = parts at hparts
  cases parts using List.reverseRecOn with
  | nil =>
    intro line hline
    cases hline
  | append_singleton parts last =>
    have hstripped : ∀ line ∈ parts.map stripCarriageReturn, '\n' ∉ line := by
      intro line hline
      obtain ⟨part, hpart, rfl⟩ := List.mem_map.mp hline
      exact newline_not_mem_strip (hparts part (List.mem_append_left _ hpart))
    rw [textLines_concat]
    intro line hline
    split at hline
    · exact hstripped line hline
    · obtain hline | hline := List.mem_append.mp hline
      · exact hstripped line hline
      · rw [List.mem_singleton.mp hline]
        exact hparts last (List.mem_append_right _ List.mem_cons_self)

/-- What is left of lines that are joined and split again. -/
def resplit (ls : List Line) : List Line := lines (joinLines ls)

variable {ls : List Line}

theorem joinLines_eq_nil (hne : ls ≠ []) : joinLines ls = [] ↔ ls = [[]] := by
  cases ls with
  | nil => exact absurd rfl hne
  | cons first rest =>
    cases rest with
    | nil => simp [joinLines]
    | cons second rest => simp [joinLines, List.intercalate_cons_cons]

theorem resplit_concat {last : Line} (h : ∀ line ∈ ls ++ [last], '\n' ∉ line) : resplit (ls ++ [last]) =
      if ls = [] then [last] else if last = [] then ls.map stripCarriageReturn
        else ls.map stripCarriageReturn ++ [last] := by
  have hne : ls ++ [last] ≠ [] := by simp
  have hsplit : (joinLines (ls ++ [last])).splitOn '\n' = ls ++ [last] := List.splitOn_intercalate '\n' h hne
  unfold resplit lines
  by_cases hempty : ls = []
  · rw [if_pos hempty]
    cases hempty
    by_cases hlast : last = []
    · rw [if_pos ((joinLines_eq_nil hne).mpr (by rw [hlast]; rfl)), hlast]
    · have hjoin : joinLines ([] ++ [last]) ≠ [] := fun h => hlast (by simpa using (joinLines_eq_nil hne).mp h)
      rw [if_neg hjoin, strLines, hsplit, textLines_concat, if_neg hlast]
      rfl
  · have hjoin : joinLines (ls ++ [last]) ≠ [] := by
      intro h
      have hsingle := congrArg List.length ((joinLines_eq_nil hne).mp h)
      rw [List.length_append] at hsingle
      exact hempty (List.eq_nil_of_length_eq_zero (by simpa using hsingle))
    rw [if_neg hempty, if_neg hjoin, strLines, hsplit, textLines_concat]

theorem resplit_length (h : ∀ line ∈ ls, '\n' ∉ line) (hne : ls ≠ []) :
    0 < (resplit ls).length ∧ (resplit ls).length ≤ ls.length ∧ ls.length ≤ (resplit ls).length + 1 := by
  cases ls using List.reverseRecOn with
  | nil => exact absurd rfl hne
  | append_singleton ls last =>
    rw [resplit_concat h]
    by_cases hempty : ls = []
    · rw [if_pos hempty, hempty]
      simp
    · have hpos := List.length_pos_iff.mpr hempty
      rw [if_neg hempty]
      split
      · simp only [List.length_map, List.length_append, List.length_singleton]
        omega
      · simp

theorem joinLines_injective {a b : List Line} (ha : ∀ line ∈ a, '\n' ∉ line) (hb : ∀ line ∈ b, '\n' ∉ line)
    (hane : a ≠ []) (hbne : b ≠ []) (h : joinLines a = joinLines b) : a = b := by
  rw [← List.splitOn_intercalate '\n' ha hane, ← List.splitOn_intercalate '\n' hb hbne]
  exact congrArg (List.splitOn '\n') h

end Lines

section Best

variable {α : Type}

theorem head?_insertionSort_cons (r : α → α → Prop) [DecidableRel r] (a : α) (l : List α) :
    ((a :: l).insertionSort r).head? =
      match (l.insertionSort r).head? with
      | none => some a
      | some b => if r a b then some a else some b := by
  rw [List.insertionSort_cons]
  cases l.insertionSort r with
  | nil => rfl
  | cons b rest =>
    rw [List.orderedInsert]
    simp only [List.head?_cons]
    split <;> rfl

theorem head?_insertionSort_eq_none (r : α → α → Prop) [DecidableRel r] {l : List α} :
    (l.insertionSort r).head? = none ↔ l = [] := by
  rw [List.head?_eq_none_iff, ← List.length_eq_zero_iff, List.length_insertionSort, List.length_eq_zero_iff]

theorem atLeastAsGood_none {a b : Match} : atLeastAsGood none a b ↔ b.similarity ≤ a.similarity := by
  unfold atLeastAsGood
  rw [le_iff_lt_or_eq, eq_comm]
  simp

variable {l : List Nat}

theorem head?_insertionSort_filterMap {r : α → α → Prop} [DecidableRel r] (htotal : ∀ a b, r a b ∨ r b a)
    (htrans : ∀ a b c, r a b → r b c → r a c) {f : Nat → Option α} (hl : l.Pairwise (· < ·)) {m : α}
    (h : ((l.filterMap f).insertionSort r).head? = some m) :
    ∃ w ∈ l, f w = some m ∧ ∀ j ∈ l, ∀ x, f j = some x → (j < w → ¬ r x m) ∧ r m x := by
  induction l generalizing m with
  | nil => cases h
  | cons i l ih =>
    obtain ⟨hi, hrest⟩ := List.pairwise_cons.mp hl
    cases hf : f i with
    | none =>
      rw [List.filterMap_cons_none hf] at h
      obtain ⟨w, hw, hm, hbest⟩ := ih hrest h
      refine ⟨w, List.mem_cons_of_mem i hw, hm, ?_⟩
      intro j hj x hx
      obtain rfl | hj := List.mem_cons.mp hj
      · rw [hf] at hx
        cases hx
      · exact hbest j hj x hx
    | some a =>
      have hrefl : r a a := (htotal a a).elim id id
      rw [List.filterMap_cons_some hf, head?_insertionSort_cons] at h
      cases hhead : ((l.filterMap f).insertionSort r).head? with
      | none =>
        rw [hhead] at h
        obtain rfl := Option.some.inj h
        refine ⟨i, List.mem_cons_self, hf, ?_⟩
        intro j hj x hx
        obtain rfl | hj := List.mem_cons.mp hj
        · rw [hf] at hx
          obtain rfl := Option.some.inj hx
          exact ⟨fun hlt => absurd hlt (Nat.lt_irrefl _), hrefl⟩
        · have hempty := (head?_insertionSort_eq_none _).mp hhead
          have hmem := List.mem_filterMap.mpr ⟨j, hj, hx⟩
          rw [hempty] at hmem
          cases hmem
      | some b =>
        obtain ⟨w, hw, hb, hbest⟩ := ih hrest hhead
        rw [hhead] at h
        simp only at h
        split at h
        next hgood =>
          obtain rfl := Option.some.inj h
          refine ⟨i, List.mem_cons_self, hf, ?_⟩
          intro j hj x hx
          obtain rfl | hj := List.mem_cons.mp hj
          · rw [hf] at hx
            obtain rfl := Option.some.inj hx
            exact ⟨fun hlt => absurd hlt (Nat.lt_irrefl _), hrefl⟩
          · exact ⟨fun hlt => absurd (hi j hj) (Nat.lt_asymm hlt), htrans _ _ _ hgood (hbest j hj x hx).2⟩
        next hworse =>
          obtain rfl := Option.some.inj h
          refine ⟨w, List.mem_cons_of_mem i hw, hb, ?_⟩
          intro j hj x hx
          obtain rfl | hj := List.mem_cons.mp hj
          · rw [hf] at hx
            obtain rfl := Option.some.inj hx
            exact ⟨fun _ => hworse, (htotal _ _).resolve_left hworse⟩
          · exact hbest j hj x hx

theorem atLeastAsGood_total (expected : Option Nat) (a b : Match) :
    atLeastAsGood expected a b ∨ atLeastAsGood expected b a := by
  unfold atLeastAsGood
  obtain hlt | heq | hgt := lt_trichotomy a.similarity b.similarity
  · exact .inr (.inl hlt)
  · cases expected with
    | none => exact .inl (.inr ⟨heq, nofun⟩)
    | some start =>
      obtain hle | hle := Nat.le_total (absDiff a.startLine start) (absDiff b.startLine start)
      · exact .inl (.inr ⟨heq, by simpa using hle⟩)
      · exact .inr (.inr ⟨heq.symm, by simpa using hle⟩)
  · exact .inl (.inl hgt)

theorem atLeastAsGood_trans (expected : Option Nat) (a b c : Match) (hab : atLeastAsGood expected a b)
    (hbc : atLeastAsGood expected b c) : atLeastAsGood expected a c := by
  obtain hlt | ⟨heq, hnear⟩ := hab
  · obtain hlt' | ⟨heq', -⟩ := hbc
    · exact .inl (lt_trans hlt' hlt)
    · exact .inl (heq' ▸ hlt)
  · obtain hlt' | ⟨heq', hnear'⟩ := hbc
    · exact .inl (heq ▸ hlt')
    · exact .inr ⟨heq.trans heq', fun start hstart => Nat.le_trans (hnear start hstart) (hnear' start hstart)⟩

theorem head?_sorted {f : Nat → Option Match} (hl : l.Pairwise (· < ·)) {m : Match}
    (h : ((l.filterMap f).insertionSort (atLeastAsGood none)).head? = some m) :
    ∃ w ∈ l, f w = some m ∧ ∀ j ∈ l, ∀ x, f j = some x →
      (j < w → x.similarity < m.similarity) ∧ x.similarity ≤ m.similarity := by
  obtain ⟨w, hw, hf, hbest⟩ := head?_insertionSort_filterMap (atLeastAsGood_total none) (atLeastAsGood_trans none) hl h
  refine ⟨w, hw, hf, ?_⟩
  intro j hj x hx
  obtain ⟨hfirst, hle⟩ := hbest j hj x hx
  refine ⟨?_, atLeastAsGood_none.mp hle⟩
  intro hlt
  have hworse := hfirst hlt
  rw [atLeastAsGood_none, not_le] at hworse
  exact hworse

structure BestWindow (ls : List Line) (length : Nat) (threshold : ℚ) (scorer : Scorer) (w : Nat) : Prop where
  inside : w + length ≤ ls.length
  enough : threshold ≤ scorer (window ls length w)
  first : ∀ j < w, scorer (window ls length j) < scorer (window ls length w)
  best : ∀ j, j + length ≤ ls.length → scorer (window ls length j) ≤ scorer (window ls length w)

variable {ls : List Line} {length : Nat}

theorem scoreMatches_eq (hpos : 0 < length) (threshold : ℚ) (expected : Option Nat)
    (scorer : Scorer) : scoreMatches ls length threshold expected scorer =
      ((List.range (ls.length + 1 - length)).filterMap fun w =>
        if threshold ≤ scorer (window ls length w) then
          some (⟨w + 1, w + length + 1, scorer (window ls length w)⟩ : Match) else none).insertionSort
            (atLeastAsGood expected) := by
  unfold scoreMatches
  by_cases hshort : ls.length < length
  · rw [if_pos (.inr hshort), show ls.length + 1 - length = 0 by omega]
    rfl
  · rw [if_neg (not_or.mpr ⟨Nat.ne_of_gt hpos, hshort⟩), matchesOf, windows, List.filterMap_map]
    rfl

variable {threshold : ℚ} {scorer : Scorer}

theorem globalMatch_none_eq_some (hpos : 0 < length)
    {range : LineRange} : globalMatch scorer length threshold ls none = some range ↔
      ∃ w, BestWindow ls length threshold scorer w ∧ range = ⟨w + 1, w + length + 1⟩ := by
  have hfound : ∀ {range : LineRange}, globalMatch scorer length threshold ls none = some range →
      ∃ w, BestWindow ls length threshold scorer w ∧ range = ⟨w + 1, w + length + 1⟩ := by
    intro range h
    unfold globalMatch at h
    obtain ⟨m, hm, rfl⟩ := Option.map_eq_some_iff.mp h
    rw [scoreMatches_eq hpos] at hm
    obtain ⟨w, hw, hf, hbest⟩ := head?_sorted List.pairwise_lt_range hm
    rw [List.mem_range] at hw
    split at hf
    next henough =>
      obtain rfl := Option.some.inj hf
      refine ⟨w, ⟨by omega, henough, ?_, ?_⟩, rfl⟩
      · intro j hj
        by_cases hj' : threshold ≤ scorer (window ls length j)
        · exact (hbest j (List.mem_range.mpr (by omega)) _ (if_pos hj')).1 hj
        · exact lt_of_lt_of_le (not_le.mp hj') henough
      · intro j hj
        by_cases hj' : threshold ≤ scorer (window ls length j)
        · exact (hbest j (List.mem_range.mpr (by omega)) _ (if_pos hj')).2
        · exact le_trans (le_of_lt (not_le.mp hj')) henough
    next => cases hf
  refine ⟨hfound, ?_⟩
  rintro ⟨w, hw, rfl⟩
  cases hmatch : globalMatch scorer length threshold ls none with
  | none =>
    unfold globalMatch at hmatch
    rw [Option.map_eq_none_iff, scoreMatches_eq hpos, head?_insertionSort_eq_none] at hmatch
    have hinside := hw.inside
    have hnone := List.filterMap_eq_nil_iff.mp hmatch w (List.mem_range.mpr (by omega))
    rw [if_pos hw.enough] at hnone
    cases hnone
  | some range =>
    obtain ⟨other, hother, rfl⟩ := hfound hmatch
    have heq : other = w := by
      apply Classical.byContradiction
      intro hne
      obtain hlt | hlt := Nat.lt_or_gt_of_ne hne
      · exact absurd (hw.first other hlt) (not_lt.mpr (hother.best w hw.inside))
      · exact absurd (hother.first w hlt) (not_lt.mpr (hw.best other hother.inside))
    rw [heq]

theorem globalMatch_none_eq_none (hpos : 0 < length) : globalMatch scorer length threshold ls none = none ↔
      ∀ w, w + length ≤ ls.length → scorer (window ls length w) < threshold := by
  unfold globalMatch
  rw [Option.map_eq_none_iff, scoreMatches_eq hpos, head?_insertionSort_eq_none, List.filterMap_eq_nil_iff]
  constructor
  · intro h w hw
    have hnone := h w (List.mem_range.mpr (by omega))
    split at hnone
    next => cases hnone
    next hlow => exact not_le.mp hlow
  · intro h w hw
    rw [List.mem_range] at hw
    exact if_neg (not_le.mpr (h w (by omega)))

theorem matchDiff_none (search : Text) (file : List Line) (threshold : ℚ) (factory : MakeScorer) :
    matchDiff search none file threshold factory =
      .ok (globalMatch (factory search) (lines search).length threshold file none) := rfl

end Best

end InfiniShell.DiffValidation
