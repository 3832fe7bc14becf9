import InfiniShell.DiffValidation.SearchReplace

namespace InfiniShell.DiffValidation

variable (similarity : Text → Text → ℚ)

section Blocks

/-- The first line has a number, and the last line has one that has no successor. -/
def NumberedToMax (search : Text) : Prop :=
  ∃ first last, (strLines search).head? = some first ∧ (strLines search).getLast? = some last ∧
    (parseLineNumber first).1.isSome ∧ (parseLineNumber last).1 = some usizeMax

def readSearch (search : Text) : Option LineRange × Text := (parseLineNumbers true search).toOption.getD (none, search)

variable {search : Text}

theorem parseLineNumbers_of_not_max (h : ¬ NumberedToMax search) :
    parseLineNumbers true search = .ok (readSearch search) := by
  unfold readSearch
  cases hparse : parseLineNumbers true search with
  | ok parsed => rfl
  | error fault =>
    apply absurd _ h
    unfold parseLineNumbers at hparse
    split at hparse
    next => cases hparse
    next first rest hlines =>
      split at hparse
      next start stop hstart hstop =>
        split at hparse
        next hmax =>
          have hhead : (strLines search).head?.map parseLineNumber = some first := by
            rw [← List.head?_map, hlines]
            rfl
          have hlast : (strLines search).getLast?.map parseLineNumber =
              some ((first :: rest).getLast (List.cons_ne_nil first rest)) := by
            rw [← List.getLast?_map, hlines, List.getLast?_eq_getLast_of_ne_nil]
          obtain ⟨firstLine, hfirstLine, rfl⟩ := Option.map_eq_some_iff.mp hhead
          obtain ⟨lastLine, hlastLine, hlastEq⟩ := Option.map_eq_some_iff.mp hlast
          refine ⟨firstLine, lastLine, hfirstLine, hlastLine, ?_, ?_⟩
          · rw [hstart]
            rfl
          · rw [hlastEq, hstop, hmax.1]
        next => cases hparse
      next => cases hparse

theorem parseLineNumbers_of_max (h : NumberedToMax search) :
    parseLineNumbers true search = .error .overflow := by
  obtain ⟨firstLine, lastLine, hfirst, hlast, hstart, hstop⟩ := h
  unfold parseLineNumbers
  split
  next hlines =>
    rw [List.map_eq_nil_iff] at hlines
    rw [hlines] at hfirst
    cases hfirst
  next first rest hlines =>
    have hhead : some (parseLineNumber firstLine) = some first := by
      rw [← Option.map_some, ← hfirst, ← List.head?_map, hlines]
      rfl
    have hend : some (parseLineNumber lastLine) = some ((first :: rest).getLast (List.cons_ne_nil first rest)) := by
      rw [← Option.map_some, ← hlast, ← List.getLast?_map, hlines, List.getLast?_eq_getLast_of_ne_nil]
    rw [← Option.some.inj hend, hstop]
    rw [Option.some.inj hhead] at hstart
    obtain ⟨start, hstart⟩ := Option.isSome_iff_exists.mp hstart
    rw [hstart]
    exact if_pos ⟨rfl, rfl⟩

def searchLength (block : SearchAndReplace) : Nat := (lines (readSearch block.search).2).length

def blockHint (file : List Line) (block : SearchAndReplace) : Option LineRange :=
  (readSearch block.search).1.filter (validRange file.length)

def Prepends (block : SearchAndReplace) : Prop := (readSearch block.search).1 = some ⟨0, 0⟩

def Searched (block : SearchAndReplace) : Prop := (readSearch block.search).2 ≠ block.replace ∧ ¬ Prepends block

def Stands (file : List Line) (block : SearchAndReplace) (w : Nat) : Prop :=
  PlacedAt file (readSearch block.search).2 (blockHint file block) (blockTiers similarity (blockHint file block)) w

def Edits (file : List Line) (block : SearchAndReplace) (w : Nat) : Prop :=
  Searched block ∧ Stands similarity file block w ∧ strLines block.replace ≠ window file (searchLength block) w

def Noop (file : List Line) (block : SearchAndReplace) : Prop :=
  (readSearch block.search).2 = block.replace ∨
    Searched block ∧ ∃ w, Stands similarity file block w ∧ strLines block.replace = window file (searchLength block) w

def Unmatched (file : List Line) (block : SearchAndReplace) : Prop :=
  Searched block ∧ ∀ tier ∈ blockTiers similarity (blockHint file block),
    NoTierPlace file (readSearch block.search).2 tier

inductive OutcomeOf (file : List Line) (block : SearchAndReplace) : BlockOutcome → Prop where
  | noop : Noop similarity file block → OutcomeOf file block .noop
  | prepended : (readSearch block.search).2 ≠ block.replace → Prepends block →
    OutcomeOf file block (.matched ⟨⟨0, 0⟩, block.replace⟩)
  | edited {w : Nat} {insertion : Text} : Edits similarity file block w →
    OutcomeOf file block (.matched ⟨⟨w + 1, w + searchLength block + 1⟩, insertion⟩)
  | unmatched : Unmatched similarity file block → OutcomeOf file block .unmatched

variable {similarity} {file : List Line} {block : SearchAndReplace} {w : Nat}

theorem Edits.not_noop (h : Edits similarity file block w) : ¬ Noop similarity file block := by
  obtain ⟨hsearched, hstands, hne⟩ := h
  rintro (heq | ⟨-, v, hv, heq⟩)
  · exact hsearched.1 heq
  · rw [hv.unique hstands] at heq
    exact hne heq

theorem Unmatched.not_stands (h : Unmatched similarity file block) : ¬ Stands similarity file block w := by
  intro hw
  obtain ⟨tier, htier, hplace⟩ := hw.exists_tier
  exact hplace (h.2 tier htier)

theorem Unmatched.not_noop (h : Unmatched similarity file block) : ¬ Noop similarity file block := by
  rintro (heq | ⟨-, w, hw, -⟩)
  · exact h.1.1 heq
  · exact h.not_stands hw

variable {outcome : BlockOutcome}

theorem OutcomeOf.noop_iff (h : OutcomeOf similarity file block outcome) :
    outcome = .noop ↔ Noop similarity file block := by
  cases h with
  | noop h => exact iff_of_true rfl h
  | prepended hne hprepends =>
    apply iff_of_false nofun
    rintro (heq | ⟨hsearched, -⟩)
    · exact hne heq
    · exact hsearched.2 hprepends
  | edited h => exact iff_of_false nofun h.not_noop
  | unmatched h => exact iff_of_false nofun h.not_noop

theorem OutcomeOf.unmatched_iff (h : OutcomeOf similarity file block outcome) :
    outcome = .unmatched ↔ Unmatched similarity file block := by
  cases h with
  | noop h => exact iff_of_false nofun fun hnot => hnot.not_noop h
  | prepended _ hprepends => exact iff_of_false nofun fun hnot => hnot.1.2 hprepends
  | edited h => exact iff_of_false nofun fun hnot => hnot.not_stands h.2.1
  | unmatched h => exact iff_of_true rfl h

theorem replaceBlock_spec (search replace : Text) {length w : Nat} (hpos : 0 < length)
    (hinside : w + length ≤ file.length) :
    replaceBlock file search replace ⟨w + 1, w + length + 1⟩ = .ok .noop ∧
      strLines replace = window file length w ∨
    ∃ insertion, replaceBlock file search replace ⟨w + 1, w + length + 1⟩ =
      .ok (.matched ⟨⟨w + 1, w + length + 1⟩, insertion⟩) ∧ strLines replace ≠ window file length w := by
  have hne : (⟨w + 1, w + length + 1⟩ : LineRange) ≠ ⟨0, 0⟩ := fun h => Nat.succ_ne_zero w (congrArg LineRange.start h)
  have hstart : checkedSub (w + 1) 1 = .ok w := if_pos (Nat.succ_pos w)
  have hstop : checkedSub (w + length + 1) 1 = .ok (w + length) := if_pos (Nat.succ_pos _)
  have hslice : sliceLines file w (w + length) = .ok (window file length w) := by
    unfold sliceLines window
    rw [if_pos ⟨Nat.le_add_right _ _, hinside⟩, Nat.add_sub_cancel_left]
  have hlast : w + length + 1 - 2 < file.length := by omega
  unfold replaceBlock
  rw [if_neg hne]
  simp only [hstart, hstop]
  change (sliceLines file w (w + length)).bind _ = _ ∧ _ ∨ ∃ insertion, (sliceLines file w (w + length)).bind _ = _ ∧ _
  rw [hslice]
  change (if strLines replace = window file length w then _ else _) = _ ∧ _ ∨
    ∃ insertion, (if strLines replace = window file length w then _ else _) = _ ∧ _
  by_cases heq : strLines replace = window file length w
  · exact .inl ⟨if_pos heq, heq⟩
  · refine .inr ⟨appendUnmatchedLineSuffix search file[w + length + 1 - 2] replace, ?_, heq⟩
    rw [if_neg heq, if_pos (by omega), List.getElem?_eq_getElem hlast]

theorem resolveBlock_spec (similarity : Text → Text → ℚ) (file : List Line) (block : SearchAndReplace) :
    ∃ outcome, resolveBlock similarity file block.replace (readSearch block.search) = .ok outcome ∧
      OutcomeOf similarity file block outcome := by
  unfold resolveBlock
  by_cases hsame : (readSearch block.search).2 = block.replace
  · exact ⟨.noop, if_pos hsame, .noop (.inl hsame)⟩
  · rw [if_neg hsame]
    by_cases hprepends : Prepends block
    · have hlocate : locateBlock similarity file (readSearch block.search).1 (readSearch block.search).2 =
          .ok (some ⟨0, 0⟩) := (if_pos hprepends).trans (congrArg _ hprepends)
      rw [hlocate]
      exact ⟨_, rfl, .prepended hsame hprepends⟩
    · have hlocate : locateBlock similarity file (readSearch block.search).1 (readSearch block.search).2 =
          matchTiers (readSearch block.search).2 (blockHint file block) file
            (blockTiers similarity (blockHint file block)) := if_neg hprepends
      rw [hlocate]
      have hvalid : ∀ range ∈ blockHint file block, validRange file.length range :=
        fun range hrange => (Option.mem_filter_iff.mp hrange).2
      obtain ⟨htiers, hnone⟩ | ⟨w, hw, htiers⟩ := matchTiers_spec (readSearch block.search).2 hvalid
        (blockTiers similarity (blockHint file block))
      · rw [htiers]
        exact ⟨.unmatched, rfl, .unmatched ⟨⟨hsame, hprepends⟩, hnone⟩⟩
      · rw [htiers]
        change ∃ outcome, replaceBlock file (readSearch block.search).2 block.replace
          ⟨w + 1, w + searchLength block + 1⟩ = .ok outcome ∧ OutcomeOf similarity file block outcome
        obtain ⟨hreplace, heq⟩ | ⟨insertion, hreplace, hne⟩ := replaceBlock_spec (readSearch block.search).2
          block.replace (lines_length_pos (readSearch block.search).2) hw.inside
        · rw [searchLength, hreplace]
          exact ⟨.noop, rfl, .noop (.inr ⟨⟨hsame, hprepends⟩, w, hw, heq⟩)⟩
        · rw [searchLength, hreplace]
          exact ⟨_, rfl, .edited ⟨⟨hsame, hprepends⟩, hw, hne⟩⟩

end Blocks

section Counters

def BlockOutcome.delta? : BlockOutcome → Option DiffDelta
  | .matched delta => some delta
  | _ => none

def blockOutcome (file : List Line) (block : SearchAndReplace) : BlockOutcome :=
  (resolveBlock similarity file block.replace (readSearch block.search)).toOption.getD .unmatched

structure DiffMatchFailures.Fit (failures : DiffMatchFailures) : Prop where
  fuzzyMatchFailures : failures.fuzzyMatchFailures ≤ 255
  noopDeltas : failures.noopDeltas ≤ 255
  missingLineNumbers : failures.missingLineNumbers ≤ 255

def tally (file : List Line) (failures : DiffMatchFailures) (diffs : List SearchAndReplace) : DiffMatchFailures where
  fuzzyMatchFailures := failures.fuzzyMatchFailures + diffs.countP (blockOutcome similarity file · = .unmatched)
  noopDeltas := failures.noopDeltas + diffs.countP (blockOutcome similarity file · = .noop)
  missingLineNumbers := failures.missingLineNumbers + diffs.countP (missesLineNumbers <| readSearch ·.search)

variable {similarity} {file : List Line}

theorem resolveBlock_eq (similarity : Text → Text → ℚ) (file : List Line) (block : SearchAndReplace) :
    resolveBlock similarity file block.replace (readSearch block.search) = .ok (blockOutcome similarity file block) := by
  obtain ⟨outcome, hresolve, -⟩ := resolveBlock_spec similarity file block
  rw [blockOutcome, hresolve]
  rfl

theorem outcomeOf_blockOutcome (similarity : Text → Text → ℚ) (file : List Line) (block : SearchAndReplace) :
    OutcomeOf similarity file block (blockOutcome similarity file block) := by
  obtain ⟨outcome, hresolve, hspec⟩ := resolveBlock_spec similarity file block
  rw [resolveBlock_eq] at hresolve
  rw [Except.ok.inj hresolve]
  exact hspec

theorem bump_eq_ok {n m : Nat} : bump true n = .ok m ↔ n + 1 ≤ 255 ∧ m = n + 1 := by
  unfold bump
  split
  next h => exact ⟨fun heq => ⟨by omega, (Except.ok.inj heq).symm⟩, fun heq => congrArg _ heq.2.symm⟩
  next h => exact ⟨nofun, fun heq => absurd heq.1 (by omega)⟩

theorem bump_bind_eq_ok {α : Type} (n : Nat) (f : Nat → α) {out : α} :
    (do .ok (f (← bump true n)) : Except Fault α) = .ok out ↔ n + 1 ≤ 255 ∧ out = f (n + 1) := by
  change (bump true n).bind (fun m => .ok (f m)) = .ok out ↔ _
  cases hbump : bump true n with
  | error fault =>
    refine ⟨nofun, ?_⟩
    rintro ⟨hle, -⟩
    rw [bump_eq_ok.mpr ⟨hle, rfl⟩] at hbump
    cases hbump
  | ok m =>
    obtain ⟨hle, rfl⟩ := bump_eq_ok.mp hbump
    exact ⟨fun h => ⟨hle, (Except.ok.inj h).symm⟩, fun h => congrArg _ h.2.symm⟩

theorem tally_nil (failures : DiffMatchFailures) : tally similarity file failures [] = failures := rfl

theorem tally_cons (failures : DiffMatchFailures) (block : SearchAndReplace) (diffs : List SearchAndReplace) :
    tally similarity file failures (block :: diffs) =
      tally similarity file (tally similarity file failures [block]) diffs := by
  unfold tally
  simp only [List.countP_cons, List.countP_nil, DiffMatchFailures.mk.injEq]
  omega

variable {failures : DiffMatchFailures}

theorem Fit.of_tally {diffs : List SearchAndReplace}
    (h : (tally similarity file failures diffs).Fit) : failures.Fit :=
  ⟨Nat.le_trans (Nat.le_add_right _ _) h.fuzzyMatchFailures, Nat.le_trans (Nat.le_add_right _ _) h.noopDeltas,
    Nat.le_trans (Nat.le_add_right _ _) h.missingLineNumbers⟩

def DiffMatchFailures.withMissing (failures : DiffMatchFailures) (n : Nat) : DiffMatchFailures :=
  { failures with missingLineNumbers := failures.missingLineNumbers + n }

theorem recordMissing_eq_ok {failures out : DiffMatchFailures} (hfit : failures.Fit)
    (parsed : Option LineRange × Text) : recordMissing true failures parsed = .ok out ↔
      out = failures.withMissing (if missesLineNumbers parsed then 1 else 0) ∧ out.Fit := by
  unfold recordMissing DiffMatchFailures.withMissing
  split
  next hmisses =>
    apply (bump_bind_eq_ok failures.missingLineNumbers
      fun m => ({ failures with missingLineNumbers := m } : DiffMatchFailures)).trans
    constructor
    · rintro ⟨hle, rfl⟩
      exact ⟨rfl, hfit.1, hfit.2, hle⟩
    · rintro ⟨rfl, hout⟩
      exact ⟨hout.3, rfl⟩
  next hreads =>
    constructor
    · intro h
      obtain rfl := Except.ok.inj h
      exact ⟨rfl, hfit⟩
    · rintro ⟨rfl, -⟩
      rfl

variable {deltas : List DiffDelta}

theorem recordOutcome_eq_ok (hfit : failures.Fit)
    (outcome : BlockOutcome) (out : List DiffDelta × DiffMatchFailures) :
    recordOutcome true deltas failures outcome = .ok out ↔
      out = (deltas ++ outcome.delta?.toList,
        ⟨failures.fuzzyMatchFailures + (if outcome = .unmatched then 1 else 0),
          failures.noopDeltas + (if outcome = .noop then 1 else 0), failures.missingLineNumbers⟩) ∧ out.2.Fit := by
  cases outcome with
  | noop =>
    apply (bump_bind_eq_ok failures.noopDeltas
      fun m => (deltas, ({ failures with noopDeltas := m } : DiffMatchFailures))).trans
    simp only [BlockOutcome.delta?, Option.toList_none, List.append_nil, reduceCtorEq, if_false, if_true, Nat.add_zero]
    constructor
    · rintro ⟨hle, rfl⟩
      exact ⟨rfl, hfit.1, hle, hfit.3⟩
    · rintro ⟨rfl, hout⟩
      exact ⟨hout.2, rfl⟩
  | matched delta =>
    rw [recordOutcome]
    simp only [BlockOutcome.delta?, Option.toList_some, reduceCtorEq, if_false, Nat.add_zero]
    constructor
    · intro h
      obtain rfl := Except.ok.inj h
      exact ⟨rfl, hfit⟩
    · rintro ⟨rfl, -⟩
      rfl
  | unmatched =>
    apply (bump_bind_eq_ok failures.fuzzyMatchFailures
      fun m => (deltas, ({ failures with fuzzyMatchFailures := m } : DiffMatchFailures))).trans
    simp only [BlockOutcome.delta?, Option.toList_none, List.append_nil, reduceCtorEq, if_false, if_true, Nat.add_zero]
    constructor
    · rintro ⟨hle, rfl⟩
      exact ⟨rfl, hle, hfit.2, hfit.3⟩
    · rintro ⟨rfl, hout⟩
      exact ⟨hout.1, rfl⟩

theorem matchBlock_eq_ok (block : SearchAndReplace)
    (hfit : failures.Fit) (out : List DiffDelta × DiffMatchFailures) :
    matchBlock similarity true file (deltas, failures) block = .ok out ↔
      ¬ NumberedToMax block.search ∧
      out = (deltas ++ (blockOutcome similarity file block).delta?.toList, tally similarity file failures [block]) ∧
      out.2.Fit := by
  by_cases hmax : NumberedToMax block.search
  · have hmatch : matchBlock similarity true file (deltas, failures) block = .error .overflow := by
      unfold matchBlock
      simp only [parseLineNumbers_of_max hmax]
      rfl
    rw [hmatch]
    exact ⟨nofun, fun h => absurd hmax h.1⟩
  · have hmatch : matchBlock similarity true file (deltas, failures) block =
        (recordMissing true failures (readSearch block.search)).bind fun failures =>
          recordOutcome true deltas failures (blockOutcome similarity file block) := by
      unfold matchBlock
      simp only [parseLineNumbers_of_not_max hmax]
      change (recordMissing true failures (readSearch block.search)).bind _ = _
      congr 1
      funext failures
      rw [resolveBlock_eq]
      rfl
    have htally : tally similarity file failures [block] =
        ⟨failures.fuzzyMatchFailures + (if blockOutcome similarity file block = .unmatched then 1 else 0),
          failures.noopDeltas + (if blockOutcome similarity file block = .noop then 1 else 0),
          failures.missingLineNumbers + (if missesLineNumbers (readSearch block.search) then 1 else 0)⟩ := by
      simp [tally, List.countP_cons]
    rw [hmatch, htally, and_iff_right hmax]
    cases hmissing : recordMissing true failures (readSearch block.search) with
    | error fault =>
      refine ⟨nofun, ?_⟩
      rintro ⟨rfl, hout⟩
      rw [(recordMissing_eq_ok hfit _).mpr ⟨rfl, hfit.1, hfit.2, hout.3⟩] at hmissing
      cases hmissing
    | ok next =>
      obtain ⟨rfl, hnext⟩ := (recordMissing_eq_ok hfit _).mp hmissing
      exact recordOutcome_eq_ok hnext _ out

theorem foldlM_matchBlock (diffs : List SearchAndReplace)
    (hfit : failures.Fit) (out : List DiffDelta × DiffMatchFailures) :
    diffs.foldlM (matchBlock similarity true file) (deltas, failures) = .ok out ↔
      (∀ block ∈ diffs, ¬ NumberedToMax block.search) ∧
      out = (deltas ++ diffs.filterMap fun block => (blockOutcome similarity file block).delta?,
        tally similarity file failures diffs) ∧ out.2.Fit := by
  induction diffs generalizing deltas failures with
  | nil =>
    rw [List.filterMap_nil, List.append_nil, tally_nil]
    constructor
    · intro h
      obtain rfl := Except.ok.inj h
      exact ⟨fun block hblock => absurd hblock List.not_mem_nil, rfl, hfit⟩
    · rintro ⟨-, rfl, -⟩
      rfl
  | cons block diffs ih =>
    have hfilter : deltas ++ (block :: diffs).filterMap (fun block => (blockOutcome similarity file block).delta?) =
        deltas ++ (blockOutcome similarity file block).delta?.toList ++
          diffs.filterMap fun block => (blockOutcome similarity file block).delta? := by
      rw [List.filterMap_cons, List.append_assoc]
      cases (blockOutcome similarity file block).delta? <;> rfl
    rw [List.foldlM_cons, tally_cons, hfilter, List.forall_mem_cons]
    cases hmatch : matchBlock similarity true file (deltas, failures) block with
    | error fault =>
      refine ⟨nofun, ?_⟩
      rintro ⟨⟨hmax, -⟩, rfl, hout⟩
      rw [(matchBlock_eq_ok block hfit _).mpr ⟨hmax, rfl, Fit.of_tally hout⟩] at hmatch
      cases hmatch
    | ok next =>
      obtain ⟨hmax, rfl, hnext⟩ := (matchBlock_eq_ok block hfit _).mp hmatch
      rw [and_iff_right hmax]
      exact ih hnext

end Counters

section Resolved

def Apart (a b : LineRange) : Prop := a.stop ≤ b.start ∨ b.stop ≤ a.start

def ValidRange (count : Nat) (range : LineRange) : Prop :=
  range = ⟨0, 0⟩ ∨ 1 ≤ range.start ∧ range.start < range.stop ∧ range.stop ≤ count + 1

/-- With overflow checks on, a call that ends without a fault has neither overflowed nor indexed out of range. -/
def Resolved (fileName : Text) (diffs : List SearchAndReplace) (fileContent : Text) : Prop :=
  ∃ diff, fuzzyMatchDiffs similarity true fileName diffs fileContent = .ok diff ∧
    (∀ delta ∈ diff.deltas, ValidRange (lines fileContent).length delta.replacementLineRange) ∧
    (diff.deltas.Pairwise fun a b => Apart a.replacementLineRange b.replacementLineRange) ∧
    ((∃ failures ∈ diff.failures, 0 < failures.fuzzyMatchFailures) ↔
      ∃ block ∈ diffs, Unmatched similarity (lines fileContent) block)

open Classical in
structure Manageable (file : List Line) (diffs : List SearchAndReplace) : Prop where
  numbers : ∀ block ∈ diffs, ¬ NumberedToMax block.search
  unmatched : diffs.countP (Unmatched similarity file ·) ≤ 255
  noops : diffs.countP (Noop similarity file ·) ≤ 255
  missing : diffs.countP (missesLineNumbers <| readSearch ·.search) ≤ 255
  apart : diffs.Pairwise fun a b => ∀ v w, Edits similarity file a v → Edits similarity file b w →
    v + searchLength a ≤ w ∨ w + searchLength b ≤ v

variable {similarity} {file : List Line} {delta : DiffDelta}

theorem delta?_eq_some (file : List Line) (block : SearchAndReplace)
    (h : (blockOutcome similarity file block).delta? = some delta) :
    delta.replacementLineRange = ⟨0, 0⟩ ∨
      ∃ w, Edits similarity file block w ∧ delta.replacementLineRange = ⟨w + 1, w + searchLength block + 1⟩ := by
  have hspec := outcomeOf_blockOutcome similarity file block
  generalize blockOutcome similarity file block = outcome at h hspec
  cases hspec with
  | noop _ => cases h
  | prepended _ _ =>
    obtain rfl := Option.some.inj h
    exact .inl rfl
  | edited hedits =>
    obtain rfl := Option.some.inj h
    exact .inr ⟨_, hedits, rfl⟩
  | unmatched _ => cases h

variable {block : SearchAndReplace}

theorem Edits.delta?_eq_some {w : Nat} (h : Edits similarity file block w) :
    ∃ insertion, (blockOutcome similarity file block).delta? =
      some ⟨⟨w + 1, w + searchLength block + 1⟩, insertion⟩ := by
  have hspec := outcomeOf_blockOutcome similarity file block
  generalize blockOutcome similarity file block = outcome at hspec
  cases hspec with
  | noop hnoop => exact absurd hnoop h.not_noop
  | prepended _ hprepends => exact absurd hprepends h.1.2
  | @edited v insertion hedits =>
    rw [hedits.2.1.unique h.2.1]
    exact ⟨insertion, rfl⟩
  | unmatched hunmatched => exact absurd h.2.1 hunmatched.not_stands

theorem validRange_delta (h : (blockOutcome similarity file block).delta? = some delta) :
    ValidRange file.length delta.replacementLineRange := by
  obtain hzero | ⟨w, hedits, hrange⟩ := delta?_eq_some file block h
  · exact .inl hzero
  · have hinside := hedits.2.1.inside
    have hpos := lines_length_pos (readSearch block.search).2
    rw [hrange]
    exact .inr ⟨Nat.succ_pos w, by change w + 1 < w + searchLength block + 1; unfold searchLength; omega,
      Nat.succ_le_succ hinside⟩

theorem apart_deltas_iff {a b : SearchAndReplace} :
    (∀ x, (blockOutcome similarity file a).delta? = some x → ∀ y, (blockOutcome similarity file b).delta? = some y →
      Apart x.replacementLineRange y.replacementLineRange) ↔
    ∀ v w, Edits similarity file a v → Edits similarity file b w → v + searchLength a ≤ w ∨ w + searchLength b ≤ v := by
  constructor
  · intro h v w hv hw
    obtain ⟨_, hx⟩ := hv.delta?_eq_some
    obtain ⟨_, hy⟩ := hw.delta?_eq_some
    obtain hle | hle := h _ hx _ hy
    · exact .inl (Nat.le_of_succ_le_succ hle)
    · exact .inr (Nat.le_of_succ_le_succ hle)
  · intro h x hx y hy
    obtain hzero | ⟨v, hv, hxrange⟩ := delta?_eq_some file a hx
    · rw [hzero]
      exact .inl (Nat.zero_le _)
    · obtain hzero | ⟨w, hw, hyrange⟩ := delta?_eq_some file b hy
      · rw [hzero]
        exact .inr (Nat.zero_le _)
      · rw [hxrange, hyrange]
        obtain hle | hle := h v w hv hw
        · exact .inl (Nat.succ_le_succ hle)
        · exact .inr (Nat.succ_le_succ hle)

theorem surfaced_iff (failures : DiffMatchFailures) (deltas : List DiffDelta) :
    (∃ surfaced ∈ failures.surface deltas, 0 < surfaced.fuzzyMatchFailures) ↔ 0 < failures.fuzzyMatchFailures := by
  unfold DiffMatchFailures.surface
  constructor
  · rintro ⟨surfaced, hsurfaced, hpos⟩
    split at hsurfaced
    · rw [Option.some.inj hsurfaced]
      exact hpos
    · cases hsurfaced
  · intro hpos
    rw [if_pos (.inl hpos)]
    exact ⟨failures, rfl, hpos⟩

open Classical in
theorem fit_tally_iff (diffs : List SearchAndReplace) : (tally similarity file {} diffs).Fit ↔
    diffs.countP (Unmatched similarity file ·) ≤ 255 ∧ diffs.countP (Noop similarity file ·) ≤ 255 ∧
      diffs.countP (missesLineNumbers <| readSearch ·.search) ≤ 255 := by
  have hunmatched : diffs.countP (blockOutcome similarity file · = .unmatched) =
      diffs.countP (Unmatched similarity file ·) := by
    apply List.countP_congr
    intro block _
    simp only [decide_eq_true_eq, (outcomeOf_blockOutcome similarity file block).unmatched_iff]
  have hnoop : diffs.countP (blockOutcome similarity file · = .noop) = diffs.countP (Noop similarity file ·) := by
    apply List.countP_congr
    intro block _
    simp only [decide_eq_true_eq, (outcomeOf_blockOutcome similarity file block).noop_iff]
  rw [← hunmatched, ← hnoop]
  constructor
  · rintro ⟨hfuzzy, hnoops, hmissing⟩
    exact ⟨by simpa [tally] using hfuzzy, by simpa [tally] using hnoops, by simpa [tally] using hmissing⟩
  · rintro ⟨hfuzzy, hnoops, hmissing⟩
    exact ⟨by simpa [tally] using hfuzzy, by simpa [tally] using hnoops, by simpa [tally] using hmissing⟩

def deltasOf (similarity : Text → Text → ℚ) (file : List Line) (diffs : List SearchAndReplace) : List DiffDelta :=
  diffs.filterMap fun block => (blockOutcome similarity file block).delta?

theorem fuzzyMatchDiffs_eq_ok (similarity : Text → Text → ℚ) (fileName : Text) (diffs : List SearchAndReplace)
    (fileContent : Text) (diff : AIRequestedCodeDiff) :
    fuzzyMatchDiffs similarity true fileName diffs fileContent = .ok diff ↔
      (∀ block ∈ diffs, ¬ NumberedToMax block.search) ∧ (tally similarity (lines fileContent) {} diffs).Fit ∧
      diff = ⟨fileName, deltasOf similarity (lines fileContent) diffs, none,
        (tally similarity (lines fileContent) {} diffs).surface (deltasOf similarity (lines fileContent) diffs),
        fileContent⟩ := by
  have hfit : ({} : DiffMatchFailures).Fit := ⟨Nat.zero_le _, Nat.zero_le _, Nat.zero_le _⟩
  have hfold : ∀ out, diffs.foldlM (matchBlock similarity true (lines fileContent)) ([], {}) = .ok out ↔ _ :=
    fun out => foldlM_matchBlock diffs hfit out
  unfold fuzzyMatchDiffs fuzzyMatchFileDiffs
  cases hout : diffs.foldlM (matchBlock similarity true (lines fileContent)) ([], {}) with
  | error fault =>
    refine ⟨nofun, ?_⟩
    rintro ⟨hnumbers, htally, -⟩
    rw [(hfold _).mpr ⟨hnumbers, rfl, htally⟩] at hout
    cases hout
  | ok out =>
    obtain ⟨hnumbers, rfl, htally⟩ := (hfold out).mp hout
    rw [and_iff_right hnumbers, and_iff_right htally]
    exact ⟨fun h => (Except.ok.inj h).symm, fun h => congrArg Except.ok h.symm⟩

/-- The blocks are resolved exactly if numbers and counters have room and no two stand for a common line. -/
theorem search_replace_resolved_iff (similarity : Text → Text → ℚ) (fileName : Text) (diffs : List SearchAndReplace)
    (fileContent : Text) :
    Resolved similarity fileName diffs fileContent ↔ Manageable similarity (lines fileContent) diffs := by
  have hapart : ((deltasOf similarity (lines fileContent) diffs).Pairwise fun a b =>
      Apart a.replacementLineRange b.replacementLineRange) ↔ diffs.Pairwise fun a b => ∀ v w,
        Edits similarity (lines fileContent) a v → Edits similarity (lines fileContent) b w →
          v + searchLength a ≤ w ∨ w + searchLength b ≤ v := by
    rw [deltasOf, List.pairwise_filterMap]
    simp only [apart_deltas_iff]
  constructor
  · rintro ⟨diff, hdiff, -, hpairwise, -⟩
    obtain ⟨hnumbers, hfit, rfl⟩ := (fuzzyMatchDiffs_eq_ok similarity fileName diffs fileContent diff).mp hdiff
    obtain ⟨hunmatched, hnoops, hmissing⟩ := (fit_tally_iff diffs).mp hfit
    exact ⟨hnumbers, hunmatched, hnoops, hmissing, hapart.mp hpairwise⟩
  · rintro ⟨hnumbers, hunmatched, hnoops, hmissing, hpairwise⟩
    have hfit := (fit_tally_iff diffs).mpr ⟨hunmatched, hnoops, hmissing⟩
    refine ⟨_, (fuzzyMatchDiffs_eq_ok similarity fileName diffs fileContent _).mpr ⟨hnumbers, hfit, rfl⟩, ?_,
      hapart.mpr hpairwise, ?_⟩
    · intro delta hdelta
      obtain ⟨block, -, hblock⟩ := List.mem_filterMap.mp hdelta
      exact validRange_delta hblock
    · rw [surfaced_iff]
      change 0 < 0 + diffs.countP _ ↔ _
      rw [Nat.zero_add, List.countP_pos_iff]
      simp only [decide_eq_true_eq, (outcomeOf_blockOutcome similarity (lines fileContent) _).unmatched_iff]

end Resolved

/-- Two blocks for one line, a line number without a successor, a full counter. -/
theorem search_replace_unresolved :
    ¬ Resolved (fun _ _ => 0) [] [⟨['a'], ['b']⟩, ⟨['a'], ['c']⟩] ['a'] ∧
    ¬ Resolved (fun _ _ => 0) []
      [⟨['1', '8', '4', '4', '6', '7', '4', '4', '0', '7', '3', '7', '0', '9', '5', '5', '1', '6', '1', '5', '|'], []⟩]
      ['a'] ∧
    ¬ Resolved (fun _ _ => 0) [] (List.replicate 256 ⟨['1', '|', 'a'], ['b']⟩) ['c'] := by
  refine ⟨?_, ?_, ?_⟩
  · rintro ⟨diff, hdiff, -, hapart, -⟩
    have hdeltas : (fuzzyMatchDiffs (fun _ _ => 0) true [] [⟨['a'], ['b']⟩, ⟨['a'], ['c']⟩] ['a']).toOption.map
        AIRequestedCodeDiff.deltas = some [⟨⟨1, 2⟩, ['b']⟩, ⟨⟨1, 2⟩, ['c']⟩] := by decide +kernel
    rw [hdiff] at hdeltas
    rw [Option.some.inj hdeltas] at hapart
    obtain hle | hle := (List.pairwise_cons.mp hapart).1 _ List.mem_cons_self
    · exact absurd hle (by decide)
    · exact absurd hle (by decide)
  · rintro ⟨diff, hdiff, -⟩
    have hfault : (fuzzyMatchDiffs (fun _ _ => 0) true [] [⟨['1', '8', '4', '4', '6', '7', '4', '4', '0', '7', '3', '7',
        '0', '9', '5', '5', '1', '6', '1', '5', '|'], []⟩] ['a']).toOption = none := by decide +kernel
    rw [hdiff] at hfault
    cases hfault
  · rintro ⟨diff, hdiff, -⟩
    have hfault : (fuzzyMatchDiffs (fun _ _ => 0) true [] (List.replicate 256 ⟨['1', '|', 'a'], ['b']⟩)
        ['c']).toOption = none := by
      decide +kernel
    rw [hdiff] at hfault
    cases hfault

end InfiniShell.DiffValidation
