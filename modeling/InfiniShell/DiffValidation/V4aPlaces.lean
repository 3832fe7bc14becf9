import InfiniShell.DiffValidation.V4aMatch

namespace InfiniShell.DiffValidation

theorem sliceLines_from {ls : List Line} {start : Nat} (h : start ≤ ls.length) :
    sliceLines ls start ls.length = .ok (ls.drop start) := by
  rw [sliceLines, if_pos ⟨h, Nat.le_refl _⟩, List.take_of_length_le (by rw [List.length_drop])]

theorem findChangeContextStart_spec (file : List Line) (markers : List Text) {currentPos : Nat}
    (h : currentPos ≤ file.length) : ∃ found, findChangeContextStart file markers currentPos = .ok found ∧
      ∀ start ∈ found, start ≤ file.length := by
  induction markers generalizing currentPos with
  | nil =>
    refine ⟨some currentPos, rfl, ?_⟩
    intro start hstart
    rw [← Option.some.inj hstart]
    exact h
  | cons marker markers ih =>
    rw [findChangeContextStart]
    split
    · exact ih h
    · rw [sliceLines_from h]
      dsimp only [bind, Except.bind]
      split
      · exact ⟨none, rfl, fun _ h => by cases h⟩
      · rename_i relative hfind
        apply ih
        have hlt := (List.findIdx?_eq_some_iff_getElem.mp hfind).1
        rw [List.length_drop] at hlt
        omega

theorem contextStart_spec (edit : V4AHunk) (file : List Line) :
    ∃ found, contextStart edit file = .ok found ∧ ∀ start ∈ found, start ≤ file.length := by
  unfold contextStart
  split
  · refine ⟨some 0, rfl, ?_⟩
    intro start hstart
    rw [← Option.some.inj hstart]
    exact Nat.zero_le _
  · exact findChangeContextStart_spec file edit.changeContext (Nat.zero_le _)

def pattern (edit : V4AHunk) : List Line := strLines edit.preContext ++ strLines edit.old ++ strLines edit.postContext

theorem newline_not_mem_pattern (edit : V4AHunk) : ∀ line ∈ pattern edit, '\n' ∉ line := by
  intro line hline
  obtain hline | hline := List.mem_append.mp hline
  · obtain hline | hline := List.mem_append.mp hline
    · exact newline_not_mem_strLines line hline
    · exact newline_not_mem_strLines line hline
  · exact newline_not_mem_strLines line hline

theorem pattern_length (edit : V4AHunk) : (pattern edit).length =
    (strLines edit.preContext).length + (strLines edit.old).length + (strLines edit.postContext).length := by
  rw [pattern, List.length_append, List.length_append]

/-- The place of the old lines where the hunk stands `i` lines behind its context. -/
def oldPlace (edit : V4AHunk) (start i : Nat) : LineRange :=
  ⟨start + i + (strLines edit.preContext).length + 1,
    start + i + (strLines edit.preContext).length + (strLines edit.old).length + 1⟩

theorem calculateOldRange_eq (edit : V4AHunk) (start i stop : Nat) :
    calculateOldRange start ⟨i + 1, stop⟩ (strLines edit.preContext) (strLines edit.old) =
      .ok (some (oldPlace edit start i)) := by
  have hsub : checkedSub (start + (i + 1)) 1 = .ok (start + i) := if_pos (by omega)
  unfold calculateOldRange
  change (checkedSub (start + (i + 1)) 1).bind _ = _
  rw [hsub]
  rfl

variable {similarity : Text → Text → ℚ} {edit : V4AHunk} {file : List Line} {start : Nat}

inductive Found (similarity : Text → Text → ℚ) (edit : V4AHunk) (ls : List Line) (start : Nat) :
    Option LineRange → Prop
  | blank (h : pattern edit = []) : Found similarity edit ls start (some (oldPlace edit start 0))
  | tooLong (h : ls.length < (pattern edit).length) : Found similarity edit ls start none
  | read (w : Nat) (hne : pattern edit ≠ []) (hlen : (pattern edit).length ≤ ls.length)
      (h : ReadAt (resplit (pattern edit)) ls w) : Found similarity edit ls start (some (oldPlace edit start w))
  | fuzzy (w : Nat) (hne : pattern edit ≠ []) (hlen : (pattern edit).length ≤ ls.length)
      (h : ∀ w, ¬ ReadAt (resplit (pattern edit)) ls w)
      (hbest : BestWindow ls (resplit (pattern edit)).length sectionMatchThreshold
        (makeJaroWinklerMatch similarity (joinLines (pattern edit))) w) :
      Found similarity edit ls start (some (oldPlace edit start w))
  | none (hne : pattern edit ≠ []) (hlen : (pattern edit).length ≤ ls.length)
      (h : ∀ w, ¬ ReadAt (resplit (pattern edit)) ls w)
      (hlow : ∀ w, w + (resplit (pattern edit)).length ≤ ls.length →
        makeJaroWinklerMatch similarity (joinLines (pattern edit)) (window ls (resplit (pattern edit)).length w) <
          sectionMatchThreshold) : Found similarity edit ls start none

theorem findV4aMatch_spec (similarity : Text → Text → ℚ) (h : contextStart edit file = .ok (some start)) :
    ∃ found, findV4aMatch similarity edit file = .ok found ∧ Found similarity edit (file.drop start) start found := by
  have hstart : start ≤ file.length := by
    obtain ⟨found, hfound, hle⟩ := contextStart_spec edit file
    rw [h] at hfound
    exact hle start (Except.ok.inj hfound).symm
  have hunfold : findV4aMatch similarity edit file =
      if (pattern edit).length = 0 then .ok (some ⟨start + 1, start + 1⟩)
      else if (file.drop start).length < (pattern edit).length then .ok none
      else (matchTiers (joinLines (pattern edit)) Option.none (file.drop start) (v4aTiers similarity)).bind fun found =>
        found.casesOn (.ok Option.none) fun range =>
          calculateOldRange start range (strLines edit.preContext) (strLines edit.old) := by
    unfold findV4aMatch
    rw [h]
    change (sliceLines file start file.length).bind _ = _
    rw [sliceLines_from hstart, pattern_length]
    refine if_congr Iff.rfl rfl (if_congr Iff.rfl rfl (congrArg (Except.bind _) (funext fun found => ?_)))
    cases found with
    | none => rfl
    | some range => rfl
  rw [hunfold]
  by_cases hblank : pattern edit = []
  · have hpre : (strLines edit.preContext).length = 0 ∧ (strLines edit.old).length = 0 := by
      have hlen := pattern_length edit
      rw [hblank, List.length_nil] at hlen
      omega
    refine ⟨some (oldPlace edit start 0), ?_, .blank hblank⟩
    rw [if_pos (by rw [hblank]; rfl), oldPlace, hpre.1, hpre.2]
  · rw [if_neg (fun hlen => hblank (List.eq_nil_of_length_eq_zero hlen))]
    by_cases hlong : (file.drop start).length < (pattern edit).length
    · rw [if_pos hlong]
      exact ⟨_, rfl, .tooLong hlong⟩
    · rw [if_neg hlong]
      have hlen := Nat.not_lt.mp hlong
      have hpos := (resplit_length (newline_not_mem_pattern edit) hblank).1
      obtain ⟨hread, hfuzzy⟩ := matchTiers_v4a similarity (joinLines (pattern edit)) (file.drop start) hpos
      by_cases hexists : ∃ w, ReadAt (resplit (pattern edit)) (file.drop start) w
      · obtain ⟨w, hw⟩ := hexists
        refine ⟨_, ?_, .read w hblank hlen hw⟩
        rw [hread w hw]
        exact calculateOldRange_eq edit start w _
      · have hnever : ∀ w, ¬ ReadAt (resplit (pattern edit)) (file.drop start) w := fun w hw => hexists ⟨w, hw⟩
        rw [hfuzzy hnever]
        cases hglobal : globalMatch (makeJaroWinklerMatch similarity (joinLines (pattern edit)))
            (lines (joinLines (pattern edit))).length sectionMatchThreshold (file.drop start) Option.none with
        | none => exact ⟨_, rfl, .none hblank hlen hnever ((globalMatch_none_eq_none hpos).mp hglobal)⟩
        | some range =>
          obtain ⟨w, hbest, rfl⟩ := (globalMatch_none_eq_some hpos).mp hglobal
          exact ⟨_, calculateOldRange_eq edit start w _, .fuzzy w hblank hlen hnever hbest⟩

theorem findV4aMatch_no_context (similarity : Text → Text → ℚ) (h : contextStart edit file = .ok none) :
    findV4aMatch similarity edit file = .ok none := by
  unfold findV4aMatch
  rw [h]
  rfl

theorem threshold_not_le_zero : ¬ sectionMatchThreshold ≤ 0 := by decide +kernel

theorem one_not_lt_threshold : ¬ (1 : ℚ) < sectionMatchThreshold := by decide +kernel

def RangeOk (count : Nat) (range : LineRange) : Prop :=
  1 ≤ range.start ∧ range.start ≤ range.stop ∧ range.stop ≤ count + 1

def FoundInside (similarity : Text → Text → ℚ) (edit : V4AHunk) (file : List Line) : Prop :=
  ∃ found, findV4aMatch similarity edit file = .ok found ∧ ∀ range ∈ found, RangeOk file.length range

/-- Where the lines of a hunk stand behind its context, the first such place is the one that is used. -/
def FoundFirst (similarity : Text → Text → ℚ) (edit : V4AHunk) (file : List Line) : Prop :=
  ∀ start i, contextStart edit file = .ok (some start) → FirstOccurrence (pattern edit) (file.drop start) i →
    findV4aMatch similarity edit file = .ok (some (oldPlace edit start i))

/-- The lines that are split again read where the hunk stands, and a lost blank line is not lost at the end of
the file. -/
def SurvivesResplit (edit : V4AHunk) (file : List Line) : Prop :=
  ∀ start, contextStart edit file = .ok (some start) → pattern edit ≠ [] →
    (pattern edit).length ≤ (file.drop start).length →
    (∀ i, FirstOccurrence (pattern edit) (file.drop start) i → ReadAt (resplit (pattern edit)) (file.drop start) i) ∧
    ((resplit (pattern edit)).length < (pattern edit).length → strLines edit.postContext = [] →
      (∃ w, ReadAt (resplit (pattern edit)) (file.drop start) w ∧
        w + (pattern edit).length ≤ (file.drop start).length) ∨
      (∀ w, ¬ ReadAt (resplit (pattern edit)) (file.drop start) w) ∧ ∃ j,
        j + (pattern edit).length ≤ (file.drop start).length ∧
          (window (file.drop start) (resplit (pattern edit)).length j).map trimStart =
            (window (file.drop start) (resplit (pattern edit)).length
              ((file.drop start).length - (resplit (pattern edit)).length)).map trimStart)

variable {w : Nat}

theorem oldPlace_ok_iff (hstart : start ≤ file.length) : RangeOk file.length (oldPlace edit start w) ↔
      w + ((strLines edit.preContext).length + (strLines edit.old).length) ≤ (file.drop start).length := by
  unfold RangeOk oldPlace
  rw [List.length_drop]
  constructor
  · rintro ⟨-, -, hle⟩
    simp only at hle
    omega
  · intro hle
    simp only
    omega

theorem oldPlace_inj {v w : Nat} (h : oldPlace edit start v = oldPlace edit start w) : v = w := by
  have hstart := congrArg LineRange.start h
  simp only [oldPlace] at hstart
  omega

theorem oldLines_le (edit : V4AHunk) : (strLines edit.preContext).length + (strLines edit.old).length +
    (strLines edit.postContext).length = (pattern edit).length := (pattern_length edit).symm

theorem context_le (h : contextStart edit file = .ok (some start)) : start ≤ file.length := by
  obtain ⟨found, hfound, hle⟩ := contextStart_spec edit file
  rw [h] at hfound
  exact hle start (Except.ok.inj hfound).symm

theorem place_ok_of_window (hcontext : contextStart edit file = .ok (some start)) (hne : pattern edit ≠ [])
    (hw : w + (resplit (pattern edit)).length ≤ (file.drop start).length)
    (hlast : (resplit (pattern edit)).length < (pattern edit).length → strLines edit.postContext = [] →
      w + (pattern edit).length ≤ (file.drop start).length) : RangeOk file.length (oldPlace edit start w) := by
  rw [oldPlace_ok_iff (context_le hcontext)]
  have hlen := oldLines_le edit
  obtain ⟨-, hle, hlost⟩ := resplit_length (newline_not_mem_pattern edit) hne
  by_cases hshort : (resplit (pattern edit)).length < (pattern edit).length
  · by_cases hpost : strLines edit.postContext = []
    · have hinside := hlast hshort hpost
      omega
    · have hpos := List.length_pos_iff.mpr hpost
      omega
  · omega

theorem SurvivesResplit.found (h : SurvivesResplit edit file) (similarity : Text → Text → ℚ) :
    FoundInside similarity edit file ∧ FoundFirst similarity edit file := by
  obtain ⟨context, hcontext, -⟩ := contextStart_spec edit file
  cases context with
  | none =>
    constructor
    · exact ⟨none, findV4aMatch_no_context similarity hcontext, nofun⟩
    · intro start i hstart
      rw [hcontext] at hstart
      cases hstart
  | some start =>
    have hsurvives := h start hcontext
    obtain ⟨found, hfind, hspec⟩ := findV4aMatch_spec similarity hcontext
    have hinside : ∀ range ∈ found, RangeOk file.length range := by
      intro range hrange
      cases hspec with
      | blank hblank =>
        obtain rfl := Option.some.inj hrange
        rw [oldPlace_ok_iff (context_le hcontext)]
        have hlen := oldLines_le edit
        rw [hblank, List.length_nil] at hlen
        omega
      | tooLong _ => cases hrange
      | read w hne hlen hread =>
        obtain rfl := Option.some.inj hrange
        apply place_ok_of_window hcontext hne hread.inside
        intro hshort hpost
        obtain ⟨other, hother, hle⟩ | ⟨hnever, -⟩ := (hsurvives hne hlen).2 hshort hpost
        · rw [hread.unique hother]
          exact hle
        · exact absurd hread (hnever w)
      | fuzzy w hne hlen hnever hbest =>
        obtain rfl := Option.some.inj hrange
        apply place_ok_of_window hcontext hne hbest.inside
        intro hshort hpost
        obtain ⟨other, hother, -⟩ | ⟨-, j, hj, hsame⟩ := (hsurvives hne hlen).2 hshort hpost
        · exact absurd hother (hnever other)
        · apply Classical.byContradiction
          intro hlast
          have hlost := (resplit_length (newline_not_mem_pattern edit) hne).2.2
          have hw := hbest.inside
          obtain rfl : w = (file.drop start).length - (resplit (pattern edit)).length := by omega
          have hfirst := hbest.first j (by omega)
          unfold makeJaroWinklerMatch at hfirst
          rw [hsame] at hfirst
          exact lt_irrefl _ hfirst
      | none _ _ _ _ => cases hrange
    refine ⟨⟨found, hfind, hinside⟩, ?_⟩
    intro other i hother hoccurs
    obtain rfl : other = start := Option.some.inj (Except.ok.inj (hother.symm.trans hcontext))
    rw [hfind]
    congr 1
    cases hspec with
    | blank hblank =>
      have hzero : FirstOccurrence (pattern edit) (file.drop other) 0 := by
        rw [hblank]
        exact ⟨⟨Nat.zero_le _, rfl⟩, fun j hj => absurd hj (Nat.not_lt_zero j)⟩
      rw [hoccurs.unique hzero]
    | tooLong hlong =>
      have hle := hoccurs.1.1
      omega
    | read w hne hlen hread => rw [hread.unique ((hsurvives hne hlen).1 i hoccurs)]
    | fuzzy w hne hlen hnever hbest => exact absurd ((hsurvives hne hlen).1 i hoccurs) (hnever i)
    | none hne hlen hnever hlow => exact absurd ((hsurvives hne hlen).1 i hoccurs) (hnever i)

def onlySimilar (target : Text) : Text → Text → ℚ := fun _ text => if text = target then 1 else 0

theorem onlySimilar_self (search target : Text) : onlySimilar target search target = 1 := if_pos rfl

theorem onlySimilar_of_ne (search : Text) {target text : Text} (h : text ≠ target) :
    onlySimilar target search text = 0 := if_neg h

theorem SurvivesResplit.of_found (hfile : ∀ line ∈ file, '\n' ∉ line)
    (h : ∀ similarity, FoundInside similarity edit file ∧ FoundFirst similarity edit file) :
    SurvivesResplit edit file := by
  intro start hcontext hne hlen
  have hpos := (resplit_length (newline_not_mem_pattern edit) hne).1
  have hread : ∀ similarity w, ReadAt (resplit (pattern edit)) (file.drop start) w →
      findV4aMatch similarity edit file = .ok (some (oldPlace edit start w)) := by
    intro similarity w hw
    obtain ⟨found, hfind, hspec⟩ := findV4aMatch_spec similarity hcontext
    cases hspec with
    | blank hblank => exact absurd hblank hne
    | tooLong hlong => omega
    | read other _ _ hother => rw [hfind, hw.unique hother]
    | fuzzy _ _ _ hnever _ => exact absurd hw (hnever w)
    | none _ _ hnever _ => exact absurd hw (hnever w)
  constructor
  · intro i hoccurs
    by_cases hexists : ∃ w, ReadAt (resplit (pattern edit)) (file.drop start) w
    · obtain ⟨w, hw⟩ := hexists
      have hfirst := (h fun _ _ => 0).2 start i hcontext hoccurs
      rw [hread _ w hw] at hfirst
      rw [← oldPlace_inj (Option.some.inj (Except.ok.inj hfirst))]
      exact hw
    · -- Nothing is similar to anything, so that the hunk is not found at all.
      have hfirst := (h fun _ _ => 0).2 start i hcontext hoccurs
      obtain ⟨found, hfind, hspec⟩ := findV4aMatch_spec (fun _ _ => 0) hcontext
      rw [hfind] at hfirst
      obtain rfl := Except.ok.inj hfirst
      generalize hplace : some (oldPlace edit start i) = place at hspec
      cases hspec with
      | blank hblank => exact absurd hblank hne
      | tooLong hlong => cases hplace
      | read w _ _ hw => exact absurd ⟨w, hw⟩ hexists
      | fuzzy w _ _ _ hbest =>
        exact absurd hbest.enough threshold_not_le_zero
      | none _ _ _ _ => cases hplace
  · intro hshort hpost
    have hlost := (resplit_length (newline_not_mem_pattern edit) hne).2.2
    have hparts := oldLines_le edit
    rw [hpost, List.length_nil] at hparts
    by_cases hexists : ∃ w, ReadAt (resplit (pattern edit)) (file.drop start) w
    · obtain ⟨w, hw⟩ := hexists
      obtain ⟨found, hfind, hinside⟩ := (h fun _ _ => 0).1
      rw [hread _ w hw] at hfind
      have hok := hinside _ (Except.ok.inj hfind).symm
      rw [oldPlace_ok_iff (context_le hcontext)] at hok
      exact .inl ⟨w, hw, by omega⟩
    · -- Only the text of the last window is similar, so that the first window with this text is found.
      right
      have hnever : ∀ w, ¬ ReadAt (resplit (pattern edit)) (file.drop start) w := fun w hw => hexists ⟨w, hw⟩
      refine ⟨hnever, ?_⟩
      generalize hlast : (file.drop start).length - (resplit (pattern edit)).length = last
      generalize htarget : joinLines ((window (file.drop start) (resplit (pattern edit)).length last).map trimStart) =
        target
      obtain ⟨found, hfind, hinside⟩ := (h (onlySimilar target)).1
      obtain ⟨found', hfind', hspec⟩ := findV4aMatch_spec (onlySimilar target) hcontext
      obtain rfl := Except.ok.inj (hfind.symm.trans hfind')
      cases hspec with
      | blank hblank => exact absurd hblank hne
      | tooLong hlong => omega
      | read w _ _ hw => exact absurd hw (hnever w)
      | fuzzy w _ _ _ hbest =>
        have hok := hinside _ rfl
        rw [oldPlace_ok_iff (context_le hcontext)] at hok
        refine ⟨w, by omega, ?_⟩
        have htext : joinLines ((window (file.drop start) (resplit (pattern edit)).length w).map trimStart) = target := by
          apply Classical.byContradiction
          intro hother
          have henough := hbest.enough
          unfold makeJaroWinklerMatch at henough
          rw [onlySimilar_of_ne _ hother] at henough
          exact threshold_not_le_zero henough
        have hnewlines : ∀ i, i + (resplit (pattern edit)).length ≤ (file.drop start).length →
            (∀ line ∈ (window (file.drop start) (resplit (pattern edit)).length i).map trimStart, '\n' ∉ line) ∧
              (window (file.drop start) (resplit (pattern edit)).length i).map trimStart ≠ [] := by
          intro i hi
          constructor
          · intro line hline
            obtain ⟨whole, hwhole, rfl⟩ := List.mem_map.mp hline
            have hfileLine := hfile whole (List.mem_of_mem_drop (List.mem_of_mem_drop (List.mem_of_mem_take hwhole)))
            exact fun hmem => hfileLine ((List.dropWhile_sublist _).mem hmem)
          · intro hnil
            have hlength := congrArg List.length hnil
            rw [List.length_map, window_length hi] at hlength
            rw [hlength] at hpos
            exact Nat.lt_irrefl 0 hpos
        obtain ⟨hw, hwne⟩ := hnewlines w hbest.inside
        obtain ⟨hl, hlne⟩ := hnewlines last (by omega)
        exact joinLines_injective hw hl hwne hlne (htext.trans htarget.symm)
      | none _ _ _ hlow =>
        have hlowLast := hlow last (by omega)
        unfold makeJaroWinklerMatch at hlowLast
        rw [htarget, onlySimilar_self] at hlowLast
        exact (one_not_lt_threshold hlowLast).elim

section Deltas

/-- The deltas are sorted, do not overlap and lie in a file of `count` lines. -/
def Applicable (count : Nat) (deltas : List DiffDelta) : Prop :=
  deltas.Pairwise (fun a b => a.replacementLineRange.start ≤ b.replacementLineRange.start ∧
    a.replacementLineRange.stop ≤ b.replacementLineRange.start) ∧
    ∀ delta ∈ deltas, RangeOk count delta.replacementLineRange

variable {count : Nat}

theorem Applicable.concat {deltas : List DiffDelta} (h : Applicable count deltas) {delta : DiffDelta}
    (hrange : RangeOk count delta.replacementLineRange)
    (hlast : ∀ prev ∈ deltas.getLast?, prev.replacementLineRange.stop ≤ delta.replacementLineRange.start) :
    Applicable count (deltas ++ [delta]) := by
  have hall : ∀ prev ∈ deltas, prev.replacementLineRange.stop ≤ delta.replacementLineRange.start := by
    intro prev hprev
    cases deltas using List.reverseRecOn with
    | nil => cases hprev
    | append_singleton deltas last =>
      have hend := hlast last (List.getLast?_concat)
      obtain hprev | hprev := List.mem_append.mp hprev
      · have hpair := (List.pairwise_append.mp h.1).2.2 prev hprev last List.mem_cons_self
        have hlastOk := (h.2 last (List.mem_append_right _ List.mem_cons_self)).2.1
        omega
      · rw [List.mem_singleton.mp hprev]
        exact hend
  constructor
  · rw [List.pairwise_append]
    refine ⟨h.1, List.pairwise_singleton _ _, ?_⟩
    intro prev hprev other hother
    rw [List.mem_singleton.mp hother]
    exact ⟨Nat.le_trans (h.2 prev hprev).2.1 (hall prev hprev), hall prev hprev⟩
  · intro other hother
    obtain hother | hother := List.mem_append.mp hother
    · exact h.2 other hother
    · rw [List.mem_singleton.mp hother]
      exact hrange

theorem foldl_keepApart {deltas result : List DiffDelta} (hresult : Applicable count result)
    (h : ∀ delta ∈ deltas, RangeOk count delta.replacementLineRange) :
    Applicable count (deltas.foldl keepApart result) := by
  induction deltas generalizing result with
  | nil => exact hresult
  | cons delta deltas ih =>
    obtain ⟨hrange, hrest⟩ := List.forall_mem_cons.mp h
    rw [List.foldl_cons]
    apply ih _ hrest
    unfold keepApart
    split
    next => exact hresult
    next hapart =>
      apply hresult.concat hrange
      intro prev hprev
      rw [Option.mem_def.mp hprev] at hapart
      simpa using hapart

theorem bump_unchecked (n : Nat) : ∃ m, bump false n = .ok m := by
  unfold bump
  split
  · exact ⟨_, rfl⟩
  · exact ⟨0, rfl⟩

theorem findV4aMatch_ok (similarity : Text → Text → ℚ) (edit : V4AHunk) (file : List Line) :
    ∃ found, findV4aMatch similarity edit file = .ok found := by
  obtain ⟨context, hcontext, -⟩ := contextStart_spec edit file
  cases context with
  | none => exact ⟨none, findV4aMatch_no_context similarity hcontext⟩
  | some start =>
    obtain ⟨found, hfind, -⟩ := findV4aMatch_spec similarity hcontext
    exact ⟨found, hfind⟩

theorem sliceLines_range {range : LineRange} : (∃ ls, (do
    sliceLines file (← checkedSub range.start 1) (← checkedSub range.stop 1) : Except Fault (List Line)) = .ok ls) ↔
      RangeOk file.length range := by
  unfold RangeOk checkedSub
  by_cases hstart : 1 ≤ range.start
  · by_cases hstop : 1 ≤ range.stop
    · rw [if_pos hstart, if_pos hstop]
      change (∃ ls, sliceLines file (range.start - 1) (range.stop - 1) = .ok ls) ↔ _
      unfold sliceLines
      constructor
      · rintro ⟨ls, hls⟩
        split at hls
        next hok => omega
        next => cases hls
      · intro hok
        exact ⟨_, if_pos (by omega)⟩
    · rw [if_pos hstart, if_neg hstop]
      constructor
      · rintro ⟨ls, hls⟩
        cases hls
      · omega
  · rw [if_neg hstart]
    constructor
    · rintro ⟨ls, hls⟩
      cases hls
    · omega

theorem matchHunk_spec (similarity : Text → Text → ℚ) (file : List Line) (acc : List DiffDelta × DiffMatchFailures)
    (edit : V4AHunk) :
    ((∃ next, matchHunk similarity false file acc edit = .ok next) ↔
      (edit.old ≠ edit.new → FoundInside similarity edit file)) ∧
    ∀ next, matchHunk similarity false file acc edit = .ok next →
      next.1 = acc.1 ∨ ∃ delta, RangeOk file.length delta.replacementLineRange ∧ next.1 = acc.1 ++ [delta] := by
  obtain ⟨deltas, failures⟩ := acc
  obtain ⟨noops, hnoops⟩ := bump_unchecked failures.noopDeltas
  obtain ⟨fuzzy, hfuzzy⟩ := bump_unchecked failures.fuzzyMatchFailures
  by_cases hsame : edit.old = edit.new
  · have hmatch : matchHunk similarity false file (deltas, failures) edit =
        .ok (deltas, { failures with noopDeltas := noops }) := by
      unfold matchHunk
      simp only [if_pos hsame, hnoops]
      rfl
    rw [hmatch]
    refine ⟨⟨fun _ hne => absurd hsame hne, fun _ => ⟨_, rfl⟩⟩, ?_⟩
    intro next hnext
    obtain rfl := Except.ok.inj hnext
    exact .inl rfl
  · obtain ⟨found, hfind⟩ := findV4aMatch_ok similarity edit file
    cases found with
    | none =>
      have hmatch : matchHunk similarity false file (deltas, failures) edit =
          .ok (deltas, { failures with fuzzyMatchFailures := fuzzy }) := by
        unfold matchHunk
        simp only [if_neg hsame, hfind]
        change (bump false failures.fuzzyMatchFailures).bind _ = _
        rw [hfuzzy]
        rfl
      rw [hmatch]
      refine ⟨⟨fun _ _ => ⟨none, hfind, nofun⟩, fun _ => ⟨_, rfl⟩⟩, ?_⟩
      intro next hnext
      obtain rfl := Except.ok.inj hnext
      exact .inl rfl
    | some range =>
      have hmatch : matchHunk similarity false file (deltas, failures) edit =
          (do sliceLines file (← checkedSub range.start 1) (← checkedSub range.stop 1) :
            Except Fault (List Line)).bind fun matchedLines =>
              if edit.new = joinLines matchedLines then .ok (deltas, { failures with noopDeltas := noops })
              else .ok (deltas ++ [⟨range, edit.new⟩], failures) := by
        unfold matchHunk
        simp only [if_neg hsame, hfind, hnoops]
        change (checkedSub range.start 1).bind _ = ((checkedSub range.start 1).bind _).bind _
        cases checkedSub range.start 1 with
        | error fault => rfl
        | ok first =>
          change (checkedSub range.stop 1).bind _ = ((checkedSub range.stop 1).bind _).bind _
          cases checkedSub range.stop 1 with
          | error fault => rfl
          | ok last => rfl
      have hinside : FoundInside similarity edit file ↔ RangeOk file.length range := by
        constructor
        · rintro ⟨found, hfound, hok⟩
          rw [hfind] at hfound
          exact hok range (Except.ok.inj hfound).symm
        · intro hok
          refine ⟨some range, hfind, ?_⟩
          intro other hother
          rw [← Option.some.inj hother]
          exact hok
      rw [hmatch]
      cases hslice : (do sliceLines file (← checkedSub range.start 1) (← checkedSub range.stop 1) :
          Except Fault (List Line)) with
      | error fault =>
        have hnot : ¬ RangeOk file.length range := by
          rw [← sliceLines_range, hslice]
          rintro ⟨ls, hls⟩
          cases hls
        refine ⟨⟨?_, fun h => absurd (hinside.mp (h hsame)) hnot⟩, ?_⟩
        · rintro ⟨next, hnext⟩
          cases hnext
        · intro next hnext
          cases hnext
      | ok ls =>
        have hok : RangeOk file.length range := sliceLines_range.mp ⟨ls, hslice⟩
        change ((∃ next, (if edit.new = joinLines ls then _ else _) = Except.ok next) ↔ _) ∧
          ∀ next, (if edit.new = joinLines ls then _ else _) = Except.ok next → _
        split
        · refine ⟨⟨fun _ _ => hinside.mpr hok, fun _ => ⟨_, rfl⟩⟩, ?_⟩
          intro next hnext
          obtain rfl := Except.ok.inj hnext
          exact .inl rfl
        · refine ⟨⟨fun _ _ => hinside.mpr hok, fun _ => ⟨_, rfl⟩⟩, ?_⟩
          intro next hnext
          obtain rfl := Except.ok.inj hnext
          exact .inr ⟨⟨range, edit.new⟩, hok, rfl⟩

theorem foldlM_matchHunk (similarity : Text → Text → ℚ) (file : List Line) (diffs : List V4AHunk)
    (acc : List DiffDelta × DiffMatchFailures)
    (hacc : ∀ delta ∈ acc.1, RangeOk file.length delta.replacementLineRange) :
    ((∃ out, diffs.foldlM (matchHunk similarity false file) acc = .ok out) ↔
      ∀ edit ∈ diffs, edit.old ≠ edit.new → FoundInside similarity edit file) ∧
    ∀ out, diffs.foldlM (matchHunk similarity false file) acc = .ok out →
      ∀ delta ∈ out.1, RangeOk file.length delta.replacementLineRange := by
  induction diffs generalizing acc with
  | nil =>
    refine ⟨⟨fun _ edit hedit => absurd hedit List.not_mem_nil, fun _ => ⟨acc, rfl⟩⟩, ?_⟩
    intro out hout
    rw [← Except.ok.inj hout]
    exact hacc
  | cons edit diffs ih =>
    obtain ⟨hiff, hnext⟩ := matchHunk_spec similarity file acc edit
    rw [List.foldlM_cons]
    cases hmatch : matchHunk similarity false file acc edit with
    | error fault =>
      have hnot : ¬ (edit.old ≠ edit.new → FoundInside similarity edit file) := by
        rw [← hiff, hmatch]
        rintro ⟨next, hok⟩
        cases hok
      refine ⟨⟨?_, fun h => absurd (h edit List.mem_cons_self) hnot⟩, ?_⟩
      · rintro ⟨out, hout⟩
        cases hout
      · intro out hout
        cases hout
    | ok next =>
      have hinside := hiff.mp ⟨next, hmatch⟩
      have hnextOk : ∀ delta ∈ next.1, RangeOk file.length delta.replacementLineRange := by
        obtain heq | ⟨delta, hrange, heq⟩ := hnext next hmatch
        · rw [heq]
          exact hacc
        · rw [heq]
          intro other hother
          obtain hother | hother := List.mem_append.mp hother
          · exact hacc other hother
          · rw [List.mem_singleton.mp hother]
            exact hrange
      obtain ⟨hrest, hout⟩ := ih next hnextOk
      refine ⟨?_, hout⟩
      rw [List.forall_mem_cons, and_iff_right hinside]
      exact hrest

/-- No index lies outside the file, the deltas can be applied, and a hunk that stands in the file is found where it
first stands. -/
def MatchedSafely (similarity : Text → Text → ℚ) (fileName : Text) (diffs : List V4AHunk) (renameTo : Option Text)
    (fileContent : Text) : Prop :=
  (∃ diff, fuzzyMatchV4aDiffs similarity false fileName diffs renameTo fileContent = .ok diff ∧
    Applicable (strLines fileContent).length diff.deltas) ∧
    ∀ edit ∈ diffs, edit.old ≠ edit.new → FoundFirst similarity edit (strLines fileContent)

theorem matchedSafely_iff (similarity : Text → Text → ℚ) (fileName : Text) (diffs : List V4AHunk)
    (renameTo : Option Text) (fileContent : Text) :
    MatchedSafely similarity fileName diffs renameTo fileContent ↔ ∀ edit ∈ diffs, edit.old ≠ edit.new →
      FoundInside similarity edit (strLines fileContent) ∧ FoundFirst similarity edit (strLines fileContent) := by
  obtain ⟨hiff, hout⟩ := foldlM_matchHunk similarity (strLines fileContent) diffs ([], {})
    (fun delta hdelta => absurd hdelta List.not_mem_nil)
  have hresult : (∃ diff, fuzzyMatchV4aDiffs similarity false fileName diffs renameTo fileContent = .ok diff ∧
      Applicable (strLines fileContent).length diff.deltas) ↔
        ∀ edit ∈ diffs, edit.old ≠ edit.new → FoundInside similarity edit (strLines fileContent) := by
    rw [← hiff]
    unfold fuzzyMatchV4aDiffs
    cases hfold : diffs.foldlM (matchHunk similarity false (strLines fileContent)) ([], {}) with
    | error fault =>
      constructor
      · rintro ⟨diff, hdiff, -⟩
        cases hdiff
      · rintro ⟨out, h⟩
        cases h
    | ok out =>
      refine ⟨fun _ => ⟨out, rfl⟩, fun _ => ⟨_, rfl, ?_⟩⟩
      apply foldl_keepApart ⟨List.Pairwise.nil, fun delta hdelta => absurd hdelta List.not_mem_nil⟩
      intro delta hdelta
      exact hout out hfold delta ((List.mem_insertionSort _).mp hdelta)
  rw [MatchedSafely, hresult]
  constructor
  · rintro ⟨hinside, hfirst⟩ edit hedit hne
    exact ⟨hinside edit hedit hne, hfirst edit hedit hne⟩
  · intro h
    exact ⟨fun edit hedit hne => (h edit hedit hne).1, fun edit hedit hne => (h edit hedit hne).2⟩

/-- The hunks are matched safely exactly if each that changes something survives the splitting of its lines. -/
theorem v4a_matched_safely_iff (fileName : Text) (diffs : List V4AHunk) (renameTo : Option Text) (fileContent : Text) :
    (∀ similarity, MatchedSafely similarity fileName diffs renameTo fileContent) ↔
      ∀ edit ∈ diffs, edit.old ≠ edit.new → SurvivesResplit edit (strLines fileContent) := by
  constructor
  · intro h edit hedit hne
    apply SurvivesResplit.of_found newline_not_mem_strLines
    intro similarity
    exact (matchedSafely_iff similarity fileName diffs renameTo fileContent).mp (h similarity) edit hedit hne
  · intro h similarity
    rw [matchedSafely_iff]
    intro edit hedit hne
    exact (h edit hedit hne).found similarity

end Deltas

def blankEnd : V4AHunk := ⟨[], [], ['a', '\n', '\n'], ['b'], []⟩

/-- The lost line is indexed behind the end of the file, or an earlier place reads the same without it. -/
theorem v4a_matched_outside : ¬ (∀ similarity, MatchedSafely similarity [] [blankEnd] none ['x', '\n', 'a']) ∧
    ¬ (∀ similarity, MatchedSafely similarity [] [blankEnd] none ['a', '\n', 'c', '\n', 'a', '\n', '\n', 'd']) := by
  constructor
  · intro h
    obtain ⟨⟨diff, hdiff, -⟩, -⟩ := h fun _ _ => 0
    have hfault : (fuzzyMatchV4aDiffs (fun _ _ => 0) false [] [blankEnd] none ['x', '\n', 'a']).toOption = none := by
      decide +kernel
    rw [hdiff] at hfault
    cases hfault
  · intro h
    obtain ⟨-, hfirst⟩ := h fun _ _ => 0
    have hplace := hfirst blankEnd List.mem_cons_self (by decide) 0 2 rfl (by
      constructor
      · exact ⟨by decide +kernel, by decide +kernel⟩
      · intro j hj hoccurs
        obtain ⟨-, hwindow⟩ := hoccurs
        revert hwindow
        obtain rfl | rfl : j = 0 ∨ j = 1 := by omega
        · decide +kernel
        · decide +kernel)
    have hother : (findV4aMatch (fun _ _ => 0) blankEnd (strLines ['a', '\n', 'c', '\n', 'a', '\n', '\n', 'd'])).toOption =
        some (some (oldPlace blankEnd 0 0)) := by decide +kernel
    rw [hplace] at hother
    revert hother
    decide +kernel

end InfiniShell.DiffValidation
