import InfiniShell.Editor.StyleLoop

namespace InfiniShell.Editor

open Collections Collections.ListCursor Crdt

variable {undoHistory : UndoHistory} {textStyleOperation : TextStyleOperation} {all ranges : List Range}
variable {doc : Elements} {target : Styled} {len : Nat} {new rest l : List Fragment} {pos : Nat} {range : Range}

theorem StyleProgress.passAll
    (h : StyleProgress undoHistory textStyleOperation all doc target new (l ++ rest) pos)
    (houtside : ∀ i, pos ≤ i → i < pos + total Fragment.chars l → ∀ range ∈ all, ¬range.Contains i) :
    StyleProgress undoHistory textStyleOperation all doc target (new ++ l) rest (pos + total Fragment.chars l) := by
  induction l generalizing new pos with
  | nil =>
    rw [List.append_nil]
    exact h
  | cons f l ih =>
    have hchars := h.chars_eq
    rw [total_cons, hchars] at houtside
    have hpass := h.pass fun i hi hi' => houtside i hi (by omega)
    have hrest := ih hpass fun i hi hi' => houtside i (by omega) (by omega)
    rw [List.append_assoc, List.singleton_append, Nat.add_assoc, ← hchars, ← total_cons] at hrest
    exact hrest

structure StyleOuter (undoHistory : UndoHistory) (textStyleOperation : TextStyleOperation) (all : List Range)
    (doc : Elements) (target : Styled) (len : Nat) (s : StyleScan) (ranges : List Range) : Prop where
  progress : StyleProgress undoHistory textStyleOperation all doc target s.newFragments s.rest s.cursorStart
  listed : Listed (s.newFragments ++ s.rest) s.insertionSplits
  length : s.cursorStart + total Fragment.chars s.rest = len
  upcoming : Upcoming all ranges s.cursorStart

namespace StyleOuter

variable {s : StyleScan}

theorem seekRange (hall : Disjoint all) (h : StyleOuter undoHistory textStyleOperation all doc target len s ranges) :
    StyleOuter undoHistory textStyleOperation all doc target len (s.seekRange ranges) ranges ∧
      (s.seekRange ranges).rest.length ≤ s.rest.length := by
  cases ranges with
  | nil => exact ⟨h, Nat.le_refl _⟩
  | cons range ranges =>
    rw [StyleScan.seekRange]
    split
    next =>
      obtain ⟨l, r, heq, hslice, hl, -⟩ := @slice_spec _ Fragment.chars .right range.start s.cursorStart s.rest
      have hprogress := h.progress
      have hlisted := h.listed
      have hlength := h.length
      rw [heq] at hprogress hlisted hlength
      rw [total_append] at hlength
      rw [hslice]
      refine ⟨⟨?_, by rwa [List.append_assoc], by dsimp only; omega, ?_⟩, by rw [heq]; simp⟩
      · apply hprogress.passAll
        intro i hi hi'
        apply h.upcoming.outside hall hi
        intro r hr
        rw [← Option.some.inj hr]
        cases hl with
        | inl hnil =>
          rw [hnil, total_nil] at hi'
          omega
        | inr hpass =>
          have hle := of_decide_eq_true hpass
          omega
      · apply h.upcoming.advance (Nat.le_add_right _ _)
        intro r hr
        rw [← Option.some.inj hr]
        cases hl with
        | inl hnil =>
          dsimp only
          rw [hnil, total_nil, Nat.add_zero]
          exact h.upcoming.head range rfl
        | inr hpass => exact .inl (of_decide_eq_true hpass)
    next => exact ⟨h, Nat.le_refl _⟩

theorem style {f : Fragment} {splits : InsertionSplits} {fragmentEnd : Nat} (fragmentEnd' : Nat) {left : List Range}
    (h : StyleOuter undoHistory textStyleOperation all doc target len ⟨new, splits, pos, f :: rest, fragmentEnd⟩
      (range :: ranges)) (hstart : range.start ≤ pos) (hstop : pos + f.visibleLen undoHistory ≤ range.stop)
    (hupcoming : Upcoming all left (pos + f.visibleLen undoHistory)) :
    StyleOuter undoHistory textStyleOperation all doc target len
      ⟨new ++ [f.applyTextStyleOperation textStyleOperation], splits, pos + f.chars, rest, fragmentEnd'⟩ left := by
  have hchars := h.progress.chars_eq
  have hlength := h.length
  dsimp only at hlength
  rw [total_cons] at hlength
  refine ⟨?_, ?_, by dsimp only; omega, by rwa [hchars]⟩
  · rw [hchars]
    exact h.progress.style h.upcoming.mem hstart hstop
  · have hlisted := h.listed.congr (g := f.applyTextStyleOperation textStyleOperation) rfl rfl
    rwa [List.append_assoc]

end StyleOuter

section Loop

variable {s : StyleScan} {fragment : Fragment} (hall : Disjoint all)
include hall

theorem styleIntermediateFragments_spec {splits : InsertionSplits} {fragmentEnd : Nat}
    (h : StyleOuter undoHistory textStyleOperation all doc target len ⟨new, splits, pos, rest, fragmentEnd⟩
      (range :: ranges)) :
    ∃ finished s', styleIntermediateFragments textStyleOperation undoHistory range new splits pos fragmentEnd rest =
        (finished, s') ∧ s'.rest.length ≤ rest.length ∧
      StyleOuter undoHistory textStyleOperation all doc target len s' (if finished then ranges else range :: ranges) := by
  induction rest generalizing new pos fragmentEnd with
  | nil => exact ⟨false, _, rfl, Nat.le_refl _, h⟩
  | cons f rest ih =>
    by_cases hwithin : range.start < pos ∧ range.stop ≥ pos + f.visibleLen undoHistory
    · obtain ⟨hstart, hstop⟩ := hwithin
      rw [styleIntermediateFragments, if_pos ⟨hstart, hstop⟩]
      by_cases hend : range.stop = pos + f.visibleLen undoHistory
      · have hle : pos ≤ range.stop := by omega
        have hupcoming := h.upcoming.next hall hle
        rw [hend] at hupcoming
        rw [if_pos hend]
        exact ⟨true, _, rfl, Nat.le_succ _, h.style _ hstart.le hstop hupcoming⟩
      · have hupcoming : Upcoming all (range :: ranges) (pos + f.visibleLen undoHistory) := by
          have hcursor : Upcoming all (range :: ranges) pos := h.upcoming
          apply hcursor.advance (Nat.le_add_right _ _)
          intro r hr
          rw [← Option.some.inj hr]
          exact .inr ⟨by omega, by omega⟩
        obtain ⟨finished, s', heq, hlength, hs'⟩ := ih (h.style (pos + f.visibleLen undoHistory) hstart.le
          hstop hupcoming)
        rw [if_neg hend]
        exact ⟨finished, s', heq, hlength.trans (Nat.le_succ _), hs'⟩
    · rw [styleIntermediateFragments, if_neg hwithin]
      exact ⟨false, _, rfl, Nat.le_refl _, h.progress, h.listed, h.length, h.upcoming⟩

variable (h : StyleOuter undoHistory textStyleOperation all doc target len s ranges)
include h

theorem styleCovered_spec :
    ∃ s' left, styleCovered textStyleOperation undoHistory s ranges = (s', left) ∧ s'.rest.length ≤ s.rest.length ∧
      StyleOuter undoHistory textStyleOperation all doc target len s' left := by
  cases ranges with
  | nil => exact ⟨s, [], rfl, Nat.le_refl _, h⟩
  | cons range ranges =>
    obtain ⟨finished, s', heq, hlength, hs'⟩ := styleIntermediateFragments_spec hall h
    obtain ⟨hseek, hlength'⟩ := hs'.seekRange hall
    rw [styleCovered, heq]
    exact ⟨_, _, rfl, hlength'.trans hlength, hseek⟩

theorem styleFragment_spec (hrest : s.rest = fragment :: rest) :
    ∃ s' left, styleFragment textStyleOperation undoHistory fragment s ranges = some (s', left) ∧
      s'.rest.length ≤ rest.length ∧ StyleOuter undoHistory textStyleOperation all doc target len s' left := by
  have hprogress := h.progress
  have hlisted := h.listed
  have hlength := h.length
  rw [hrest] at hprogress hlisted hlength
  rw [total_cons, hprogress.chars_eq] at hlength
  obtain ⟨oldSplitTree, hget, hsplits⟩ := SplitScan.start hlisted hprogress.wellFormed hprogress.lt
  rw [styleFragment, hget, Option.bind_some]
  obtain ⟨p, left, hstyle, hstyled⟩ := styleRanges_spec
    (p := ⟨s.newFragments, fragment, (splitsAround fragment oldSplitTree).1, s.cursorStart⟩) hall
    ⟨rfl, hsplits, rfl, hprogress⟩ h.upcoming
  have hid := hstyled.insertionId
  have hfinish := hstyled.splits.finish hid
  have houter : StyleOuter undoHistory textStyleOperation all doc target len
      { newFragments := p.newFragments ++ [p.currentFragment]
        insertionSplits := s.insertionSplits.insert p.currentFragment.insertion.id
          (p.newSplitTree ++ [p.currentFragment.split] ++ (splitsAround fragment oldSplitTree).2)
        cursorStart := s.cursorStart + fragment.chars
        rest := s.rest.tail
        fragmentEnd := s.cursorStart + fragment.visibleLen undoHistory } left := by
    rw [hid, hrest, hprogress.chars_eq]
    exact ⟨hstyled.progress, hfinish, by dsimp only [List.tail_cons]; omega, hstyled.upcoming⟩
  obtain ⟨s', left', hcovered, hlength', hs'⟩ := styleCovered_spec hall houter
  dsimp only
  rw [hstyle, Option.map_some]
  dsimp only
  rw [hcovered]
  rw [hrest] at hlength'
  exact ⟨s', left', rfl, hlength', hs'⟩

theorem styleFragments_spec {fuel : Nat} (hfuel : s.rest.length ≤ fuel) :
    ∃ s' left, styleFragments textStyleOperation undoHistory fuel s ranges = some (s', left) ∧
      StyleOuter undoHistory textStyleOperation all doc target len s' left ∧ (left = [] ∨ s'.rest = []) := by
  induction fuel generalizing s ranges with
  | zero => exact ⟨s, ranges, rfl, h, .inr (List.length_eq_zero_iff.mp (Nat.le_zero.mp hfuel))⟩
  | succ fuel ih =>
    cases ranges with
    | nil => exact ⟨s, [], rfl, h, .inl rfl⟩
    | cons range ranges =>
      cases hrest : s.rest with
      | nil =>
        refine ⟨s, range :: ranges, ?_, h, .inr hrest⟩
        unfold styleFragments
        rw [hrest]
      | cons fragment rest =>
        rw [hrest, List.length_cons] at hfuel
        obtain ⟨s', left, hstyle, hlength, hs'⟩ := styleFragment_spec hall h hrest
        unfold styleFragments
        rw [hrest]
        dsimp only
        rw [hstyle, Option.bind_some]
        exact ih hs' (hlength.trans (Nat.le_of_succ_le_succ hfuel))

end Loop

section Result

variable {b : Buffer} {fragments : List Fragment}

theorem shown_length
    (h : ∀ f ∈ fragments, f.Fresh undoHistory ∧ f.endCharacterOffset ≤ f.insertion.text.length) :
    (shown undoHistory fragments).length = total Fragment.chars fragments := by
  induction fragments with
  | nil => rfl
  | cons f fragments ih =>
    obtain ⟨hfresh, hend⟩ := h f List.mem_cons_self
    have ih := ih fun g hg => h g (List.mem_cons_of_mem f hg)
    rw [shown_cons, List.length_append, ih, total_cons, Fragment.shown_length _ hend, hfresh.chars_eq]

theorem Headed.observed {versions : Global} (h : Headed fragments)
    (hends : ∀ f ∈ fragments, f.endCharacterOffset ≤ f.insertion.text.length)
    (hkeys : ∀ key ∈ keys (Editor.elements fragments), versions.observed key.1 = true) :
    ∀ f ∈ fragments, versions.observed f.insertion.id = true := by
  obtain ⟨first, rest, rfl, -, hinsertion, -, -, hlt⟩ := h
  intro f hf
  cases List.mem_cons.mp hf with
  | inl heq =>
    rw [heq, hinsertion]
    exact Global.observed_base versions
  | inr hmem =>
    apply hkeys (f.insertion.id, f.startCharacterOffset)
    obtain ⟨A, B, rfl⟩ := List.append_of_mem hmem
    have hstart := hlt f hmem
    rw [elements_cons, elements_append, elements_cons, keys_append, keys_append, keys_append,
      Fragment.keys_elements (hends f hf)]
    simp only [List.mem_append, List.mem_map, List.mem_range'_1, Prod.mk.injEq, true_and]
    refine .inr (.inr (.inl ⟨f.startCharacterOffset, ⟨Nat.le_refl _, ?_⟩, rfl⟩))
    rw [Fragment.len]
    omega

theorem Buffer.Coherent.observed_keys (h : b.Coherent) :
    ∀ key ∈ keys (elements b.fragments), b.versions.observed key.1 = true := by
  intro key hkey
  obtain ⟨f, hf, hid⟩ := mem_keys_elements hkey
  rw [← hid]
  exact h.observed f hf

variable (textStyleOperation) in
theorem Buffer.Coherent.updateFragmentStyles (h : b.Coherent) (hall : Disjoint ranges) :
    ∃ fragments insertionSplits,
      b.updateFragmentStyles textStyleOperation ranges = some { b with fragments, insertionSplits } ∧
        ({ b with fragments, insertionSplits } : Buffer).Coherent ∧ elements fragments = elements b.fragments ∧
        shown b.undoHistory fragments = restyle textStyleOperation ranges 0 (shown b.undoHistory b.fragments) := by
  cases ranges with
  | nil =>
    refine ⟨b.fragments, b.insertionSplits, rfl, h, rfl, (restyle_outside ?_).symm⟩
    exact fun _ _ _ _ hmem => absurd hmem List.not_mem_nil
  | cons range ranges =>
    obtain ⟨l, r, heq, hslice, hl, -⟩ := @slice_spec _ Fragment.chars .right range.start 0 b.fragments
    have hne := h.slice_ne_nil range.start
    rw [hslice] at hne
    have hwell := h.wellFormed
    have hhead := h.headed
    have hlisted := h.listed
    rw [heq] at hwell hhead hlisted
    have hpos : total Fragment.chars l ≤ range.start := by
      have hpass := of_decide_eq_true (hl.resolve_left hne)
      omega
    have hstart : StyleOuter b.undoHistory textStyleOperation (range :: ranges) (elements b.fragments)
        (restyle textStyleOperation (range :: ranges) 0 (shown b.undoHistory b.fragments)) b.len
        ⟨l, b.insertionSplits, total Fragment.chars l, r, total Fragment.chars l⟩ (range :: ranges) := by
      have hupcoming : Upcoming (range :: ranges) (range :: ranges) (total Fragment.chars l) := by
        refine ⟨⟨[], rfl, fun _ hmem => absurd hmem List.not_mem_nil⟩, fun next hnext => ?_⟩
        rw [← Option.some.inj hnext]
        exact .inl hpos
      have hbefore : Upcoming (range :: ranges) (range :: ranges) 0 := by
        refine ⟨⟨[], rfl, fun _ hmem => absurd hmem List.not_mem_nil⟩, fun next hnext => ?_⟩
        exact .inl (Nat.zero_le _)
      have hlength : (shown b.undoHistory l).length = total Fragment.chars l :=
        shown_length fun f hf => by
          have hf : f ∈ b.fragments := by rw [heq]; exact List.mem_append_left r hf
          exact ⟨h.wellFormed.fresh f hf, h.ends_le f hf⟩
      refine ⟨⟨hwell, hhead, hne, by rw [heq], ?_⟩, hlisted, ?_, hupcoming⟩
      · dsimp only
        have hahead : restyle textStyleOperation (range :: ranges) 0 (shown b.undoHistory l) =
            shown b.undoHistory l := by
          apply restyle_outside
          intro i hi hi'
          apply hbefore.outside hall hi
          intro next hnext
          rw [← Option.some.inj hnext]
          omega
        rw [heq, shown_append, restyle_append, hahead, hlength, Nat.zero_add]
      · rw [Buffer.len, heq, total_append]
    obtain ⟨s, left, hscan, houter, hend⟩ := styleFragments_spec hall hstart (Nat.le_refl r.length)
    have hlength := houter.length
    have hprogress : StyleProgress b.undoHistory textStyleOperation (range :: ranges) (elements b.fragments)
        (restyle textStyleOperation (range :: ranges) 0 (shown b.undoHistory b.fragments)) (s.newFragments ++ s.rest) []
        (s.cursorStart + total Fragment.chars s.rest) := by
      apply StyleProgress.passAll
      · rw [List.append_nil]
        exact houter.progress
      · intro i hi hi'
        cases hend with
        | inl hnil =>
          have hupcoming := houter.upcoming
          rw [hnil] at hupcoming
          exact hupcoming.outside hall hi fun _ hmem => absurd hmem (Option.not_mem_none _)
        | inr hnil =>
          rw [hnil, total_nil] at hi'
          omega
    have hwell' := hprogress.wellFormed
    have hhead' := hprogress.headed
    have helements := hprogress.elements
    have hshown := hprogress.shown
    rw [List.append_nil] at hwell' hhead' helements
    rw [shown_nil, restyle, List.append_nil] at hshown
    refine ⟨s.newFragments ++ s.rest, s.insertionSplits, ?_, ?_, helements, hshown⟩
    · rw [Buffer.updateFragmentStyles]
      dsimp only
      rw [hslice]
      dsimp only
      rw [hscan, Option.map_some]
      dsimp only
      rw [slice_all hlength.le]
    · refine ⟨hwell', hhead', houter.listed, h.bounded, h.undos, ?_⟩
      apply hhead'.observed fun f hf => hwell'.ends_le hf
      rw [helements]
      exact h.observed_keys

end Result

end InfiniShell.Editor
