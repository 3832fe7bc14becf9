import InfiniShell.Editor.LocalEditResult

namespace InfiniShell.Editor

open Collections Collections.ListCursor Crdt

def Fragment.applyTextStyleOperation (f : Fragment) (textStyleOperation : TextStyleOperation) : Fragment :=
  f.setTextStyle (TextStyleOperation.applyTextStyleOperation (f.textStyle.getD {}) textStyleOperation)

section Styles

variable (textStyleOperation : TextStyleOperation)

/-- The fragment, or what of it is in the range if that ends within, gets its style; the error that there is no
fragment before it is swallowed. -/
def maybeStyleFragment (range : Range) (charsToFragmentEnd : Nat) (p : Splice) : Option Splice :=
  if range.stop < charsToFragmentEnd then
    if range.stop > p.charsToFragmentStart then
      match p.newFragments.getLast? with
      | none => some p
      | some lastFragment =>
        (spliceFragmentAtCharOffset p.currentFragment lastFragment p.charsToFragmentStart range.stop).map
          fun spliced => p.pushSpliced (spliced.1.applyTextStyleOperation textStyleOperation) spliced.2 range.stop
    else some p
  else some { p with currentFragment := p.currentFragment.applyTextStyleOperation textStyleOperation }

def styleRanges (charsToFragmentEnd : Nat) : List Range → Splice → Option (Splice × List Range)
  | [], p => some (p, [])
  | range :: ranges, p =>
    if range.start < charsToFragmentEnd then
      (maybeSpliceFragment range p).bind fun p =>
        (maybeStyleFragment textStyleOperation range charsToFragmentEnd p).bind fun p =>
          if range.stop ≤ charsToFragmentEnd then styleRanges charsToFragmentEnd ranges p else some (p, range :: ranges)
    else some (p, range :: ranges)

structure StyleScan where
  newFragments : List Fragment
  insertionSplits : InsertionSplits
  cursorStart : Nat
  rest : List Fragment
  fragmentEnd : Nat

variable (undoHistory : UndoHistory)

def styleIntermediateFragments (range : Range) (newFragments : List Fragment) (insertionSplits : InsertionSplits)
    (cursorStart fragmentEnd : Nat) : List Fragment → Bool × StyleScan
  | [] => (false, ⟨newFragments, insertionSplits, cursorStart, [], fragmentEnd⟩)
  | fragment :: rest =>
    let fragmentEnd := cursorStart + fragment.visibleLen undoHistory
    if range.start < cursorStart ∧ range.stop ≥ fragmentEnd then
      if range.stop = fragmentEnd then
        (true, ⟨newFragments ++ [fragment.applyTextStyleOperation textStyleOperation], insertionSplits, cursorStart + fragment.chars, rest, fragmentEnd⟩)
      else
        styleIntermediateFragments range (newFragments ++ [fragment.applyTextStyleOperation textStyleOperation])
          insertionSplits (cursorStart + fragment.chars) fragmentEnd rest
    else (false, ⟨newFragments, insertionSplits, cursorStart, fragment :: rest, fragmentEnd⟩)

def StyleScan.seekRange (s : StyleScan) : List Range → StyleScan
  | [] => s
  | range :: _ =>
    if range.start > s.fragmentEnd then
      let sliced := slice Fragment.chars .right range.start s.cursorStart s.rest
      { s with
        newFragments := s.newFragments ++ sliced.1
        cursorStart := s.cursorStart + total Fragment.chars sliced.1
        rest := sliced.2 }
    else s

def styleCovered (s : StyleScan) : List Range → StyleScan × List Range
  | [] => (s, [])
  | range :: ranges =>
    let styled := styleIntermediateFragments textStyleOperation undoHistory range s.newFragments s.insertionSplits
      s.cursorStart s.fragmentEnd s.rest
    let ranges := if styled.1 then ranges else range :: ranges
    (styled.2.seekRange ranges, ranges)

def styleFragment (fragment : Fragment) (s : StyleScan) (ranges : List Range) : Option (StyleScan × List Range) :=
  (s.insertionSplits.get fragment.insertion.id).bind fun oldSplitTree =>
    let charsToFragmentEnd := s.cursorStart + fragment.visibleLen undoHistory
    let around := splitsAround fragment oldSplitTree
    (styleRanges textStyleOperation charsToFragmentEnd ranges ⟨s.newFragments, fragment, around.1, s.cursorStart⟩).map fun styled =>
      let p := styled.1
      styleCovered textStyleOperation undoHistory
        { newFragments := p.newFragments ++ [p.currentFragment]
          insertionSplits := s.insertionSplits.insert p.currentFragment.insertion.id
            (p.newSplitTree ++ [p.currentFragment.split] ++ around.2)
          cursorStart := s.cursorStart + fragment.chars
          rest := s.rest.tail
          fragmentEnd := charsToFragmentEnd } styled.2

def styleFragments : Nat → StyleScan → List Range → Option (StyleScan × List Range)
  | 0, s, ranges => some (s, ranges)
  | fuel + 1, s, ranges =>
    match ranges, s.rest with
    | [], _ => some (s, ranges)
    | _, [] => some (s, ranges)
    | range :: ranges, fragment :: _ =>
      (styleFragment textStyleOperation undoHistory fragment s (range :: ranges)).bind fun next => styleFragments fuel next.1 next.2

end Styles

namespace Buffer

def updateFragmentStyles (b : Buffer) (textStyleOperation : TextStyleOperation) : List Range → Option Buffer
  | [] => some b
  | range :: ranges =>
    let sliced := slice Fragment.chars .right range.start 0 b.fragments
    let pos := total Fragment.chars sliced.1
    (styleFragments textStyleOperation b.undoHistory sliced.2.length ⟨sliced.1, b.insertionSplits, pos, sliced.2, pos⟩
      (range :: ranges)).map fun styled =>
        let s := styled.1
        { b with
          fragments := s.newFragments ++ (slice Fragment.chars .right b.len s.cursorStart s.rest).1
          insertionSplits := s.insertionSplits }

def updateStyles (b : Buffer) (oldRanges : List Range) (textStyleOperation : TextStyleOperation) : Option Buffer :=
  b.updateFragmentStyles textStyleOperation (oldRanges.filter fun oldRange => decide (oldRange.stop > oldRange.start))

end Buffer

abbrev Styled := List (Char × Option TextStyle)

def Fragment.shown (undoHistory : UndoHistory) (f : Fragment) : Styled :=
  if f.isVisibleIn undoHistory then f.text.map fun c => (c, f.textStyle) else []

def shown (undoHistory : UndoHistory) (fragments : List Fragment) : Styled :=
  fragments.flatMap (Fragment.shown undoHistory)

def Range.Contains (range : Range) (offset : Nat) : Prop := range.start ≤ offset ∧ offset < range.stop

instance (range : Range) (offset : Nat) : Decidable (range.Contains offset) := by
  unfold Range.Contains
  infer_instance

def restyle (textStyleOperation : TextStyleOperation) (ranges : List Range) : Nat → Styled → Styled
  | _, [] => []
  | offset, (c, style) :: l =>
    (c, if ∃ range ∈ ranges, range.Contains offset then
      some (TextStyleOperation.applyTextStyleOperation (style.getD {}) textStyleOperation) else style) ::
      restyle textStyleOperation ranges (offset + 1) l

/-- Sorted, and none begins before the one before it has ended. -/
structure Disjoint (ranges : List Range) : Prop where
  le : ∀ range ∈ ranges, range.start ≤ range.stop
  stop_le : ranges.Pairwise fun a b => a.stop ≤ b.start

theorem Disjoint.filter {ranges : List Range} (h : Disjoint ranges) (keep : Range → Bool) :
    Disjoint (ranges.filter keep) :=
  ⟨fun range hmem => h.le range (List.mem_filter.mp hmem).1, h.stop_le.sublist List.filter_sublist⟩

section Restyle

variable {undoHistory : UndoHistory} {textStyleOperation : TextStyleOperation} {ranges : List Range} {offset : Nat}
variable {f part : Fragment}

@[simp] theorem shown_nil : shown undoHistory [] = [] := rfl

@[simp] theorem shown_cons (fragments : List Fragment) :
    shown undoHistory (f :: fragments) = f.shown undoHistory ++ shown undoHistory fragments := List.flatMap_cons ..

@[simp] theorem shown_append (l r : List Fragment) :
    shown undoHistory (l ++ r) = shown undoHistory l ++ shown undoHistory r := List.flatMap_append ..

theorem restyle_append (l r : Styled) :
    restyle textStyleOperation ranges offset (l ++ r) =
      restyle textStyleOperation ranges offset l ++ restyle textStyleOperation ranges (offset + l.length) r := by
  induction l generalizing offset with
  | nil => rfl
  | cons c l ih =>
    obtain ⟨c, style⟩ := c
    have heq : offset + ((c, style) :: l).length = offset + 1 + l.length := by
      rw [List.length_cons]
      omega
    rw [List.cons_append, restyle, restyle, ih, heq, List.cons_append]

theorem restyle_outside {l : Styled} (h : ∀ i, offset ≤ i → i < offset + l.length → ∀ range ∈ ranges, ¬range.Contains i) :
    restyle textStyleOperation ranges offset l = l := by
  induction l generalizing offset with
  | nil => rfl
  | cons c l ih =>
    obtain ⟨c, style⟩ := c
    have hnone : ¬∃ range ∈ ranges, range.Contains offset := by
      intro hsome
      obtain ⟨range, hrange, hcontains⟩ := hsome
      exact h offset (Nat.le_refl _) (by simp) range hrange hcontains
    have hrest : restyle textStyleOperation ranges (offset + 1) l = l := by
      apply ih
      intro i hi hi'
      refine h i (by omega) ?_
      rw [List.length_cons]
      omega
    rw [restyle, if_neg hnone, hrest]

variable (undoHistory) in
theorem Fragment.shown_length (hend : f.endCharacterOffset ≤ f.insertion.text.length) :
    (f.shown undoHistory).length = f.visibleLen undoHistory := by
  rw [Fragment.shown, Fragment.visibleLen]
  split
  next => rw [List.length_map, Fragment.length_text hend]
  next => rfl

theorem restyle_inside {range : Range} (hmem : range ∈ ranges) (hle : range.start ≤ offset)
    (hstop : offset + f.visibleLen undoHistory ≤ range.stop) (hend : f.endCharacterOffset ≤ f.insertion.text.length) :
    restyle textStyleOperation ranges offset (f.shown undoHistory) =
      (f.applyTextStyleOperation textStyleOperation).shown undoHistory := by
  have hvisible : (f.applyTextStyleOperation textStyleOperation).isVisibleIn undoHistory = f.isVisibleIn undoHistory :=
    rfl
  have htext : (f.applyTextStyleOperation textStyleOperation).text = f.text := rfl
  have hlength := Fragment.shown_length undoHistory hend
  rw [← hlength] at hstop
  rw [Fragment.shown] at hstop
  rw [Fragment.shown, Fragment.shown, hvisible, htext]
  split
  next hshown =>
    rw [if_pos hshown] at hstop
    generalize f.text = text at hstop ⊢
    induction text generalizing offset with
    | nil => rfl
    | cons c text ih =>
      rw [List.map_cons, List.length_cons] at hstop
      have hcontains : ∃ range ∈ ranges, range.Contains offset := ⟨range, hmem, hle, by omega⟩
      have hrest := @ih (offset + 1) (by omega) (by omega)
      rw [List.map_cons, restyle, if_pos hcontains, hrest]
      rfl
  next => rfl

theorem Fragment.shown_cut {prev : Fragment} {mid : Nat} (hle : f.startCharacterOffset ≤ mid)
    (hle' : mid ≤ f.endCharacterOffset) (hend : f.endCharacterOffset ≤ f.insertion.text.length) :
    (f.prefixTo prev mid).shown undoHistory ++ (f.suffixFrom mid).shown undoHistory = f.shown undoHistory := by
  have hvalues : ∀ g : Fragment, g.elements.map Element.value = g.text := fun g => by
    rw [Fragment.elements, List.map_map]
    exact map_value_runFrom _ _ _
  have htext : (f.prefixTo prev mid).text ++ (f.suffixFrom mid).text = f.text := by
    rw [← hvalues, ← hvalues, ← hvalues, ← List.map_append, Fragment.elements_cutAt hle hle' hend]
  have hpre : (f.prefixTo prev mid).isVisibleIn undoHistory = f.isVisibleIn undoHistory := rfl
  have hsuf : (f.suffixFrom mid).isVisibleIn undoHistory = f.isVisibleIn undoHistory := rfl
  rw [Fragment.shown, Fragment.shown, Fragment.shown, hpre, hsuf, ← htext]
  split
  next =>
    rw [List.map_append]
    rfl
  next => rfl

end Restyle

/-- The scan of an update of styles: the characters are `doc` as before, what is shown becomes `target`. -/
structure StyleProgress (undoHistory : UndoHistory) (textStyleOperation : TextStyleOperation) (all : List Range)
    (doc : Elements) (target : Styled) (new ahead : List Fragment) (pos : Nat) : Prop where
  wellFormed : WellFormed (new ++ ahead) undoHistory
  headed : Headed (new ++ ahead)
  started : new ≠ []
  elements : elements (new ++ ahead) = doc
  shown : shown undoHistory new ++ restyle textStyleOperation all pos (Editor.shown undoHistory ahead) = target

/-- The ranges that are left at an offset; it may be within the first of them. -/
structure Upcoming (all ranges : List Range) (pos : Nat) : Prop where
  finished : ∃ finished, all = finished ++ ranges ∧ ∀ range ∈ finished, range.stop ≤ pos
  head : ∀ range ∈ ranges.head?, pos ≤ range.start ∨ range.start < pos ∧ pos < range.stop

namespace Upcoming

variable {all ranges : List Range} {range : Range} {pos : Nat}

theorem mem (h : Upcoming all (range :: ranges) pos) : range ∈ all := by
  obtain ⟨finished, heq, -⟩ := h.finished
  rw [heq]
  exact List.mem_append_right finished List.mem_cons_self

theorem outside (h : Upcoming all ranges pos) (hall : Disjoint all) {i : Nat} (hi : pos ≤ i)
    (hbefore : ∀ range ∈ ranges.head?, i < range.start) : ∀ range ∈ all, ¬range.Contains i := by
  intro r hr hcontains
  obtain ⟨finished, heq, hfinished⟩ := h.finished
  rw [heq] at hr
  cases List.mem_append.mp hr with
  | inl hr =>
    have hstop := hfinished r hr
    have hlt := hcontains.2
    omega
  | inr hr =>
    cases ranges with
    | nil => exact absurd hr List.not_mem_nil
    | cons range ranges =>
      have hfirst := hbefore range rfl
      have hstart := hcontains.1
      cases List.mem_cons.mp hr with
      | inl heq =>
        rw [heq] at hstart
        omega
      | inr hr =>
        have hpairwise := hall.stop_le
        rw [heq] at hpairwise
        have hlater := (List.pairwise_cons.mp (List.pairwise_append.mp hpairwise).2.1).1 r hr
        have hle := hall.le range h.mem
        omega

theorem next (h : Upcoming all (range :: ranges) pos) (hall : Disjoint all) (hle : pos ≤ range.stop) :
    Upcoming all ranges range.stop := by
  obtain ⟨finished, heq, hfinished⟩ := h.finished
  refine ⟨⟨finished ++ [range], by rw [heq, List.append_assoc, List.singleton_append], ?_⟩, ?_⟩
  · intro r hr
    cases List.mem_append.mp hr with
    | inl hr => exact (hfinished r hr).trans hle
    | inr hr => rw [List.mem_singleton.mp hr]
  · intro r hr
    have hpairwise := hall.stop_le
    rw [heq] at hpairwise
    exact .inl ((List.pairwise_cons.mp (List.pairwise_append.mp hpairwise).2.1).1 r (List.mem_of_mem_head? hr))

theorem advance (h : Upcoming all ranges pos) {pos' : Nat} (hle : pos ≤ pos')
    (hhead : ∀ range ∈ ranges.head?, pos' ≤ range.start ∨ range.start < pos' ∧ pos' < range.stop) :
    Upcoming all ranges pos' := by
  obtain ⟨finished, heq, hfinished⟩ := h.finished
  exact ⟨⟨finished, heq, fun range hrange => (hfinished range hrange).trans hle⟩, hhead⟩

end Upcoming

section Progress

variable {undoHistory : UndoHistory} {textStyleOperation : TextStyleOperation} {all ranges : List Range}
variable {doc : Elements} {target : Styled} {new rest ahead : List Fragment} {f last : Fragment} {pos mid : Nat}
variable {range : Range}

namespace StyleProgress

theorem end_le (h : StyleProgress undoHistory textStyleOperation all doc target new (f :: rest) pos) :
    f.endCharacterOffset ≤ f.insertion.text.length := h.wellFormed.end_le

theorem exists_last (h : StyleProgress undoHistory textStyleOperation all doc target new ahead pos) :
    ∃ last, new.getLast? = some last := ⟨new.getLast h.started, List.getLast?_eq_some_getLast h.started⟩

variable (h : StyleProgress undoHistory textStyleOperation all doc target new (f :: rest) pos)
include h

theorem lt : f.startCharacterOffset < f.endCharacterOffset := h.headed.lt h.started List.mem_cons_self

theorem chars_eq : f.chars = f.visibleLen undoHistory :=
  (h.wellFormed.fresh f (List.mem_append_right new List.mem_cons_self)).chars_eq

theorem pass
    (houtside : ∀ i, pos ≤ i → i < pos + f.visibleLen undoHistory → ∀ range ∈ all, ¬range.Contains i) :
    StyleProgress undoHistory textStyleOperation all doc target (new ++ [f]) rest (pos + f.visibleLen undoHistory) := by
  have heq : new ++ [f] ++ rest = new ++ f :: rest := by simp
  have hlength := Fragment.shown_length undoHistory h.end_le
  refine ⟨heq ▸ h.wellFormed, heq ▸ h.headed, by simp, heq ▸ h.elements, ?_⟩
  rw [← h.shown, shown_append, shown_cons, shown_cons, shown_nil, List.append_nil, restyle_append,
    restyle_outside (l := f.shown undoHistory), hlength, List.append_assoc]
  rw [hlength]
  exact houtside

theorem style (hmem : range ∈ all)
    (hle : range.start ≤ pos) (hstop : pos + f.visibleLen undoHistory ≤ range.stop) :
    StyleProgress undoHistory textStyleOperation all doc target (new ++ [f.applyTextStyleOperation textStyleOperation])
      rest (pos + f.visibleLen undoHistory) := by
  have heq : new ++ [f.applyTextStyleOperation textStyleOperation] ++ rest =
      new ++ f.applyTextStyleOperation textStyleOperation :: rest := by simp
  have hlength := Fragment.shown_length undoHistory h.end_le
  have hfresh := (h.wellFormed.fresh f (List.mem_append_right new List.mem_cons_self)).congr
    (g := f.applyTextStyleOperation textStyleOperation) rfl rfl rfl rfl
  refine ⟨?_, ?_, by simp, ?_, ?_⟩
  · rw [heq]
    exact h.wellFormed.replace rfl rfl rfl rfl hfresh
  · rw [heq]
    apply h.headed.replace h.started
    intro g hg
    cases List.mem_cons.mp hg with
    | inl hf =>
      rw [hf]
      exact h.lt
    | inr hg => exact h.headed.lt h.started (List.mem_cons_of_mem f hg)
  · rw [heq, elements_append, elements_cons]
    have helements := h.elements
    rw [elements_append, elements_cons] at helements
    exact helements
  · rw [← h.shown, shown_append, shown_cons, shown_cons, shown_nil, List.append_nil, restyle_append,
      restyle_inside hmem hle hstop h.end_le, hlength, List.append_assoc]

theorem cut
    (hlast : new.getLast? = some last) (hlt : f.startCharacterOffset < mid) (hlt' : mid < f.endCharacterOffset) :
    StyleProgress undoHistory textStyleOperation all doc target new (f.prefixTo last mid :: f.suffixFrom mid :: rest)
      pos := by
  refine ⟨h.wellFormed.cutAt hlast hlt.le hlt'.le, h.headed.cutAt h.started hlt hlt', h.started, ?_, ?_⟩
  · have helements := h.elements
    rw [elements_append, elements_cons, ← @Fragment.elements_cutAt f last mid hlt.le hlt'.le h.end_le] at helements
    simpa only [elements_append, elements_cons, List.append_assoc] using helements
  · have hshown := h.shown
    rw [shown_cons, ← @Fragment.shown_cut undoHistory f last mid hlt.le hlt'.le h.end_le] at hshown
    simpa only [shown_cons, List.append_assoc] using hshown

end StyleProgress

end Progress

end InfiniShell.Editor
