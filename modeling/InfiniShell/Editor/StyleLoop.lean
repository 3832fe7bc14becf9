import InfiniShell.Editor.StyleSpec

namespace InfiniShell.Editor

open Collections Collections.ListCursor Crdt

variable {undoHistory : UndoHistory} {textStyleOperation : TextStyleOperation} {all ranges : List Range}
variable {doc : Elements} {target : Styled} {rest : List Fragment} {pos : Nat} {range : Range} {id : Lamport}
variable {splits : InsertionSplits} {tail : List InsertionSplit} {charsToFragmentEnd : Nat}

structure StylingFragment (undoHistory : UndoHistory) (textStyleOperation : TextStyleOperation) (all : List Range)
    (doc : Elements) (target : Styled) (id : Lamport) (splits : InsertionSplits) (rest : List Fragment)
    (tail : List InsertionSplit) (charsToFragmentEnd : Nat) (p : Splice) : Prop where
  insertionId : p.currentFragment.insertion.id = id
  splits : SplitScan id splits p.newSplitTree tail p.newFragments rest
  ends : p.charsToFragmentStart + p.currentFragment.visibleLen undoHistory = charsToFragmentEnd
  progress : StyleProgress undoHistory textStyleOperation all doc target p.newFragments (p.currentFragment :: rest)
    p.charsToFragmentStart

structure StyledFragment (undoHistory : UndoHistory) (textStyleOperation : TextStyleOperation) (all : List Range)
    (doc : Elements) (target : Styled) (id : Lamport) (splits : InsertionSplits) (rest : List Fragment)
    (tail : List InsertionSplit) (charsToFragmentEnd : Nat) (p : Splice) (ranges : List Range) : Prop where
  insertionId : p.currentFragment.insertion.id = id
  splits : SplitScan id splits p.newSplitTree tail p.newFragments rest
  progress : StyleProgress undoHistory textStyleOperation all doc target (p.newFragments ++ [p.currentFragment]) rest
    charsToFragmentEnd
  upcoming : Upcoming all ranges charsToFragmentEnd

section Fragment

variable {p : Splice}

theorem StylingFragment.spliceFragmentAtCharOffset {last : Fragment}
    (h : StylingFragment undoHistory textStyleOperation all doc target id splits rest tail charsToFragmentEnd p)
    (hlast : p.newFragments.getLast? = some last) (hlt : p.charsToFragmentStart < pos) (hlt' : pos < charsToFragmentEnd) :
    ∃ pre suf, Editor.spliceFragmentAtCharOffset p.currentFragment last p.charsToFragmentStart pos = some (pre, suf) ∧
      pre.insertion.id = id ∧ suf.insertion.id = id ∧ p.charsToFragmentStart + pre.visibleLen undoHistory = pos ∧
      pos + suf.visibleLen undoHistory = charsToFragmentEnd ∧
      StyleProgress undoHistory textStyleOperation all doc target p.newFragments (pre :: suf :: rest)
        p.charsToFragmentStart := by
  have hends := h.ends
  have hsome : 0 < p.currentFragment.visibleLen undoHistory := by omega
  obtain ⟨hvisible, hlen⟩ := visible_of_lt hsome
  rw [hlen, Fragment.len] at hends
  have hstop := h.progress.lt
  have hmid : p.currentFragment.startCharacterOffset + (pos - p.charsToFragmentStart) <
      p.currentFragment.endCharacterOffset := by omega
  have hstartLt : p.currentFragment.startCharacterOffset < p.currentFragment.startCharacterOffset +
      (pos - p.charsToFragmentStart) := by omega
  have hsplice := @spliceFragmentAtCharOffset_eq p.currentFragment last p.charsToFragmentStart pos h.progress.end_le hmid.le
    (h.progress.wellFormed.between_eq hlast)
  refine ⟨_, _, hsplice, h.insertionId, h.insertionId, ?_, ?_, h.progress.cut hlast hstartLt hmid⟩
  · rw [Fragment.visibleLen_part (Fragment.partOf_prefixTo _ _ _), if_pos hvisible]
    change p.charsToFragmentStart + (p.currentFragment.startCharacterOffset + (pos - p.charsToFragmentStart) -
      p.currentFragment.startCharacterOffset) = pos
    omega
  · rw [Fragment.visibleLen_part (Fragment.partOf_suffixFrom _ _), if_pos hvisible]
    change pos + (p.currentFragment.endCharacterOffset - (p.currentFragment.startCharacterOffset +
      (pos - p.charsToFragmentStart))) = charsToFragmentEnd
    omega

theorem StylingFragment.maybeSplice (hall : Disjoint all)
    (h : StylingFragment undoHistory textStyleOperation all doc target id splits rest tail charsToFragmentEnd p)
    (hupcoming : Upcoming all (range :: ranges) p.charsToFragmentStart) (hlt : range.start < charsToFragmentEnd) :
    ∃ p', maybeSpliceFragment range p = some p' ∧
      StylingFragment undoHistory textStyleOperation all doc target id splits rest tail charsToFragmentEnd p' ∧
      Upcoming all (range :: ranges) p'.charsToFragmentStart ∧ range.start ≤ p'.charsToFragmentStart ∧
      p'.charsToFragmentStart ≤ range.stop := by
  have hle := hall.le range hupcoming.mem
  by_cases hgt : range.start > p.charsToFragmentStart
  · obtain ⟨last, hlast⟩ := h.progress.exists_last
    obtain ⟨pre, suf, hsplice, hpreId, hsufId, hpre, hsuf, hcut⟩ := h.spliceFragmentAtCharOffset hlast hgt hlt
    rw [maybeSpliceFragment, if_pos hgt, hlast, Option.bind_some, hsplice, Option.map_some]
    have hoff : ∀ i, p.charsToFragmentStart ≤ i → i < p.charsToFragmentStart + pre.visibleLen undoHistory →
        ∀ range ∈ all, ¬range.Contains i := by
      intro i hi hi'
      apply hupcoming.outside hall hi
      intro r hr
      rw [← Option.some.inj hr, ← hpre]
      exact hi'
    have hpass := hcut.pass hoff
    rw [hpre] at hpass
    refine ⟨_, rfl, ⟨hsufId, h.splits.push hpreId, hsuf, hpass⟩, ?_, Nat.le_refl _, hle⟩
    apply hupcoming.advance hgt.le
    intro r hr
    rw [← Option.some.inj hr]
    exact .inl (Nat.le_refl _)
  · refine ⟨p, by rw [maybeSpliceFragment, if_neg hgt], h, hupcoming, Nat.not_lt.mp hgt, ?_⟩
    cases hupcoming.head range rfl with
    | inl hstart => omega
    | inr hwithin => exact hwithin.2.le

theorem StylingFragment.maybeStyle_within (hall : Disjoint all)
    (h : StylingFragment undoHistory textStyleOperation all doc target id splits rest tail charsToFragmentEnd p)
    (hupcoming : Upcoming all (range :: ranges) p.charsToFragmentStart) (hstart : range.start ≤ p.charsToFragmentStart)
    (hle : p.charsToFragmentStart ≤ range.stop) (hlt : range.stop < charsToFragmentEnd) :
    ∃ p', maybeStyleFragment textStyleOperation range charsToFragmentEnd p = some p' ∧
      StylingFragment undoHistory textStyleOperation all doc target id splits rest tail charsToFragmentEnd p' ∧
      Upcoming all ranges p'.charsToFragmentStart := by
  rw [maybeStyleFragment, if_pos hlt]
  by_cases hgt : range.stop > p.charsToFragmentStart
  · obtain ⟨last, hlast⟩ := h.progress.exists_last
    obtain ⟨pre, suf, hsplice, hpreId, hsufId, hpre, hsuf, hcut⟩ := h.spliceFragmentAtCharOffset hlast hgt hlt
    rw [if_pos hgt, hlast]
    dsimp only
    rw [hsplice, Option.map_some]
    have hstyle := hcut.style hupcoming.mem hstart hpre.le
    rw [hpre] at hstyle
    refine ⟨_, rfl, ⟨hsufId, ?_, hsuf, hstyle⟩, hupcoming.next hall hle⟩
    have hpart : (pre.applyTextStyleOperation textStyleOperation).insertion.id = id := hpreId
    exact h.splits.push hpart
  · have heq : range.stop = p.charsToFragmentStart := by omega
    rw [if_neg hgt]
    refine ⟨p, rfl, h, ?_⟩
    rw [← heq]
    exact hupcoming.next hall hle

theorem StylingFragment.maybeStyle_rest
    (h : StylingFragment undoHistory textStyleOperation all doc target id splits rest tail charsToFragmentEnd p)
    (hupcoming : Upcoming all (range :: ranges) p.charsToFragmentStart) (hstart : range.start ≤ p.charsToFragmentStart)
    (hge : ¬range.stop < charsToFragmentEnd) :
    ∃ p', maybeStyleFragment textStyleOperation range charsToFragmentEnd p = some p' ∧
      p'.currentFragment.insertion.id = id ∧ SplitScan id splits p'.newSplitTree tail p'.newFragments rest ∧
      StyleProgress undoHistory textStyleOperation all doc target (p'.newFragments ++ [p'.currentFragment]) rest
        charsToFragmentEnd := by
  have hends := h.ends
  rw [maybeStyleFragment, if_neg hge]
  have hstyle := h.progress.style hupcoming.mem hstart (by omega)
  rw [hends] at hstyle
  exact ⟨_, rfl, h.insertionId, h.splits, hstyle⟩

theorem styleRanges_stop (hno : ∀ range ∈ ranges.head?, charsToFragmentEnd ≤ range.start) :
    styleRanges textStyleOperation charsToFragmentEnd ranges p = some (p, ranges) := by
  cases ranges with
  | nil => rfl
  | cons range ranges => rw [styleRanges, if_neg (Nat.not_lt.mpr (hno range rfl))]

theorem styleRanges_spec (hall : Disjoint all)
    (h : StylingFragment undoHistory textStyleOperation all doc target id splits rest tail charsToFragmentEnd p)
    (hupcoming : Upcoming all ranges p.charsToFragmentStart) :
    ∃ p' left, styleRanges textStyleOperation charsToFragmentEnd ranges p = some (p', left) ∧
      StyledFragment undoHistory textStyleOperation all doc target id splits rest tail charsToFragmentEnd p' left := by
  induction ranges generalizing p with
  | nil =>
    have hpass := h.progress.pass fun i hi _ => hupcoming.outside hall hi nofun
    have hends := h.ends
    rw [hends] at hpass
    exact ⟨p, [], rfl, h.insertionId, h.splits, hpass, hupcoming.advance (by omega) nofun⟩
  | cons range ranges ih =>
    by_cases hlt : range.start < charsToFragmentEnd
    · obtain ⟨p₁, hsplice, h₁, hupcoming₁, hstart, hle⟩ := h.maybeSplice hall hupcoming hlt
      rw [styleRanges, if_pos hlt, hsplice, Option.bind_some]
      by_cases hwithin : range.stop < charsToFragmentEnd
      · obtain ⟨p₂, hstyle, h₂, hupcoming₂⟩ := h₁.maybeStyle_within hall hupcoming₁ hstart hle hwithin
        rw [hstyle, Option.bind_some, if_pos hwithin.le]
        exact ih h₂ hupcoming₂
      · obtain ⟨p₂, hstyle, hid, hsplits, hprogress⟩ := h₁.maybeStyle_rest hupcoming₁ hstart hwithin
        have hends := h₁.ends
        rw [hstyle, Option.bind_some]
        by_cases hend : range.stop = charsToFragmentEnd
        · have hnext := hupcoming₁.next hall hle
          rw [hend] at hnext
          have hno : ∀ next ∈ ranges.head?, charsToFragmentEnd ≤ next.start := by
            intro next hnext'
            cases hnext.head next hnext' with
            | inl hstart => exact hstart
            | inr hwithin' =>
              have hpairwise := hall.stop_le
              obtain ⟨finished, heq, -⟩ := hupcoming.finished
              rw [heq] at hpairwise
              have hlater := (List.pairwise_cons.mp (List.pairwise_append.mp hpairwise).2.1).1 next
                (List.mem_of_mem_head? hnext')
              omega
          rw [if_pos hend.le, styleRanges_stop hno]
          exact ⟨p₂, ranges, rfl, hid, hsplits, hprogress, hnext⟩
        · rw [if_neg (by omega)]
          refine ⟨p₂, range :: ranges, rfl, hid, hsplits, hprogress, hupcoming₁.advance (by omega) ?_⟩
          intro r hr
          rw [← Option.some.inj hr]
          exact .inr ⟨hlt, by omega⟩
    · have hno : ∀ next ∈ (range :: ranges).head?, charsToFragmentEnd ≤ next.start := by
        intro next hnext
        rw [← Option.some.inj hnext]
        exact Nat.not_lt.mp hlt
      have hends := h.ends
      have hpass := h.progress.pass fun i hi hi' => hupcoming.outside hall hi fun r hr => by
        have hstart := hno r hr
        omega
      rw [hends] at hpass
      exact ⟨p, range :: ranges, styleRanges_stop hno, h.insertionId, h.splits, hpass,
        hupcoming.advance (by omega) fun r hr => .inl (hno r hr)⟩

end Fragment

end InfiniShell.Editor
