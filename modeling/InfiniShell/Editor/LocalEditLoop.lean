import InfiniShell.Editor.LocalEditSpec

namespace InfiniShell.Editor

open Collections Collections.ListCursor Crdt

variable {undoHistory : UndoHistory} {newText : Option (List Char)} {textStyle : Option TextStyle} {p₀ : Progress}
variable {all ranges : List Range}
variable {id : Lamport} {rest : List Fragment} {tail : List InsertionSplit} {charsToFragmentEnd : Nat}

structure FragmentDone (undoHistory : UndoHistory) (newText : Option (List Char)) (p₀ : Progress) (all : List Range)
    (id : Lamport) (rest : List Fragment) (tail : List InsertionSplit) (charsToFragmentEnd : Nat)
    (f : FragmentScan) (ranges : List Range) : Prop where
  insertionId : f.currentFragment.insertion.id = id
  splits : SplitScan id f.insertionSplits f.newSplitTree tail f.newFragments rest
  state : ScanState undoHistory newText p₀ all f.toEditScan (f.newFragments ++ [f.currentFragment]) rest
    charsToFragmentEnd ranges

variable {f : FragmentScan}

theorem fragmentDone_of_between (hin : InFragment undoHistory id f rest tail charsToFragmentEnd)
    (h : ScanState undoHistory newText p₀ all f.toEditScan f.newFragments (f.currentFragment :: rest)
      f.charsToFragmentStart ranges) (hno : ∀ range ∈ ranges.head?, charsToFragmentEnd ≤ range.start) :
    FragmentDone undoHistory newText p₀ all id rest tail charsToFragmentEnd f ranges := by
  refine ⟨hin.insertionId, hin.splits, ?_⟩
  have hends := hin.ends
  cases h with
  | done p hsteps hbetween hclock hversions =>
    have hpass := hbetween.pass
    rw [(hbetween.fresh List.mem_cons_self).chars_eq, hends] at hpass
    exact .done p hsteps hpass hclock hversions
  | between p finished range ranges hall hsteps hbetween hticked hargs hle =>
    have hpass := hbetween.pass
    rw [(hbetween.fresh List.mem_cons_self).chars_eq, hends] at hpass
    exact .between p finished range ranges hall hsteps hpass hticked hargs (hno range rfl)
  | opened p finished range ranges A M hall hsteps hopened hticked hargs hstart hlow hhigh =>
    have hle := hno range rfl
    omega

theorem scanRanges_stop (hno : ∀ range ∈ ranges.head?, charsToFragmentEnd ≤ range.start) :
    scanRanges newText textStyle undoHistory charsToFragmentEnd ranges f = some (f, ranges) := by
  cases ranges with
  | nil => rfl
  | cons range ranges => rw [scanRanges, if_neg (Nat.not_lt.mpr (hno range rfl))]

@[simp] theorem EditScan.nextRange_newFragments (s : EditScan) :
    (s.nextRange newText ranges).newFragments = s.newFragments := by
  rw [nextRange]
  split
  · rfl
  · rfl

@[simp] theorem EditScan.nextRange_insertionSplits (s : EditScan) :
    (s.nextRange newText ranges).insertionSplits = s.insertionSplits := by
  rw [nextRange]
  split
  · rfl
  · rfl

theorem Sorted.next_start {finished : List Range} {range : Range} (h : Sorted all)
    (hall : all = finished ++ range :: ranges) : ∀ next ∈ ranges, range.stop < next.start := by
  have hpairwise := h.lt
  rw [hall] at hpairwise
  exact (List.pairwise_cons.mp (List.pairwise_append.mp hpairwise).2.1).1

theorem scanRanges_spec (htext : ∀ text ∈ newText, text ≠ []) (hsorted : Sorted all)
    (hin : InFragment undoHistory id f rest tail charsToFragmentEnd)
    (h : ScanState undoHistory newText p₀ all f.toEditScan f.newFragments (f.currentFragment :: rest)
      f.charsToFragmentStart ranges) :
    ∃ f' left, scanRanges newText textStyle undoHistory charsToFragmentEnd ranges f = some (f', left) ∧
      FragmentDone undoHistory newText p₀ all id rest tail charsToFragmentEnd f' left := by
  induction ranges generalizing f with
  | nil => exact ⟨f, [], rfl, fragmentDone_of_between hin h nofun⟩
  | cons range ranges ih =>
    by_cases hlt : range.start < charsToFragmentEnd
    · obtain ⟨f₁, p, finished, A, M, hmid, hall, hsteps, hin₁, hrange⟩ := midRange_spec htext hsorted hin h hlt
      obtain ⟨last, hlast⟩ := hrange.opened.exists_last
      have hscan : scanRange newText textStyle undoHistory range charsToFragmentEnd f =
          maybeMarkFragmentAsDeleted undoHistory range charsToFragmentEnd last f₁ := by
        have hassoc : scanRange newText textStyle undoHistory range charsToFragmentEnd f =
            (((maybeSpliceFragment range f.splice).map f.withSplice).bind fun f =>
              (updateEndAtBoundary range charsToFragmentEnd f).bind fun f =>
                insertAtBoundary newText textStyle undoHistory range f).bind fun f =>
                  f.newFragments.getLast?.bind fun lastFragment =>
                  maybeMarkFragmentAsDeleted undoHistory range charsToFragmentEnd lastFragment f := by
          rw [scanRange, Option.bind_assoc]
          simp only [Option.bind_assoc]
        rw [hassoc, hmid, Option.bind_some, hlast, Option.bind_some]
      have hnext : ∀ next ∈ ranges, range.stop < next.start := hsorted.next_start hall
      rw [scanRanges, if_pos hlt, hscan]
      by_cases hwithin : range.stop < charsToFragmentEnd
      · obtain ⟨f₂, M', hmark, hin₂, hops, hticked, hopened, hpos, hargs, hstart, hstop⟩ :=
          hrange.markWithin hin₁ hlast hwithin
        rw [← hops] at hsteps
        obtain ⟨s', hpush, hs', hstate⟩ := closeRange_spec hall hsorted hsteps hopened hticked hargs hstart hstop
        rw [hmark, Option.bind_some, if_pos hwithin.le, hpush, Option.bind_some]
        apply ih
        · refine ⟨hin₂.insertionId, ?_, hin₂.ends⟩
          simp only [FragmentScan.withScan, EditScan.nextRange_newFragments, EditScan.nextRange_insertionSplits]
          rw [hs']
          exact hin₂.splits
        · have hnew : (f₂.withScan (s'.nextRange newText ranges)).newFragments = f₂.newFragments := by
            simp only [FragmentScan.withScan, EditScan.nextRange_newFragments]
            rw [hs']
          rw [hnew]
          show ScanState undoHistory newText p₀ all (s'.nextRange newText ranges) _ _ f₂.charsToFragmentStart _
          rw [hpos]
          exact hstate
      · obtain ⟨f₂, M', hmark, hid, hsplits, hops, hticked, hopened, hargs, hstart, hstop⟩ :=
          hrange.markRest last hin₁ hwithin
        rw [← hops] at hsteps
        rw [hmark, Option.bind_some]
        by_cases hend : range.stop = charsToFragmentEnd
        · rw [← hend] at hopened
          obtain ⟨s', hpush, hs', hstate⟩ :=
            closeRange_spec hall hsorted hsteps hopened hticked hargs hstart (hstop hend)
          have hno : ∀ next ∈ ranges.head?, charsToFragmentEnd ≤ next.start := fun next hmem => by
            have hlater := hnext next (List.mem_of_mem_head? hmem)
            omega
          rw [if_pos hend.le, hpush, Option.bind_some, scanRanges_stop hno]
          refine ⟨_, _, rfl, hid, ?_, ?_⟩
          · simp only [FragmentScan.withScan, EditScan.nextRange_newFragments, EditScan.nextRange_insertionSplits]
            rw [hs']
            exact hsplits
          · have hnew : (f₂.withScan (s'.nextRange newText ranges)).newFragments = f₂.newFragments := by
              simp only [FragmentScan.withScan, EditScan.nextRange_newFragments]
              rw [hs']
            rw [hnew, ← hend]
            exact hstate
        · have hpast : charsToFragmentEnd < range.stop := by omega
          rw [if_neg (by omega)]
          exact ⟨_, _, rfl, hid, hsplits, .opened p finished range ranges A M' hall hsteps hopened hticked hargs hstart
            hlt hpast⟩
    · have hno : ∀ next ∈ (range :: ranges).head?, charsToFragmentEnd ≤ next.start := by
        rintro next ⟨⟩
        exact Nat.not_lt.mp hlt
      exact ⟨f, range :: ranges, scanRanges_stop hno, fragmentDone_of_between hin h hno⟩

theorem ScanState.congr {s s' : EditScan} {new ahead : List Fragment} {pos : Nat}
    (h : ScanState undoHistory newText p₀ all s new ahead pos ranges) (hops : s'.ops = s.ops)
    (hclock : s'.lamportClock = s.lamportClock) (hversions : s'.versions = s.versions) (hversion : s'.version = s.version)
    (hargs : s'.operationEditArgs = s.operationEditArgs) :
    ScanState undoHistory newText p₀ all s' new ahead pos ranges := by
  cases h with
  | done p hsteps hbetween hc hv => exact .done p (hops ▸ hsteps) hbetween (hclock.trans hc) (hversions.trans hv)
  | between p finished range ranges hall hsteps hbetween hticked ha hle =>
    exact .between p finished range ranges hall (hops ▸ hsteps) hbetween
      ⟨hclock.trans hticked.lamportClock, hversions.trans hticked.versions, hversion.trans hticked.version⟩
      (hargs.trans ha) hle
  | opened p finished range ranges A M hall hsteps hopened hticked ha hstart hlow hhigh =>
    exact .opened p finished range ranges A M hall (hops ▸ hsteps) hopened
      ⟨hclock.trans hticked.lamportClock, hversions.trans hticked.versions, hversion.trans hticked.version⟩
      (hargs ▸ ha) (hargs ▸ hstart) hlow hhigh

/-- The scan between two fragments of the buffer, which has `len` characters. -/
structure OuterScan (undoHistory : UndoHistory) (newText : Option (List Char)) (p₀ : Progress) (all : List Range)
    (len : Nat) (s : EditScan) (cursorStart : Nat) (rest : List Fragment) (ranges : List Range) : Prop where
  state : ScanState undoHistory newText p₀ all s s.newFragments rest cursorStart ranges
  listed : Listed (s.newFragments ++ rest) s.insertionSplits
  length : cursorStart + total Fragment.chars rest = len

section Covered

variable {p : Progress} {finished : List Range} {range : Range} {A : Elements} {len pos fragmentEnd : Nat}

structure Covering (undoHistory : UndoHistory) (newText : Option (List Char)) (p : Progress) (range : Range) (A : Elements)
    (len : Nat) (ops : List EditOperation) (marked : Bool × DeletionScan) : Prop where
  ops : marked.2.ops = ops
  listed : Listed (marked.2.newFragments ++ marked.2.rest) marked.2.insertionSplits
  length : marked.2.cursorStart + total Fragment.chars marked.2.rest = len
  ticked : Ticked p marked.2.toEditScan
  args : ArgsFor newText p marked.2.operationEditArgs
  startsAt : StartsAt p marked.2.operationEditArgs A
  low : range.start < marked.2.cursorStart
  fragmentEnd : marked.2.cursorStart ≤ marked.2.fragmentEnd
  opened : ∃ M, Opened undoHistory newText p marked.2.newFragments marked.2.rest marked.2.cursorStart range A M ∧
    if marked.1 then marked.2.cursorStart = range.stop ∧ marked.2.fragmentEnd = range.stop ∧
      EndsAt p marked.2.operationEditArgs (A ++ M)
    else marked.2.cursorStart < range.stop

variable {s : EditScan}

theorem markFragmentsAsDeleted_spec {M : Elements}
    (h : Opened undoHistory newText p s.newFragments rest pos range A M) (hlow : range.start < pos) (hhigh : pos < range.stop)
    (hticked : Ticked p s) (hargs : ArgsFor newText p s.operationEditArgs) (hstart : StartsAt p s.operationEditArgs A)
    (hlisted : Listed (s.newFragments ++ rest) s.insertionSplits) (hlength : pos + total Fragment.chars rest = len)
    (hend : pos ≤ fragmentEnd) :
    Covering undoHistory newText p range A len s.ops (markFragmentsAsDeleted undoHistory range s pos fragmentEnd rest) ∧
      (markFragmentsAsDeleted undoHistory range s pos fragmentEnd rest).2.rest.length ≤ rest.length := by
  induction rest generalizing s pos fragmentEnd M with
  | nil => exact ⟨⟨rfl, hlisted, hlength, hticked, hargs, hstart, hlow, hend, M, h, hhigh⟩, Nat.le_refl _⟩
  | cons f rest ih =>
    rw [markFragmentsAsDeleted]
    dsimp only
    by_cases hcovers : range.stop ≥ pos + f.visibleLen undoHistory
    · rw [if_pos ⟨hlow, hcovers⟩]
      have hchars := (h.fresh List.mem_cons_self).chars_eq
      have hobserved := h.aheadObserved f List.mem_cons_self
      have hmark := h.mark
      rw [← hargs.lamportTimestamp] at hmark
      have hlisted' : Listed ((s.newFragments ++ [f.markDeletion s.operationEditArgs.lamportTimestamp undoHistory]) ++ rest)
          s.insertionSplits := by
        rw [List.append_assoc, List.singleton_append]
        exact hlisted.congr rfl rfl
      have hlength' : pos + f.chars + total Fragment.chars rest = len := by
        rw [total_cons] at hlength
        omega
      have hend' := h.end_le
      have hlt := h.lt
      by_cases hstop : range.stop = pos + f.visibleLen undoHistory
      · rw [if_pos hstop]
        rw [← hchars] at hmark
        refine ⟨⟨rfl, hlisted', hlength', ⟨hticked.lamportClock, hticked.versions, hticked.version⟩,
          (hargs.observe hobserved).updateEnd, hstart, ?_, ?_, _, hmark, ?_⟩, Nat.le_succ _⟩
        · show range.start < pos + f.chars
          omega
        · show pos + f.chars ≤ pos + f.visibleLen undoHistory
          omega
        · rw [if_pos rfl]
          refine ⟨?_, hstop.symm, _, _, rfl, rfl, ?_, hobserved, fun hzero => absurd hzero (Nat.ne_zero_of_lt hlt)⟩
          · show pos + f.chars = range.stop
            omega
          · exact (Opened.anchorOf_append hend' hlt).symm
      · rw [if_neg hstop]
        rw [← hchars] at hmark
        obtain ⟨hcovering, hshort⟩ := ih (s := { s with
            newFragments := s.newFragments ++ [f.markDeletion s.operationEditArgs.lamportTimestamp undoHistory]
            operationEditArgs := s.operationEditArgs.observe f.insertion.id }) hmark (by omega) (by omega)
          ⟨hticked.lamportClock, hticked.versions, hticked.version⟩ (hargs.observe hobserved) hstart hlisted' hlength'
          (show pos + f.chars ≤ pos + f.visibleLen undoHistory by omega)
        exact ⟨hcovering, hshort.trans (Nat.le_succ _)⟩
    · rw [if_neg fun hboth => hcovers hboth.2]
      exact ⟨⟨rfl, hlisted, hlength, ⟨hticked.lamportClock, hticked.versions, hticked.version⟩, hargs, hstart, hlow,
        Nat.le_add_right _ _, M, h, hhigh⟩, Nat.le_refl _⟩

theorem pushSlice_spec (h : OuterScan undoHistory newText p₀ all len s pos rest (range :: ranges))
    (hle : pos ≤ range.start) :
    OuterScan undoHistory newText p₀ all len (s.pushSlice range pos rest).1 (s.pushSlice range pos rest).2.1
        (s.pushSlice range pos rest).2.2 (range :: ranges) ∧ (s.pushSlice range pos rest).2.2.length ≤ rest.length := by
  obtain ⟨l, r, hrest, hslice, hl, -⟩ := @slice_spec _ Fragment.chars .right range.start pos rest
  have hlisted := h.listed
  have hlength := h.length
  have hstate := h.state
  rw [EditScan.pushSlice, hslice]
  dsimp only
  subst hrest
  refine ⟨⟨?_, ?_, ?_⟩, by simp⟩
  · have hpast : pos + total Fragment.chars l ≤ range.start := by
      cases hl with
      | inl hnil => rw [hnil, total_nil]; exact hle
      | inr hpass => exact of_decide_eq_true hpass
    cases hstate with
    | between p finished _ _ hall hsteps hbetween hticked hargs _ =>
      exact .between p finished range ranges hall hsteps hbetween.passAll
        ⟨hticked.lamportClock, hticked.versions, hticked.version⟩ hargs hpast
    | opened p finished _ _ A M hall hsteps hopened hticked hargs hstart hlow hhigh => omega
  · rw [List.append_assoc]
    exact hlisted
  · rw [total_append] at hlength
    omega

theorem seekRange_spec (h : OuterScan undoHistory newText p₀ all len s pos rest ranges)
    (hend : pos ≤ fragmentEnd) :
    ∃ s' pos' rest', (match ranges with
        | [] => (s, pos, rest, [])
        | range :: ranges =>
          if range.start > fragmentEnd then
            ((s.pushSlice range pos rest).1, (s.pushSlice range pos rest).2.1, (s.pushSlice range pos rest).2.2, range :: ranges)
          else (s, pos, rest, range :: ranges)) = (s', pos', rest', ranges) ∧
      OuterScan undoHistory newText p₀ all len s' pos' rest' ranges ∧ rest'.length ≤ rest.length := by
  cases ranges with
  | nil => exact ⟨s, pos, rest, rfl, h, Nat.le_refl _⟩
  | cons range ranges =>
    by_cases hpast : range.start > fragmentEnd
    · obtain ⟨hscan, hshort⟩ := pushSlice_spec h (hend.trans hpast.le)
      exact ⟨_, _, _, if_pos hpast, hscan, hshort⟩
    · exact ⟨s, pos, rest, if_neg hpast, h, Nat.le_refl _⟩

theorem markFragmentsAsDeleted_before (undoHistory : UndoHistory) (fragmentEnd : Nat) (rest : List Fragment)
    (s : EditScan) (h : pos ≤ range.start) :
    ∃ fragmentEnd', markFragmentsAsDeleted undoHistory range s pos fragmentEnd rest =
      (false, { s with rest := rest, cursorStart := pos, fragmentEnd := fragmentEnd' }) ∧
      (pos ≤ fragmentEnd → pos ≤ fragmentEnd') := by
  cases rest with
  | nil => exact ⟨fragmentEnd, rfl, id⟩
  | cons f rest =>
    have hno : ¬(range.start < pos ∧ range.stop ≥ pos + f.visibleLen undoHistory) := fun hboth => by omega
    refine ⟨pos + f.visibleLen undoHistory, ?_, fun _ => Nat.le_add_right _ _⟩
    rw [markFragmentsAsDeleted]
    exact if_neg hno

theorem scanCovered_spec (hsorted : Sorted all)
    (h : OuterScan undoHistory newText p₀ all len s pos rest ranges) (hend : fragmentEnd = pos) :
    ∃ s' pos' rest' ranges', scanCovered newText undoHistory s pos fragmentEnd rest ranges = some (s', pos', rest', ranges') ∧
      OuterScan undoHistory newText p₀ all len s' pos' rest' ranges' ∧ rest'.length ≤ rest.length := by
  have hstate := h.state
  cases ranges with
  | nil => exact ⟨s, pos, rest, [], rfl, h, Nat.le_refl _⟩
  | cons range ranges =>
    rw [scanCovered]
    cases hstate with
    | between p finished _ _ hall hsteps hbetween hticked hargs hle =>
      obtain ⟨fragmentEnd', hmarked, hend'⟩ := markFragmentsAsDeleted_before undoHistory fragmentEnd rest s hle
      rw [hmarked]
      obtain ⟨s', pos', rest', heq, hscan, hshort⟩ := seekRange_spec h (hend' hend.ge)
      refine ⟨s', pos', rest', range :: ranges, ?_, hscan, hshort⟩
      rw [← heq]
      rfl
    | opened p finished _ _ A M hall hsteps hopened hticked hargs hstart hlow hhigh =>
      obtain ⟨hcovering, hshort⟩ := markFragmentsAsDeleted_spec hopened hlow hhigh hticked hargs hstart h.listed h.length
        hend.ge
      generalize markFragmentsAsDeleted undoHistory range s pos fragmentEnd rest = marked at hcovering hshort
      obtain ⟨M', hopened', hends⟩ := hcovering.opened
      have hsteps' : LocalSteps undoHistory newText p₀ finished marked.2.ops p := hcovering.ops ▸ hsteps
      cases hmarked : marked.1 with
      | true =>
        rw [hmarked, if_pos rfl] at hends
        obtain ⟨hpos, hfragmentEnd, hstop⟩ := hends
        rw [hpos] at hopened'
        obtain ⟨s', hpush, hs', hnext⟩ :=
          closeRange_spec hall hsorted hsteps' hopened' hcovering.ticked hcovering.args hcovering.startsAt hstop
        have houter : OuterScan undoHistory newText p₀ all len (s'.nextRange newText ranges) marked.2.cursorStart
            marked.2.rest ranges := by
          refine ⟨?_, ?_, hcovering.length⟩
          · rw [EditScan.nextRange_newFragments, hs', hpos]
            rw [hs'] at hnext
            exact hnext
          · rw [EditScan.nextRange_newFragments, EditScan.nextRange_insertionSplits, hs']
            exact hcovering.listed
        obtain ⟨s'', pos', rest', heq, hscan, hshort'⟩ := seekRange_spec houter hcovering.fragmentEnd
        refine ⟨s'', pos', rest', ranges, ?_, hscan, hshort'.trans hshort⟩
        rw [← heq]
        cases ranges <;> simp only [if_true, hpush, Option.map_some]
      | false =>
        rw [hmarked, if_neg Bool.false_ne_true] at hends
        have houter : OuterScan undoHistory newText p₀ all len marked.2.toEditScan marked.2.cursorStart marked.2.rest
            (range :: ranges) :=
          ⟨.opened p finished range ranges A M' hall hsteps' hopened' hcovering.ticked hcovering.args hcovering.startsAt
            hcovering.low hends, hcovering.listed, hcovering.length⟩
        obtain ⟨s'', pos', rest', heq, hscan, hshort'⟩ := seekRange_spec houter hcovering.fragmentEnd
        refine ⟨s'', pos', rest', range :: ranges, ?_, hscan, hshort'.trans hshort⟩
        rw [← heq]
        simp only [Bool.false_eq_true, if_false, Option.map_some]

end Covered

section Outer

variable {s : EditScan} {fragment : Fragment} {len pos : Nat}

theorem ScanState.scanned {new ahead : List Fragment} (h : ScanState undoHistory newText p₀ all s new ahead pos ranges) :
    ∃ p, Scanned undoHistory p new ahead := by
  cases h with
  | done p _ hbetween => exact ⟨p, hbetween.toScanned⟩
  | between p _ _ _ _ _ hbetween => exact ⟨p, hbetween.toScanned⟩
  | opened p _ _ _ _ _ _ _ hopened => exact ⟨p, hopened.toScanned⟩

theorem scanFragment_spec (htext : ∀ text ∈ newText, text ≠ []) (hsorted : Sorted all)
    (h : OuterScan undoHistory newText p₀ all len s pos (fragment :: rest) ranges) :
    ∃ s' pos' rest' ranges', scanFragment newText textStyle undoHistory fragment s pos rest ranges = some (s', pos', rest', ranges') ∧
      OuterScan undoHistory newText p₀ all len s' pos' rest' ranges' ∧ rest'.length ≤ rest.length := by
  obtain ⟨p, hscanned⟩ := h.state.scanned
  have hchars := (hscanned.fresh List.mem_cons_self).chars_eq
  obtain ⟨oldSplitTree, hget, hsplits⟩ := SplitScan.start h.listed hscanned.wellFormed hscanned.lt
  rw [scanFragment, hget, Option.bind_some]
  dsimp only
  have hin : InFragment undoHistory fragment.insertion.id { s with
      currentFragment := fragment
      newSplitTree := (splitsAround fragment oldSplitTree).1
      charsToFragmentStart := pos } rest (splitsAround fragment oldSplitTree).2
      (pos + fragment.visibleLen undoHistory) := ⟨rfl, hsplits, rfl⟩
  obtain ⟨f', left, hscan, hdone⟩ := scanRanges_spec htext hsorted hin h.state
  rw [hscan, Option.bind_some]
  dsimp only
  have hlength := h.length
  rw [total_cons, ← Nat.add_assoc] at hlength
  apply scanCovered_spec hsorted
  · refine ⟨?_, ?_, hlength⟩
    · rw [hchars]
      exact hdone.state.congr rfl rfl rfl rfl rfl
    · have hfinish := hdone.splits.finish hdone.insertionId
      have hlisted : Listed (f'.newFragments ++ [f'.currentFragment] ++ rest)
          (f'.insertionSplits.insert f'.currentFragment.insertion.id (f'.newSplitTree ++ [f'.currentFragment.split] ++
            (splitsAround fragment oldSplitTree).2)) := by
        rw [hdone.insertionId]
        exact hfinish
      exact hlisted
  · rw [hchars]

theorem scanFragments_spec (htext : ∀ text ∈ newText, text ≠ []) (hsorted : Sorted all) {fuel : Nat}
    (h : OuterScan undoHistory newText p₀ all len s pos rest ranges) (hfuel : rest.length ≤ fuel) :
    ∃ s' pos' rest' ranges', scanFragments newText textStyle undoHistory fuel s pos rest ranges = some (s', pos', rest', ranges') ∧
      OuterScan undoHistory newText p₀ all len s' pos' rest' ranges' ∧ (ranges' = [] ∨ rest' = []) := by
  induction fuel generalizing s pos rest ranges with
  | zero =>
    have hnil : rest = [] := List.length_eq_zero_iff.mp (Nat.le_zero.mp hfuel)
    exact ⟨s, pos, rest, ranges, rfl, h, .inr hnil⟩
  | succ fuel ih =>
    cases ranges with
    | nil => exact ⟨s, pos, rest, [], rfl, h, .inl rfl⟩
    | cons range ranges =>
      cases rest with
      | nil => exact ⟨s, pos, [], range :: ranges, rfl, h, .inr rfl⟩
      | cons fragment rest =>
        obtain ⟨s', pos', rest', ranges', hscan, hscan', hshort⟩ := scanFragment_spec htext hsorted h
        obtain ⟨s'', pos'', rest'', ranges'', hrest, hend⟩ := ih hscan' (hshort.trans (Nat.le_of_succ_le_succ hfuel))
        refine ⟨s'', pos'', rest'', ranges'', ?_, hend⟩
        rw [scanFragments, hscan, Option.bind_some]
        exact hrest

end Outer

end InfiniShell.Editor
