import InfiniShell.Editor.LocalScan
import InfiniShell.Editor.StyleInheritance

namespace InfiniShell.Editor

open Collections Collections.ListCursor Crdt

/-- Where the scan has got to with these ranges left, the first of them the one it is at. -/
inductive ScanState (undoHistory : UndoHistory) (newText : Option (List Char)) (p₀ : Progress) (all : List Range)
    (s : EditScan) (new ahead : List Fragment) (pos : Nat) : List Range → Prop where
  | done (p : Progress) : LocalSteps undoHistory newText p₀ all s.ops p → Between undoHistory p new ahead pos →
      s.lamportClock = p.clock → s.versions = p.versions →
      ScanState undoHistory newText p₀ all s new ahead pos []
  | between (p : Progress) (finished : List Range) (range : Range) (ranges : List Range) :
      all = finished ++ range :: ranges → LocalSteps undoHistory newText p₀ finished s.ops p →
      Between undoHistory p new ahead pos → Ticked p s →
      s.operationEditArgs = OperationEditArgs.new newText p.clock.tick p.versions → pos ≤ range.start →
      ScanState undoHistory newText p₀ all s new ahead pos (range :: ranges)
  | opened (p : Progress) (finished : List Range) (range : Range) (ranges : List Range) (A M : Elements) :
      all = finished ++ range :: ranges → LocalSteps undoHistory newText p₀ finished s.ops p →
      Opened undoHistory newText p new ahead pos range A M → Ticked p s → ArgsFor newText p s.operationEditArgs →
      StartsAt p s.operationEditArgs A → range.start < pos → pos < range.stop →
      ScanState undoHistory newText p₀ all s new ahead pos (range :: ranges)

structure Sorted (ranges : List Range) : Prop where
  le : ∀ range ∈ ranges, range.start ≤ range.stop
  lt : ranges.Pairwise fun a b => a.stop < b.start

structure InFragment (undoHistory : UndoHistory) (id : Lamport) (f : FragmentScan) (rest : List Fragment)
    (tail : List InsertionSplit) (charsToFragmentEnd : Nat) : Prop where
  insertionId : f.currentFragment.insertion.id = id
  splits : SplitScan id f.insertionSplits f.newSplitTree tail f.newFragments rest
  ends : f.charsToFragmentStart + f.currentFragment.visibleLen undoHistory = charsToFragmentEnd

/-- Inside the range, before the end of it is looked for in the fragment. -/
structure MidRange (undoHistory : UndoHistory) (newText : Option (List Char)) (p : Progress) (f : FragmentScan)
    (rest : List Fragment) (charsToFragmentEnd : Nat) (range : Range) (A M : Elements) : Prop where
  opened : Opened undoHistory newText p f.newFragments (f.currentFragment :: rest) f.charsToFragmentStart range A M
  ticked : Ticked p f.toEditScan
  args : ArgsFor newText p f.operationEditArgs
  startsAt : StartsAt p f.operationEditArgs A
  le : f.charsToFragmentStart ≤ range.stop
  stopHere : range.stop = f.charsToFragmentStart → EndsAt p f.operationEditArgs (A ++ M)
  stopAtEnd : range.stop = charsToFragmentEnd →
    f.operationEditArgs.endId = some f.currentFragment.insertion.id ∧
      f.operationEditArgs.endCharacterOffset = some f.currentFragment.endCharacterOffset

section Args

variable {newText : Option (List Char)} {p : Progress} {args : OperationEditArgs} {A : Elements} {id : Lamport}
variable {offset : Nat}

theorem argsFor_new : ArgsFor newText p (OperationEditArgs.new newText p.clock.tick p.versions) :=
  ⟨fun _ => rfl, rfl, rfl⟩

theorem ArgsFor.updateStart (h : ArgsFor newText p args) : ArgsFor newText p (args.updateStart id offset) :=
  ⟨h.versionInRange, h.newText, h.lamportTimestamp⟩

theorem ArgsFor.updateEnd (h : ArgsFor newText p args) : ArgsFor newText p (args.updateEnd id offset) :=
  ⟨h.versionInRange, h.newText, h.lamportTimestamp⟩

theorem ArgsFor.observe (h : ArgsFor newText p args) (hid : p.versions.observed id = true) :
    ArgsFor newText p (args.observe id) := by
  refine ⟨?_, h.newText, h.lamportTimestamp⟩
  intro replicaId
  change (args.versionInRange.observe id).get replicaId = _
  rw [Global.get_observe, h.versionInRange]
  split
  next heq =>
    rw [heq]
    exact Nat.max_eq_left (Global.observed_iff.mp hid)
  next => rfl

end Args

section Between

variable {undoHistory : UndoHistory} {newText : Option (List Char)} {textStyle : Option TextStyle} {p : Progress}
variable {id : Lamport} {f : FragmentScan}
variable {rest : List Fragment} {tail : List InsertionSplit} {charsToFragmentEnd : Nat} {range : Range}

theorem visible_of_lt {g : Fragment} (h : 0 < g.visibleLen undoHistory) :
    g.isVisibleIn undoHistory = true ∧ g.visibleLen undoHistory = g.len := by
  rw [Fragment.visibleLen] at h ⊢
  cases hvisible : g.isVisibleIn undoHistory with
  | true => exact ⟨rfl, rfl⟩
  | false =>
    rw [hvisible] at h
    exact absurd h (Nat.lt_irrefl 0)

theorem maybeSpliceFragment_spec (hin : InFragment undoHistory id f rest tail charsToFragmentEnd)
    (h : Between undoHistory p f.newFragments (f.currentFragment :: rest) f.charsToFragmentStart)
    (hle : f.charsToFragmentStart ≤ range.start) (hlt : range.start < charsToFragmentEnd) :
    ∃ f', (maybeSpliceFragment range f.splice).map f.withSplice = some f' ∧
      InFragment undoHistory id f' rest tail charsToFragmentEnd ∧
      Between undoHistory p f'.newFragments (f'.currentFragment :: rest) range.start ∧
      f'.charsToFragmentStart = range.start ∧
      f'.toEditScan = { f.toEditScan with newFragments := f'.newFragments } := by
  have hends := hin.ends
  by_cases hgt : range.start > f.charsToFragmentStart
  · obtain ⟨last, hlast⟩ := h.exists_last
    have hsome : 0 < f.currentFragment.visibleLen undoHistory := by omega
    obtain ⟨hvisible, hlen⟩ := visible_of_lt hsome
    have hstop := h.lt
    rw [hlen, Fragment.len] at hends
    have hmid : f.currentFragment.startCharacterOffset + (range.start - f.charsToFragmentStart) <
        f.currentFragment.endCharacterOffset := by omega
    have hstartLt : f.currentFragment.startCharacterOffset < f.currentFragment.startCharacterOffset +
        (range.start - f.charsToFragmentStart) := by omega
    have hcut := h.cut hlast hvisible hstartLt hmid
    have hpos : f.charsToFragmentStart + (f.currentFragment.startCharacterOffset +
        (range.start - f.charsToFragmentStart) - f.currentFragment.startCharacterOffset) = range.start := by omega
    rw [hpos] at hcut
    have hgt' : range.start > f.splice.charsToFragmentStart := hgt
    have hlast' : f.splice.newFragments.getLast? = some last := hlast
    have hsplice : spliceFragmentAtCharOffset f.currentFragment last f.charsToFragmentStart range.start = _ :=
      spliceFragmentAtCharOffset_eq h.end_le hmid.le (h.wellFormed.between_eq hlast)
    have hcurrent : f.splice.currentFragment = f.currentFragment := rfl
    have hstart : f.splice.charsToFragmentStart = f.charsToFragmentStart := rfl
    rw [maybeSpliceFragment, if_pos hgt', hlast', Option.bind_some, hcurrent, hstart, hsplice, Option.map_some,
      Option.map_some]
    refine ⟨_, rfl, ?_⟩
    refine ⟨⟨hin.insertionId, hin.splits.push hin.insertionId, ?_⟩, hcut, rfl, rfl⟩
    have hsuffix : (f.currentFragment.suffixFrom (f.currentFragment.startCharacterOffset +
        (range.start - f.charsToFragmentStart))).visibleLen undoHistory =
        f.currentFragment.endCharacterOffset - (f.currentFragment.startCharacterOffset +
          (range.start - f.charsToFragmentStart)) := by
      rw [Fragment.visibleLen_part (Fragment.partOf_suffixFrom _ _), if_pos hvisible]
      rfl
    change range.start + Fragment.visibleLen (Fragment.suffixFrom _ _) undoHistory = charsToFragmentEnd
    rw [hsuffix]
    omega
  · have heq : f.charsToFragmentStart = range.start := by omega
    have hgt' : ¬range.start > f.splice.charsToFragmentStart := hgt
    rw [maybeSpliceFragment, if_neg hgt', Option.map_some]
    exact ⟨f, rfl, hin, heq ▸ h, heq, rfl⟩

theorem insertText_noted (textStyle : Option TextStyle) (range : Range)
    (h : WellFormed (f.newFragments ++ rest) undoHistory) :
    Noted f.newFragments (fallbackTextStyleWith textStyle f.newFragments fun newFragments =>
      if f.charsToFragmentStart = range.stop then
        styleFromLeftVisibleOrRecentlyDeletedFragment undoHistory newFragments
      else (newFragments, f.currentFragment.textStyle.map TextStyle.filterInheritableStyles)).1 := by
  have hids : (f.newFragments.map Fragment.id).Pairwise (· < ·) := by
    have hids := h.ordered.pairwise
    rw [List.map_append] at hids
    exact (List.pairwise_append.mp hids).1
  apply fallbackTextStyleWith_noted
  split
  next => exact styleFromLeftVisibleOrRecentlyDeletedFragment_noted hids
  next => exact .same

theorem Between.note {new new' ahead : List Fragment} {pos : Nat} (h : Between undoHistory p new ahead pos)
    (hnote : Noted new new') : Between undoHistory p new' ahead pos := by
  have happend := hnote.append ahead
  refine ⟨⟨h.sound, happend.wellFormed h.wellFormed, happend.headed h.headed, ?_, h.aheadObserved⟩, ?_, ?_, ?_⟩
  · obtain ⟨last, hlast⟩ := h.exists_last
    obtain ⟨last', hlast', -⟩ := hnote.getLast? hlast
    intro hnil
    rw [hnil] at hlast'
    exact absurd hlast' (Option.some_ne_none last').symm
  · exact (hnote.forall_iff fun _ => Iff.rfl).mpr h.newObserved
  · rw [h.doc, happend.elements_eq]
  · rw [hnote.elements_eq]
    exact h.count

theorem insertText_spec (htext : ∀ text ∈ newText, text ≠ [])
    (hin : InFragment undoHistory id f rest tail charsToFragmentEnd)
    (h : Between undoHistory p f.newFragments (f.currentFragment :: rest) range.start)
    (hpos : f.charsToFragmentStart = range.start) (hticked : Ticked p f.toEditScan) :
    ∃ f', f.insertText newText textStyle undoHistory range = some f' ∧
      InFragment undoHistory id f' rest tail charsToFragmentEnd ∧ f'.ops = f.ops ∧ Ticked p f'.toEditScan ∧
      f'.operationEditArgs = f.operationEditArgs ∧ f'.currentFragment = f.currentFragment ∧
      f'.charsToFragmentStart = range.start ∧
      Opened undoHistory newText p f'.newFragments (f'.currentFragment :: rest) f'.charsToFragmentStart range
        (elements f.newFragments) [] := by
  cases newText with
  | none =>
    have hopen : Opened undoHistory none p f.newFragments (f.currentFragment :: rest) range.start range
        (elements f.newFragments) [] := h.openDelete rfl
    rw [← hpos] at hopen
    exact ⟨f, rfl, hin, rfl, hticked, rfl, rfl, hpos, hopen⟩
  | some text =>
    have hnote := insertText_noted textStyle range h.wellFormed
    rw [FragmentScan.insertText]
    generalize fallbackTextStyleWith textStyle f.newFragments _ = styled at hnote ⊢
    obtain ⟨newFragments, style⟩ := styled
    have hnoted := h.note hnote
    obtain ⟨last, hlast⟩ := hnoted.exists_last
    have hid : FragmentId.between last.id f.currentFragment.id = some (FragmentId.mid last.id f.currentFragment.id) :=
      hnoted.wellFormed.between_eq hlast
    have hbuild : buildFragmentToInsert last (some f.currentFragment) text style f.lamportClock f.insertionSplits =
        some (Fragment.new (FragmentId.mid last.id f.currentFragment.id) ⟨f.lamportClock, text, style⟩,
          f.insertionSplits.insert f.lamportClock [⟨text.length, FragmentId.mid last.id f.currentFragment.id⟩]) := by
      rw [buildFragmentToInsert, Option.map_some, Option.getD_some, hid, Option.map_some]
    simp only [hlast, Option.bind_some, hbuild, Option.map_some]
    refine ⟨_, rfl, ⟨hin.insertionId, ?_, hin.ends⟩, rfl,
      ⟨hticked.lamportClock, hticked.versions, hticked.version⟩, rfl, rfl, hpos, ?_⟩
    · have htick := hnoted.ofInsertion_tick hnoted.newObserved
      have hne : p.clock.tick ≠ id := by
        intro heq
        have hobserved := h.aheadObserved f.currentFragment List.mem_cons_self
        rw [hin.insertionId, ← heq, h.sound.not_observed_tick] at hobserved
        exact Bool.false_ne_true hobserved
      have hnew : ofInsertion p.clock.tick (newFragments ++ rest) = [] := by
        rw [ofInsertion_eq_nil] at htick ⊢
        intro g hg
        apply htick
        cases List.mem_append.mp hg with
        | inl hg => exact List.mem_append_left _ hg
        | inr hg => exact List.mem_append_right _ (List.mem_cons_of_mem _ hg)
      rw [← hticked.lamportClock] at hne hnew
      exact (hnote.splitScan hin.splits).insert
        (f := Fragment.new (FragmentId.mid last.id f.currentFragment.id) ⟨f.lamportClock, text, style⟩) hne hnew
    · have hopen : Opened undoHistory (some text) p _ (f.currentFragment :: rest) range.start range
          (elements newFragments) [] := hnoted.openInsert style rfl hlast (htext text rfl)
      rw [hnote.elements_eq, ← hticked.lamportClock, ← hpos] at hopen
      exact hopen

theorem openRange_spec (htext : ∀ text ∈ newText, text ≠ []) (hle : range.start ≤ range.stop)
    (hin : InFragment undoHistory id f rest tail charsToFragmentEnd)
    (h : Between undoHistory p f.newFragments (f.currentFragment :: rest) range.start)
    (hstart : f.charsToFragmentStart = range.start) (hlt : range.start < charsToFragmentEnd)
    (hticked : Ticked p f.toEditScan)
    (hargs : f.operationEditArgs = OperationEditArgs.new newText p.clock.tick p.versions) :
    ∃ f', ((updateEndAtBoundary range charsToFragmentEnd f).bind fun f =>
        insertAtBoundary newText textStyle undoHistory range f) = some f' ∧
      InFragment undoHistory id f' rest tail charsToFragmentEnd ∧ f'.ops = f.ops ∧
      MidRange undoHistory newText p f' rest charsToFragmentEnd range (elements f.newFragments) [] := by
  obtain ⟨last, hlast⟩ := h.exists_last
  have hfor : ArgsFor newText p f.operationEditArgs := by
    rw [hargs]
    exact argsFor_new
  obtain ⟨update, hupdate, hfor, hhere, hend⟩ : ∃ update : OperationEditArgs → OperationEditArgs,
      updateEndAtBoundary range charsToFragmentEnd f = some (f.updateArgs update) ∧
      ArgsFor newText p (update f.operationEditArgs) ∧
      (range.stop = range.start → EndsAt p (update f.operationEditArgs) (elements f.newFragments)) ∧
      (range.stop = charsToFragmentEnd →
        (update f.operationEditArgs).endId = some f.currentFragment.insertion.id ∧
          (update f.operationEditArgs).endCharacterOffset = some f.currentFragment.endCharacterOffset) := by
    by_cases hempty : range.stop = f.charsToFragmentStart
    · refine ⟨_, by rw [updateEndAtBoundary, if_pos hempty, hlast, Option.map_some], hfor.updateEnd, ?_, ?_⟩
      · exact fun _ => h.endsAt hlast _
      · intro hstop
        omega
    · by_cases hstop : range.stop = charsToFragmentEnd
      · exact ⟨_, by rw [updateEndAtBoundary, if_neg hempty, if_pos hstop], hfor.updateEnd, by omega,
          fun _ => ⟨rfl, rfl⟩⟩
      · refine ⟨fun args => args, by rw [updateEndAtBoundary, if_neg hempty, if_neg hstop]; rfl, hfor, by omega, ?_⟩
        exact fun heq => absurd heq hstop
  have hstart' : range.start = (f.updateArgs update).charsToFragmentStart := hstart.symm
  have hlast' : (f.updateArgs update).newFragments.getLast? = some last := hlast
  rw [hupdate, Option.bind_some, insertAtBoundary, if_pos hstart', hlast', Option.bind_some]
  generalize hf₁ : (f.updateArgs update).updateArgs
    (·.updateStart last.insertion.id last.endCharacterOffset) = f₁
  have hnew₁ : f₁.newFragments = f.newFragments := by rw [← hf₁]; rfl
  have hcurrent₁ : f₁.currentFragment = f.currentFragment := by rw [← hf₁]; rfl
  have hpos₁ : f₁.charsToFragmentStart = range.start := by rw [← hf₁]; exact hstart
  have hops₁ : f₁.ops = f.ops := by rw [← hf₁]; rfl
  have hin₁ : InFragment undoHistory id f₁ rest tail charsToFragmentEnd := by
    rw [← hf₁]
    exact ⟨hin.insertionId, hin.splits, hin.ends⟩
  have hticked₁ : Ticked p f₁.toEditScan := by
    rw [← hf₁]
    exact ⟨hticked.lamportClock, hticked.versions, hticked.version⟩
  have hargs₁ : ArgsFor newText p f₁.operationEditArgs ∧
      StartsAt p f₁.operationEditArgs (elements f.newFragments) := by
    rw [← hf₁]
    exact ⟨hfor.updateStart, h.startsAt hlast _⟩
  have hends₁ : (range.stop = range.start → EndsAt p f₁.operationEditArgs (elements f.newFragments)) ∧
      (range.stop = charsToFragmentEnd → f₁.operationEditArgs.endId = some f₁.currentFragment.insertion.id ∧
        f₁.operationEditArgs.endCharacterOffset = some f₁.currentFragment.endCharacterOffset) := by
    rw [← hf₁]
    exact ⟨hhere, hend⟩
  have hbetween₁ : Between undoHistory p f₁.newFragments (f₁.currentFragment :: rest) range.start := by
    rw [hnew₁, hcurrent₁]
    exact h
  obtain ⟨f₂, htext₂, hin₂, hops₂, hticked₂, hargs₂, hcurrent₂, hpos₂, hopened₂⟩ :=
    insertText_spec htext hin₁ hbetween₁ hpos₁ hticked₁
  rw [hnew₁] at hopened₂
  refine ⟨f₂, htext₂, hin₂, hops₂.trans hops₁, hopened₂, hticked₂, hargs₂ ▸ hargs₁.1, hargs₂ ▸ hargs₁.2, ?_, ?_, ?_⟩
  · rw [hpos₂]
    exact hle
  · intro hstop
    rw [hpos₂] at hstop
    rw [List.append_nil, hargs₂]
    exact hends₁.1 hstop
  · rw [hargs₂, hcurrent₂]
    exact hends₁.2

end Between

section Mid

variable {undoHistory : UndoHistory} {newText : Option (List Char)} {textStyle : Option TextStyle} {p : Progress}
variable {id : Lamport} {f : FragmentScan}
variable {rest : List Fragment} {tail : List InsertionSplit} {charsToFragmentEnd : Nat} {range : Range}
variable {A M : Elements}

theorem MidRange.markWithin {last : Fragment} (h : MidRange undoHistory newText p f rest charsToFragmentEnd range A M)
    (hin : InFragment undoHistory id f rest tail charsToFragmentEnd) (hlast : f.newFragments.getLast? = some last)
    (hlt : range.stop < charsToFragmentEnd) :
    ∃ f' M', maybeMarkFragmentAsDeleted undoHistory range charsToFragmentEnd last f = some f' ∧
      InFragment undoHistory id f' rest tail charsToFragmentEnd ∧ f'.ops = f.ops ∧ Ticked p f'.toEditScan ∧
      Opened undoHistory newText p f'.newFragments (f'.currentFragment :: rest) range.stop range A M' ∧
      f'.charsToFragmentStart = range.stop ∧ ArgsFor newText p f'.operationEditArgs ∧
      StartsAt p f'.operationEditArgs A ∧ EndsAt p f'.operationEditArgs (A ++ M') := by
  have hends := hin.ends
  have hle := h.le
  by_cases hgt : range.stop > f.charsToFragmentStart
  · have hsome : 0 < f.currentFragment.visibleLen undoHistory := by omega
    obtain ⟨hvisible, hlen⟩ := visible_of_lt hsome
    have hstop := h.opened.lt
    rw [hlen, Fragment.len] at hends
    have hmid : f.currentFragment.startCharacterOffset + (range.stop - f.charsToFragmentStart) <
        f.currentFragment.endCharacterOffset := by omega
    have hstartLt : f.currentFragment.startCharacterOffset < f.currentFragment.startCharacterOffset +
        (range.stop - f.charsToFragmentStart) := by omega
    have hcut := h.opened.cutMark hlast hvisible hstartLt hmid
    have hpos : f.charsToFragmentStart + (f.currentFragment.startCharacterOffset +
        (range.stop - f.charsToFragmentStart) - f.currentFragment.startCharacterOffset) = range.stop := by omega
    rw [hpos] at hcut
    have hsplice : spliceFragmentAtCharOffset f.currentFragment last f.charsToFragmentStart range.stop = _ :=
      spliceFragmentAtCharOffset_eq h.opened.end_le hmid.le (h.opened.wellFormed.between_eq hlast)
    have hobserved := h.opened.aheadObserved f.currentFragment List.mem_cons_self
    rw [maybeMarkFragmentAsDeleted, if_pos hlt, if_pos hgt, hsplice, Option.map_some, h.ticked.lamportClock]
    refine ⟨_, _, rfl, ⟨hin.insertionId, hin.splits.push hin.insertionId, ?_⟩, rfl,
      ⟨h.ticked.lamportClock, h.ticked.versions, h.ticked.version⟩, hcut, rfl, h.args.updateEnd.observe hobserved,
      h.startsAt, ?_⟩
    · have hsuffix : (f.currentFragment.suffixFrom (f.currentFragment.startCharacterOffset +
          (range.stop - f.charsToFragmentStart))).visibleLen undoHistory =
          f.currentFragment.endCharacterOffset - (f.currentFragment.startCharacterOffset +
            (range.stop - f.charsToFragmentStart)) := by
        rw [Fragment.visibleLen_part (Fragment.partOf_suffixFrom _ _), if_pos hvisible]
        rfl
      change range.stop + Fragment.visibleLen (Fragment.suffixFrom _ _) undoHistory = charsToFragmentEnd
      rw [hsuffix]
      omega
    · refine ⟨_, _, rfl, rfl, ?_, hobserved, fun hzero => absurd hzero (Nat.ne_zero_of_lt hstartLt)⟩
      have hanchor := Opened.anchorOf_append (A := A) (M := M) (g := f.currentFragment.prefixTo last
        (f.currentFragment.startCharacterOffset + (range.stop - f.charsToFragmentStart)))
        (hmid.le.trans h.opened.end_le) hstartLt
      exact hanchor.symm
  · have heq : range.stop = f.charsToFragmentStart := by omega
    rw [maybeMarkFragmentAsDeleted, if_pos hlt, if_neg hgt]
    exact ⟨f, M, rfl, hin, rfl, h.ticked, heq ▸ h.opened, heq.symm, h.args, h.startsAt, h.stopHere heq⟩

theorem MidRange.markRest (last : Fragment) (h : MidRange undoHistory newText p f rest charsToFragmentEnd range A M)
    (hin : InFragment undoHistory id f rest tail charsToFragmentEnd) (hge : ¬range.stop < charsToFragmentEnd) :
    ∃ f' M', maybeMarkFragmentAsDeleted undoHistory range charsToFragmentEnd last f = some f' ∧
      f'.currentFragment.insertion.id = id ∧
      SplitScan id f'.insertionSplits f'.newSplitTree tail f'.newFragments rest ∧ f'.ops = f.ops ∧
      Ticked p f'.toEditScan ∧
      Opened undoHistory newText p (f'.newFragments ++ [f'.currentFragment]) rest charsToFragmentEnd range A M' ∧
      ArgsFor newText p f'.operationEditArgs ∧ StartsAt p f'.operationEditArgs A ∧
      (range.stop = charsToFragmentEnd → EndsAt p f'.operationEditArgs (A ++ M')) := by
  have hobserved := h.opened.aheadObserved f.currentFragment List.mem_cons_self
  have hmark := h.opened.mark
  rw [hin.ends] at hmark
  rw [maybeMarkFragmentAsDeleted, if_neg hge, h.ticked.lamportClock]
  refine ⟨_, _, rfl, hin.insertionId, hin.splits, rfl, ⟨rfl, h.ticked.versions, h.ticked.version⟩,
    hmark, h.args.observe hobserved, h.startsAt, ?_⟩
  intro hstop
  obtain ⟨hid, hoffset⟩ := h.stopAtEnd hstop
  exact ⟨_, _, hid, hoffset, (Opened.anchorOf_append h.opened.end_le h.opened.lt).symm, hobserved,
    h.opened.base_of_zero (by simp)⟩

end Mid

section Ranges

variable {undoHistory : UndoHistory} {newText : Option (List Char)} {p₀ p : Progress} {all : List Range}
variable {new ahead : List Fragment} {range : Range} {ranges finished : List Range} {A M : Elements}

theorem closeRange_spec {s : EditScan} (hall : all = finished ++ range :: ranges) (hsorted : Sorted all)
    (hsteps : LocalSteps undoHistory newText p₀ finished s.ops p)
    (h : Opened undoHistory newText p new ahead range.stop range A M) (hticked : Ticked p s)
    (hargs : ArgsFor newText p s.operationEditArgs) (hstart : StartsAt p s.operationEditArgs A)
    (hstop : EndsAt p s.operationEditArgs (A ++ M)) :
    ∃ s', s.pushOp = some s' ∧ s' = { s with ops := s'.ops } ∧
      ScanState undoHistory newText p₀ all (s'.nextRange newText ranges) new ahead range.stop ranges := by
  obtain ⟨op, p', hop, hstep, hbetween⟩ := h.close rfl hargs hstart hstop
  refine ⟨{ s with ops := s.ops ++ [op] }, by rw [EditScan.pushOp, hop, Option.map_some], rfl, ?_⟩
  have hsteps' := hsteps.snoc hstep
  cases ranges with
  | nil =>
    rw [hall]
    refine .done p' hsteps' hbetween ?_ ?_
    · exact hticked.lamportClock.trans hstep.clock'.symm
    · exact hticked.versions.trans hstep.versions'.symm
  | cons next ranges =>
    have hlt : range.stop < next.start := by
      have hpairwise := hsorted.lt
      rw [hall] at hpairwise
      exact (List.pairwise_cons.mp (List.pairwise_append.mp hpairwise).2.1).1 next List.mem_cons_self
    have hclock : s.lamportClock = p'.clock := hticked.lamportClock.trans hstep.clock'.symm
    have hversions : s.versions = p'.versions := hticked.versions.trans hstep.versions'.symm
    refine .between p' (finished ++ [range]) next ranges (by rw [hall]; simp) hsteps' hbetween ?_ ?_ hlt.le
    · refine ⟨?_, ?_, ?_⟩
      · change s.lamportClock.tick = _
        rw [hclock]
      · change s.versions.observe s.lamportClock.tick = _
        rw [hclock, hversions]
      · exact hversions
    · change OperationEditArgs.new newText s.lamportClock.tick s.versions = _
      rw [hclock, hversions]

end Ranges

section Fragments

variable {undoHistory : UndoHistory} {newText : Option (List Char)} {textStyle : Option TextStyle} {p₀ : Progress}
variable {all : List Range}

theorem midRange_spec {id : Lamport} {f : FragmentScan} {rest : List Fragment} {tail : List InsertionSplit}
    {charsToFragmentEnd : Nat} {range : Range} {ranges : List Range} (htext : ∀ text ∈ newText, text ≠ [])
    (hsorted : Sorted all) (hin : InFragment undoHistory id f rest tail charsToFragmentEnd)
    (h : ScanState undoHistory newText p₀ all f.toEditScan f.newFragments (f.currentFragment :: rest)
      f.charsToFragmentStart (range :: ranges)) (hlt : range.start < charsToFragmentEnd) :
    ∃ f' p finished A M, (((maybeSpliceFragment range f.splice).map f.withSplice).bind fun f =>
        (updateEndAtBoundary range charsToFragmentEnd f).bind fun f =>
        insertAtBoundary newText textStyle undoHistory range f) = some f' ∧
      all = finished ++ range :: ranges ∧ LocalSteps undoHistory newText p₀ finished f'.ops p ∧
      InFragment undoHistory id f' rest tail charsToFragmentEnd ∧
      MidRange undoHistory newText p f' rest charsToFragmentEnd range A M := by
  cases h with
  | between p finished _ _ hall hsteps hbetween hticked hargs hle =>
    have hrange : range.start ≤ range.stop := hsorted.le range (by rw [hall]; simp)
    obtain ⟨f₁, hsplice, hin₁, hbetween₁, hstart₁, hscan₁⟩ := maybeSpliceFragment_spec hin hbetween hle hlt
    have hticked₁ : Ticked p f₁.toEditScan := by
      rw [hscan₁]
      exact ⟨hticked.lamportClock, hticked.versions, hticked.version⟩
    have hargs₁ : f₁.operationEditArgs = OperationEditArgs.new newText p.clock.tick p.versions := by
      rw [hscan₁]
      exact hargs
    obtain ⟨f₂, hopen, hin₂, hops, hmid⟩ := openRange_spec htext hrange hin₁ hbetween₁ hstart₁ hlt hticked₁ hargs₁
    refine ⟨f₂, p, finished, _, _, ?_, hall, ?_, hin₂, hmid⟩
    · rw [hsplice, Option.bind_some, hopen]
    · rw [hops, hscan₁]
      exact hsteps
  | opened p finished _ _ A M hall hsteps hopened hticked hargs hstart hlow hhigh =>
    have hno : ¬range.start > f.splice.charsToFragmentStart := Nat.not_lt.mpr hlow.le
    have hsplice : (maybeSpliceFragment range f.splice).map f.withSplice = some f := by
      rw [maybeSpliceFragment, if_neg hno, Option.map_some]
      rfl
    rw [hsplice, Option.bind_some, updateEndAtBoundary, if_neg hhigh.ne']
    by_cases hstop : range.stop = charsToFragmentEnd
    · have hne : ¬range.start = (f.updateArgs fun args => args.updateEnd f.currentFragment.insertion.id
          f.currentFragment.endCharacterOffset).charsToFragmentStart := hlow.ne
      rw [if_pos hstop, Option.bind_some, insertAtBoundary, if_neg hne]
      exact ⟨_, p, finished, A, M, rfl, hall, hsteps, ⟨hin.insertionId, hin.splits, hin.ends⟩,
        ⟨hopened, ⟨hticked.lamportClock, hticked.versions, hticked.version⟩, hargs.updateEnd, hstart, hhigh.le,
          fun heq => absurd heq hhigh.ne', fun _ => ⟨rfl, rfl⟩⟩⟩
    · rw [if_neg hstop, Option.bind_some, insertAtBoundary, if_neg hlow.ne]
      exact ⟨f, p, finished, A, M, rfl, hall, hsteps, hin, ⟨hopened, hticked, hargs, hstart, hhigh.le,
        fun heq => absurd heq hhigh.ne', fun heq => absurd heq hstop⟩⟩

end Fragments

end InfiniShell.Editor
