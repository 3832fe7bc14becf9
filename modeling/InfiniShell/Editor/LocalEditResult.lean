import InfiniShell.Editor.LocalEditLoop

namespace InfiniShell.Editor

open Collections Collections.ListCursor Crdt

/-- The trees of the buffer describe the same fragments, and its clocks have seen all of them. -/
structure Buffer.Coherent (b : Buffer) : Prop where
  wellFormed : WellFormed b.fragments b.undoHistory
  headed : Headed b.fragments
  listed : Listed b.fragments b.insertionSplits
  bounded : ∀ replicaId, b.versions.get replicaId ≤ b.lamportClock.value
  undos : ∀ edit : Lamport, b.lamportClock.value < edit.value → b.undoHistory.undosOf edit = ∅
  observed : ∀ f ∈ b.fragments, b.versions.observed f.insertion.id = true

def Buffer.progress (b : Buffer) : Progress := ⟨b.lamportClock, b.versions, elements b.fragments, 0⟩

structure EditDone (undoHistory : UndoHistory) (newText : Option (List Char)) (p₀ : Progress) (all : List Range)
    (s : EditScan) (p : Progress) : Prop where
  steps : LocalSteps undoHistory newText p₀ all s.ops p
  between : ∃ pos, Between undoHistory p s.newFragments [] pos
  listed : Listed s.newFragments s.insertionSplits
  lamportClock : s.lamportClock = p.clock
  versions : s.versions = p.versions

section Finish

variable {undoHistory : UndoHistory} {newText : Option (List Char)} {textStyle : Option TextStyle} {p₀ p : Progress}
variable {all ranges finished : List Range} {range : Range} {s : EditScan} {rest : List Fragment} {pos len : Nat}

theorem finishScan_rest (h : OuterScan undoHistory newText p₀ all len s pos rest []) :
    ∃ s' p, finishScan newText textStyle undoHistory s pos rest len [] = some s' ∧
      EditDone undoHistory newText p₀ all s' p := by
  have hlisted := h.listed
  have hlength := h.length
  have hstate := h.state
  rw [finishScan, slice_all hlength.le]
  cases hstate with
  | done p hsteps hbetween hclock hversions =>
    refine ⟨_, p, rfl, hsteps, ⟨pos + total Fragment.chars rest, ?_⟩, hlisted, hclock, hversions⟩
    apply Between.passAll
    rw [List.append_nil]
    exact hbetween

theorem finishScan_end (htext : ∀ text ∈ newText, text ≠ []) (hall : all = finished ++ [range])
    (hsteps : LocalSteps undoHistory newText p₀ finished s.ops p) (h : Between undoHistory p s.newFragments [] pos)
    (hticked : Ticked p s) (hstart : range.start = pos) (hstop : range.stop = pos)
    (hlisted : Listed s.newFragments s.insertionSplits) :
    ∃ s' p, finishScan newText textStyle undoHistory s pos [] len [range] = some s' ∧
      EditDone undoHistory newText p₀ all s' p := by
  obtain ⟨last, hlast⟩ := h.exists_last
  generalize hargs : ((OperationEditArgs.new newText p.clock.tick p.versions).updateStart last.insertion.id
    last.endCharacterOffset).updateEnd last.insertion.id last.endCharacterOffset = args
  have hargsFor : ArgsFor newText p args := by
    rw [← hargs]
    exact (argsFor_new.updateStart).updateEnd
  have hstartsAt : StartsAt p args (elements s.newFragments) := by
    have hstarts := h.startsAt hlast (OperationEditArgs.new newText p.clock.tick p.versions)
    rw [← hargs]
    exact hstarts
  have hendsAt : EndsAt p args (elements s.newFragments ++ []) := by
    rw [← hargs, List.append_nil]
    exact h.endsAt hlast _
  have hnewArgs : (s.newArgs newText).operationEditArgs = OperationEditArgs.new newText p.clock.tick p.versions := by
    rw [EditScan.newArgs, hticked.lamportClock, hticked.version]
  rw [finishScan, hlast, Option.bind_some]
  dsimp only
  rw [hnewArgs, hargs, EditScan.pushOp]
  cases newText with
  | none =>
    have hopened : Opened undoHistory none p s.newFragments [] pos range (elements s.newFragments) [] :=
      h.openDelete hstart
    obtain ⟨op, p', hop, hstep, hbetween⟩ := hopened.close hstop.symm hargsFor hstartsAt hendsAt
    rw [hop, Option.map_some, Option.bind_some]
    refine ⟨_, p', rfl, ?_, ⟨_, hbetween⟩, hlisted, ?_, ?_⟩
    · rw [hall]
      exact hsteps.snoc hstep
    · exact hticked.lamportClock.trans hstep.clock'.symm
    · exact hticked.versions.trans hstep.versions'.symm
  | some text =>
    have hwell : WellFormed s.newFragments undoHistory := by
      have hwell := h.wellFormed
      rwa [List.append_nil] at hwell
    have hnote : Noted s.newFragments (fallbackTextStyleWith textStyle s.newFragments
        (styleFromLeftVisibleOrRecentlyDeletedFragment undoHistory)).1 :=
      fallbackTextStyleWith_noted textStyle
        (styleFromLeftVisibleOrRecentlyDeletedFragment_noted hwell.ordered.pairwise)
    generalize hstyled : fallbackTextStyleWith textStyle s.newFragments
      (styleFromLeftVisibleOrRecentlyDeletedFragment undoHistory) = styled at hnote
    obtain ⟨new', style⟩ := styled
    have hnoted := h.note hnote
    obtain ⟨last', hlast'⟩ := hnoted.exists_last
    have hid : FragmentId.between last'.id FragmentId.maxValue = some (FragmentId.mid last'.id FragmentId.maxValue) :=
      hnoted.wellFormed.between_eq hlast'
    have hopened := hnoted.openInsert style hstart hlast' (htext text rfl)
    rw [hnote.elements_eq] at hopened
    obtain ⟨op, p', hop, hstep, hbetween⟩ := hopened.close hstop.symm hargsFor hstartsAt hendsAt
    have hbuild : buildFragmentToInsert last' none text style s.lamportClock s.insertionSplits =
        some (Fragment.new (FragmentId.mid last'.id FragmentId.maxValue) ⟨s.lamportClock, text, style⟩,
          s.insertionSplits.insert s.lamportClock [⟨text.length, FragmentId.mid last'.id FragmentId.maxValue⟩]) := by
      rw [buildFragmentToInsert, Option.map_none, Option.getD_none, hid, Option.map_some]
    rw [hop, Option.map_some, Option.bind_some]
    simp only [EditScan.newArgs, hstyled, hlast', Option.bind_some, hbuild, Option.map_some]
    refine ⟨_, p', rfl, ?_, ⟨range.stop, ?_⟩, ?_, ?_, ?_⟩
    · rw [hall]
      exact hsteps.snoc hstep
    · rw [← hticked.lamportClock] at hbetween
      exact hbetween
    · have htick := hnoted.ofInsertion_tick hnoted.newObserved
      rw [← hticked.lamportClock] at htick
      have hlist := hnote.listed hlisted
      rw [← List.append_nil new'] at hlist
      exact hlist.insert (f := Fragment.new (FragmentId.mid last'.id FragmentId.maxValue) ⟨s.lamportClock, text, style⟩)
        htick
    · exact hticked.lamportClock.trans hstep.clock'.symm
    · exact hticked.versions.trans hstep.versions'.symm

theorem finishScan_spec (htext : ∀ text ∈ newText, text ≠ []) (hsorted : Sorted all)
    (hlen : ∀ range ∈ all, range.stop ≤ len) (h : OuterScan undoHistory newText p₀ all len s pos rest ranges)
    (hend : ranges = [] ∨ rest = []) :
    ∃ s' p, finishScan newText textStyle undoHistory s pos rest len ranges = some s' ∧
      EditDone undoHistory newText p₀ all s' p := by
  cases ranges with
  | nil => exact finishScan_rest h
  | cons range ranges =>
    have hrest : rest = [] := hend.resolve_left (List.cons_ne_nil range ranges)
    subst hrest
    have hlength := h.length
    rw [total_nil, Nat.add_zero] at hlength
    have hlisted := h.listed
    rw [List.append_nil] at hlisted
    have hstate := h.state
    cases hstate with
    | between p finished _ _ hall hsteps hbetween hticked hargs hle =>
      have hmem : ∀ range' ∈ range :: ranges, range' ∈ all := fun range' hmem => by
        rw [hall]
        exact List.mem_append_right finished hmem
      have hrange := hsorted.le range (hmem range List.mem_cons_self)
      have hstop := hlen range (hmem range List.mem_cons_self)
      have hnil : ranges = [] := by
        cases ranges with
        | nil => rfl
        | cons next ranges =>
          have hnext := hsorted.next_start hall next List.mem_cons_self
          have hnext' := hsorted.le next (hmem next (by simp))
          have hstop' := hlen next (hmem next (by simp))
          omega
      rw [hnil] at hall ⊢
      exact finishScan_end htext hall hsteps hbetween hticked (by omega) (by omega) hlisted
    | opened p finished _ _ A M hall hsteps hopened hticked hargs hstart hlow hhigh =>
      have hstop := hlen range (by rw [hall]; simp)
      omega

end Finish

section Result

variable {b : Buffer} {newText : Option (List Char)} {textStyle : Option TextStyle} {oldRanges : List Range}

theorem validRanges_sorted (h : validRanges oldRanges = true) : Sorted oldRanges := by
  rw [validRanges, Bool.and_eq_true, List.all_eq_true, List.all_eq_true] at h
  obtain ⟨hle, hzip⟩ := h
  replace hle : ∀ range ∈ oldRanges, range.start ≤ range.stop := fun range hmem => of_decide_eq_true (hle range hmem)
  refine ⟨hle, ?_⟩
  induction oldRanges with
  | nil => exact List.Pairwise.nil
  | cons range ranges ih =>
    have hle' : ∀ range ∈ ranges, range.start ≤ range.stop := fun r hmem => hle r (List.mem_cons_of_mem range hmem)
    have hrest : ranges.Pairwise fun a b => a.stop < b.start := by
      apply ih _ hle'
      intro w hw
      apply hzip
      cases ranges with
      | nil => exact absurd hw List.not_mem_nil
      | cons next ranges => exact List.mem_cons_of_mem _ hw
    refine List.pairwise_cons.mpr ⟨?_, hrest⟩
    cases ranges with
    | nil => exact fun _ hmem => absurd hmem List.not_mem_nil
    | cons next ranges =>
      have hnext : range.start < next.start ∧ range.stop < next.start :=
        of_decide_eq_true (hzip (range, next) List.mem_cons_self)
      intro later hlater
      cases List.mem_cons.mp hlater with
      | inl heq => rw [heq]; exact hnext.2
      | inr hmem =>
        have hbefore := (List.pairwise_cons.mp hrest).1 later hmem
        have hnext' := hle' next List.mem_cons_self
        omega

theorem Sorted.filter {ranges : List Range} (h : Sorted ranges) (keep : Range → Bool) : Sorted (ranges.filter keep) :=
  ⟨fun range hmem => h.le range (List.mem_filter.mp hmem).1, h.lt.sublist List.filter_sublist⟩

namespace Buffer.Coherent

theorem sound (h : b.Coherent) : b.progress.Sound b.undoHistory := ⟨h.bounded, h.undos⟩

theorem ends_le (h : b.Coherent) : ∀ f ∈ b.fragments, f.endCharacterOffset ≤ f.insertion.text.length :=
  fun _ hf => h.wellFormed.ends_le hf

theorem between (h : b.Coherent) {new ahead : List Fragment} (heq : b.fragments = new ++ ahead) (hne : new ≠ []) :
    Between b.undoHistory b.progress new ahead (total Fragment.chars new) := by
  have hwell := h.wellFormed
  have hhead := h.headed
  have hends := h.ends_le
  have hobserved := h.observed
  rw [heq] at hwell hhead hends hobserved
  refine ⟨⟨h.sound, hwell, hhead, hne, fun f hf => hobserved f (List.mem_append_right new hf)⟩,
    fun f hf => hobserved f (List.mem_append_left ahead hf), ?_, ?_⟩
  · rw [progress, heq]
  · have htotal := total_chars (fun f hf => hwell.fresh f (List.mem_append_left ahead hf))
      (fun f hf => hends f (List.mem_append_left ahead hf))
    rw [htotal, visibleCount]
    exact (Int.add_zero _).symm

theorem slice_ne_nil (h : b.Coherent) (target : Nat) : (slice Fragment.chars .right target 0 b.fragments).1 ≠ [] := by
  obtain ⟨first, rest, heq, -, -, hstart, hstop, -⟩ := h.headed
  have hchars : first.chars = 0 := by
    rw [Fragment.chars, Fragment.len, hstart, hstop]
    split
    · rfl
    · rfl
  have hpass : passes .right (0 + first.chars) target = true := decide_eq_true (by omega)
  rw [heq, slice, if_pos hpass]
  exact List.cons_ne_nil _ _

end Buffer.Coherent

structure Buffer.EditedTo (b b' : Buffer) (p : Progress) : Prop where
  coherent : b'.Coherent
  doc : elements b'.fragments = p.doc
  lamportClock : b'.lamportClock = p.clock
  versions : ∀ replicaId, b'.versions.get replicaId = p.versions.get replicaId
  undoHistory : b'.undoHistory = b.undoHistory
  deferredOps : b'.deferredOps = b.deferredOps
  localUndoStack : b'.localUndoStack = b.localUndoStack

theorem EditDone.editedTo {p : Progress} {all : List Range} {s : EditScan}
    (h : EditDone b.undoHistory newText b.progress all s p) :
    b.EditedTo { b with
      fragments := s.newFragments
      insertionSplits := s.insertionSplits
      lamportClock := s.lamportClock
      versions := s.versions } p := by
  obtain ⟨pos, hbetween⟩ := h.between
  have hwell := hbetween.wellFormed
  have hhead := hbetween.headed
  have hdoc := hbetween.doc
  rw [List.append_nil] at hwell hhead hdoc
  have hbounded := hbetween.sound.bounded
  have hundos := hbetween.sound.undos
  have hobserved := hbetween.newObserved
  rw [← h.versions] at hbounded hobserved
  rw [← h.lamportClock] at hbounded hundos
  exact ⟨⟨hwell, hhead, h.listed, hbounded, hundos, hobserved⟩, hdoc.symm, h.lamportClock,
    fun replicaId => by rw [h.versions], rfl, rfl, rfl⟩

variable (textStyle) in
/-- A local edit of ranges within the buffer succeeds, with an operation for each of them. -/
theorem Buffer.Coherent.updateFragmentsForEdit (h : b.Coherent) (hvalid : validRanges oldRanges = true)
    (hlen : ∀ range ∈ oldRanges, range.stop ≤ b.len) (htext : ∀ text ∈ newText, text ≠ []) :
    ∃ b' ops p, b.updateFragmentsForEdit oldRanges newText textStyle = some (b', ops) ∧
      LocalSteps b.undoHistory newText b.progress (oldRanges.filter (keepRange newText)) ops p ∧ b.EditedTo b' p := by
  have hsorted := (validRanges_sorted hvalid).filter (keepRange newText)
  have hlen : ∀ range ∈ oldRanges.filter (keepRange newText), range.stop ≤ b.len :=
    fun range hmem => hlen range (List.mem_filter.mp hmem).1
  rw [Buffer.updateFragmentsForEdit]
  generalize oldRanges.filter (keepRange newText) = all at hsorted hlen
  cases all with
  | nil =>
    refine ⟨b, [], b.progress, rfl, .nil, h, rfl, rfl, fun _ => rfl, rfl, rfl, rfl⟩
  | cons range ranges =>
    obtain ⟨l, r, heq, hslice, hl, -⟩ := @slice_spec _ Fragment.chars .right range.start 0 b.fragments
    have hne := h.slice_ne_nil range.start
    rw [hslice] at hne
    dsimp only
    rw [hslice]
    have hpos : total Fragment.chars l ≤ range.start := by
      have hpass := of_decide_eq_true (hl.resolve_left hne)
      omega
    have houter : OuterScan b.undoHistory newText b.progress (range :: ranges) b.len
        (({ newFragments := l, insertionSplits := b.insertionSplits, lamportClock := b.lamportClock
            versions := b.versions, version := b.versions
            operationEditArgs := OperationEditArgs.new newText b.lamportClock b.versions, ops := [] } :
          EditScan).tick.newArgs newText) (total Fragment.chars l) r (range :: ranges) := by
      refine ⟨?_, ?_, ?_⟩
      · exact .between b.progress [] range ranges rfl .nil (h.between heq hne) ⟨rfl, rfl, rfl⟩ rfl hpos
      · have hlisted := h.listed
        rw [heq] at hlisted
        exact hlisted
      · rw [Buffer.len, heq, total_append]
    obtain ⟨s, pos, rest, left, hscan, hscanned, hend⟩ :=
      scanFragments_spec htext hsorted houter (Nat.le_refl r.length)
    obtain ⟨s', p, hfinish, hdone⟩ := finishScan_spec htext hsorted hlen hscanned hend
    refine ⟨_, s'.ops, p, ?_, hdone.steps, hdone.editedTo⟩
    rw [hscan, Option.bind_some, hfinish, Option.map_some]

end Result

end InfiniShell.Editor
