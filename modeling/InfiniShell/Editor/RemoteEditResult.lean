import InfiniShell.Editor.LocalEditResult
import InfiniShell.Editor.RemoteEditSpec

namespace InfiniShell.Editor

open Collections Collections.ListCursor Crdt

structure PlacedAt (b : Buffer) (id : Lamport) (offset : Nat) (A X : Elements) (before : List Fragment) (f : Fragment)
    (after : List Fragment) : Prop where
  fragments : b.fragments = before ++ f :: after
  insertionId : f.insertion.id = id
  le : f.startCharacterOffset ≤ offset
  le' : offset ≤ f.endCharacterOffset
  lt : f.startCharacterOffset < offset ∨ before = [] ∧ offset = 0 ∧ f.endCharacterOffset = 0
  prefixElements : A = elements before ++ f.elementsBetween f.startCharacterOffset offset
  suffixElements : X = f.elementsBetween offset f.endCharacterOffset ++ elements after
  resolved : b.resolveFragmentId id offset = some f.id

section Place

variable {b : Buffer} {id : Lamport} {offset : Nat} {A X : Elements} {f : Fragment}

theorem resolveFragmentId_eq {before after : List Fragment} (h : b.Coherent)
    (heq : b.fragments = before ++ f :: after) (hle' : offset ≤ f.endCharacterOffset)
    (hlt : f.startCharacterOffset < offset ∨ before = [] ∧ offset = 0 ∧ f.endCharacterOffset = 0) :
    b.resolveFragmentId f.insertion.id offset = some f.id := by
  have hwell := h.wellFormed
  rw [heq] at hwell
  obtain ⟨hbefore, hle, -⟩ := hwell.around
  have htotal := hbefore.total_extent
  rw [Nat.zero_add] at htotal
  have hlist : b.insertionSplits.get f.insertion.id = some ((ofInsertion f.insertion.id before).map Fragment.split ++
      f.split :: (ofInsertion f.insertion.id after).map Fragment.split) := by
    rw [h.listed, heq, listing, ofInsertion_append, ofInsertion_cons_of_eq rfl, if_neg, List.map_append, List.map_cons]
    exact List.append_ne_nil_of_right_ne_nil _ (List.cons_ne_nil _ _)
  have hextent : f.split.extent = f.endCharacterOffset - f.startCharacterOffset := rfl
  rw [Buffer.resolveFragmentId, hlist, Option.bind_some, slice_append]
  · rfl
  · cases hlt with
    | inl hlt =>
      refine .inr (decide_eq_true ?_)
      omega
    | inr hzero =>
      refine .inl ?_
      rw [hzero.1]
      rfl
  · intro split hsplit
    cases Option.some.inj hsplit
    refine decide_eq_false ?_
    omega

theorem exists_placedAt (h : b.Coherent) (helements : elements b.fragments = A ++ X)
    (hanchor : anchorFor id offset = anchorOf A) (hbase : offset = 0 → id = Lamport.new baseReplicaId) :
    ∃ before f after, PlacedAt b id offset A X before f after := by
  by_cases hzero : offset = 0
  · obtain ⟨first, rest, heq, -, hinsertion, hstart, hstop, -⟩ := h.headed
    have hA : A = [] := by
      rw [anchorFor, if_pos hzero] at hanchor
      exact anchorOf_eq_none.mp hanchor.symm
    have hid : first.insertion.id = id := by rw [hinsertion, hbase hzero]
    have hresolved := resolveFragmentId_eq h (heq.trans (List.nil_append _).symm) (by omega) (.inr ⟨rfl, hzero, hstop⟩)
    refine ⟨[], first, rest, heq, hid, by omega, by omega, .inr ⟨rfl, hzero, hstop⟩, ?_, ?_, hid ▸ hresolved⟩
    · rw [hA, hzero, hstart, Fragment.elementsBetween_self]
      rfl
    · rw [heq, elements_cons, hA, List.nil_append] at helements
      rw [← helements, hzero, hstop, Fragment.elementsBetween_self,
        Fragment.elements_eq_nil (hstop.trans hstart.symm).le]
  · rw [anchorFor, if_neg hzero] at hanchor
    have hmem : (id, offset - 1) ∈ keys (elements b.fragments) := by
      rw [helements, keys_append]
      exact List.mem_append_left _ (anchorOf_mem hanchor.symm)
    obtain ⟨e, he, hkey⟩ := List.mem_map.mp hmem
    obtain ⟨f, hf, he⟩ := List.mem_flatMap.mp he
    obtain ⟨before, after, heq⟩ := List.append_of_mem hf
    have hend := h.ends_le f hf
    have hrange : (id, offset - 1) ∈ keys f.elements := hkey ▸ List.mem_map_of_mem he
    rw [Fragment.keys_elements hend] at hrange
    obtain ⟨i, hi, hpair⟩ := List.mem_map.mp hrange
    obtain ⟨hid, hoffset⟩ := Prod.mk.inj hpair
    rw [List.mem_range'_1, Fragment.len] at hi
    have hlt : f.startCharacterOffset < offset := by omega
    have hle' : offset ≤ f.endCharacterOffset := by omega
    have hcut := Fragment.elementsBetween_append hlt.le hle' hend
    have hsplit : elements b.fragments = (elements before ++ f.elementsBetween f.startCharacterOffset offset) ++
        (f.elementsBetween offset f.endCharacterOffset ++ elements after) := by
      rw [heq, elements_append, elements_cons, ← Fragment.elementsBetween_ends, ← hcut]
      simp only [List.append_assoc]
    have hnodup := h.wellFormed.nodup_keys
    have hplace : anchorOf (elements before ++ f.elementsBetween f.startCharacterOffset offset) = some (id, offset - 1) := by
      have hanchor' : anchorOf (f.elementsBetween f.startCharacterOffset offset) = anchorFor f.insertion.id offset :=
        Fragment.anchorOf_elements (f := { f with endCharacterOffset := offset }) (hle'.trans hend) hlt
      have hne : f.elementsBetween f.startCharacterOffset offset ≠ [] := by
        intro hnil
        rw [hnil, anchorOf_nil, anchorFor, if_neg hzero] at hanchor'
        exact absurd hanchor'.symm (Option.some_ne_none _)
      rw [anchorOf_append_of_ne_nil hne, hanchor', anchorFor, if_neg hzero, hid]
    obtain ⟨hA, hX⟩ := eq_of_anchorOf (helements.symm.trans hsplit) (helements ▸ hnodup) (hanchor.symm.trans hplace.symm)
    have hresolved := resolveFragmentId_eq h heq hle' (.inl hlt)
    exact ⟨before, f, after, heq, hid, hlt.le, hle', .inl hlt, hA, hX, hid ▸ hresolved⟩

theorem length_elementsBetween {start stop : Nat} (hstop : stop ≤ f.insertion.text.length) :
    (f.elementsBetween start stop).length = stop - start := by
  have hkeys := Fragment.keys_elements (f := { f with startCharacterOffset := start, endCharacterOffset := stop }) hstop
  have hlength := congrArg List.length hkeys
  rw [List.length_map, List.length_range', keys, List.length_map] at hlength
  exact hlength

end Place

/-- What an operation says of the buffer that it is applied to: `M` are the characters in its range. -/
structure ValidEdit (b : Buffer) (op : EditOperation) (A M R : Elements) : Prop where
  doc : elements b.fragments = A ++ M ++ R
  start : anchorFor op.startId op.startCharacterOffset = anchorOf A
  stop : anchorFor op.endId op.endCharacterOffset = anchorOf (A ++ M)
  startBase : op.startCharacterOffset = 0 → op.startId = Lamport.new baseReplicaId
  stopBase : op.endCharacterOffset = 0 → op.endId = Lamport.new baseReplicaId
  startLt : op.startId < op.lamportTimestamp
  stopLt : op.endId < op.lamportTimestamp
  new : ofInsertion op.lamportTimestamp b.fragments = []
  undos : b.undoHistory.undosOf op.lamportTimestamp = ∅

section Result

variable {b : Buffer} {op : EditOperation} {A M R : Elements} {F₁ F₂ G₁ G₂ : List Fragment} {fs fe : Fragment}

theorem PlacedAt.order (h : b.Coherent) (hs : PlacedAt b op.startId op.startCharacterOffset A (M ++ R) F₁ fs F₂)
    (he : PlacedAt b op.endId op.endCharacterOffset (A ++ M) R G₁ fe G₂) :
    (G₁ = F₁ ∧ fe = fs ∧ G₂ = F₂) ∨ ∃ G, F₂ = G ++ fe :: G₂ ∧ G₁ = F₁ ++ fs :: G := by
  have heq := hs.fragments.symm.trans he.fragments
  cases List.append_eq_append_iff.mp heq with
  | inl hlonger =>
    obtain ⟨l, hG, hl⟩ := hlonger
    cases l with
    | nil =>
      obtain ⟨hf, hrest⟩ := List.cons.inj hl
      rw [List.append_nil] at hG
      exact .inl ⟨hG, hf.symm, hrest.symm⟩
    | cons f l =>
      obtain ⟨hf, hrest⟩ := List.cons.inj hl
      exact .inr ⟨l, hrest, by rw [hG, hf]⟩
  | inr hshorter =>
    obtain ⟨l, hF, hl⟩ := hshorter
    cases l with
    | nil =>
      obtain ⟨hf, hrest⟩ := List.cons.inj hl
      rw [List.append_nil] at hF
      exact .inl ⟨hF.symm, hf, hrest⟩
    | cons f l =>
      exfalso
      obtain ⟨hf, hrest⟩ := List.cons.inj hl
      have hends := h.ends_le
      have hfs := hends fs (by rw [hs.fragments]; simp)
      have hfe := hends fe (by rw [he.fragments]; simp)
      have hlengthA := congrArg List.length hs.prefixElements
      have hlengthM := congrArg List.length he.prefixElements
      rw [hF, ← hf, elements_append, elements_cons] at hlengthA
      have hlengthE : (fe.elementsBetween fe.startCharacterOffset fe.endCharacterOffset).length = _ :=
        length_elementsBetween hfe
      rw [Fragment.elementsBetween_ends] at hlengthE
      have hle := he.le'
      have hle' := hs.le'
      have hlt : fs.startCharacterOffset < op.startCharacterOffset := by
        cases hs.lt with
        | inl hlt => exact hlt
        | inr hnil =>
          rw [hF] at hnil
          exact absurd hnil.1 (List.append_ne_nil_of_right_ne_nil _ (List.cons_ne_nil _ _))
      simp only [List.length_append, hlengthE, length_elementsBetween (hle'.trans hfs),
        length_elementsBetween (hle.trans hfe)] at hlengthA hlengthM
      omega

theorem Buffer.Coherent.ids_lt (h : b.Coherent) {f : Fragment} (heq : b.fragments = F₁ ++ f :: F₂) :
    (∀ g ∈ F₁, g.id < f.id) ∧ ∀ g ∈ F₂, f.id < g.id := by
  have hids := h.wellFormed.ordered.pairwise
  rw [heq, List.map_append, List.map_cons] at hids
  obtain ⟨-, hrest, hcross⟩ := List.pairwise_append.mp hids
  refine ⟨fun g hg => hcross g.id (List.mem_map_of_mem hg) f.id List.mem_cons_self, fun g hg => ?_⟩
  exact (List.pairwise_cons.mp hrest).1 g.id (List.mem_map_of_mem hg)

variable {new ahead : List Fragment}

theorem Buffer.Coherent.coheres (h : b.Coherent) (heq : b.fragments = new ++ ahead)
    (hne : new ≠ []) : Coheres b.undoHistory new ahead b.insertionSplits :=
  ⟨heq ▸ h.wellFormed, heq ▸ h.headed, heq ▸ h.listed, hne⟩

def EditOperation.text (op : EditOperation) : Option (List Char) := if op.newText = [] then none else some op.newText

theorem ValidEdit.pending (h : ValidEdit b op A M R) (heq : b.fragments = new ++ ahead) :
    Pending op b.undoHistory ⟨new, b.insertionSplits, op.text⟩ ahead := by
  refine ⟨h.undos, fun text htext => ?_⟩
  change text ∈ op.text at htext
  rw [EditOperation.text] at htext
  split at htext
  next => exact absurd htext.symm (Option.some_ne_none text)
  next hne =>
    rw [← Option.some.inj htext]
    exact ⟨rfl, hne, heq ▸ h.new⟩

theorem placed_text (new : List Fragment) (splits : InsertionSplits) (l : Elements) :
    (ApplyScan.mk new splits op.text).placed op l = place op.lamportTimestamp op.replacement.run l := by
  have hrun : op.replacement.run = runFrom op.lamportTimestamp 0 op.newText := rfl
  rw [ApplyScan.placed, EditOperation.text, hrun]
  by_cases hnil : op.newText = []
  · rw [if_pos hnil, hnil]
    exact (Replacement.place_nil op.lamportTimestamp l).symm
  · rw [if_neg hnil]

theorem run_text (new : List Fragment) (splits : InsertionSplits) :
    (ApplyScan.mk new splits op.text).run op = op.replacement.run := by
  have hrun : op.replacement.run = runFrom op.lamportTimestamp 0 op.newText := rfl
  rw [ApplyScan.run, EditOperation.text, hrun]
  by_cases hnil : op.newText = []
  · rw [if_pos hnil, hnil]
    rfl
  · rw [if_neg hnil]

def ValidEdit.result (op : EditOperation) (A M R : Elements) : Elements :=
  A ++ place op.lamportTimestamp op.replacement.run (M.map (op.replacement.markIf .within) ++ R)

theorem applied_skip (h : b.Coherent) (hop : ValidEdit b op A M R)
    (hs : PlacedAt b op.startId op.startCharacterOffset A (M ++ R) F₁ fs F₂)
    (he : PlacedAt b op.endId op.endCharacterOffset (A ++ M) R G₁ fe G₂)
    (hskip : op.startCharacterOffset = fs.endCharacterOffset) :
    Applied op b.undoHistory fs.id fe.id fs F₂ ⟨F₁ ++ [fs], b.insertionSplits, op.text⟩ (ValidEdit.result op A M R) := by
  have heq : b.fragments = (F₁ ++ [fs]) ++ F₂ := by
    rw [hs.fragments, List.append_assoc]
    rfl
  have hcoheres := h.coheres heq (by simp)
  have hpending := hop.pending heq
  have hends : EndsWith (F₁ ++ [fs]) fs := ⟨fs, List.getLast?_concat, rfl⟩
  have hlater := (h.ids_lt hs.fragments).2
  have hA : A = elements (F₁ ++ [fs]) := by
    rw [hs.prefixElements, hskip, Fragment.elementsBetween_ends, elements_append, elements_cons, elements_nil,
      List.append_nil]
  cases hs.order h he with
  | inl hsame =>
    obtain ⟨rfl, rfl, rfl⟩ := hsame
    have hM : M = [] := by
      have hlength := congrArg List.length he.prefixElements
      have hlengthA := congrArg List.length hs.prefixElements
      have hfe := h.ends_le fe (by rw [hs.fragments]; simp)
      have hle := he.le'
      simp only [List.length_append, length_elementsBetween (hle.trans hfe),
        length_elementsBetween (hs.le'.trans hfe)] at hlength hlengthA
      exact List.length_eq_zero_iff.mp (by omega)
    have hR : R = elements G₂ := by
      have hsuffix := hs.suffixElements
      rw [hM, List.nil_append, hskip, Fragment.elementsBetween_self, List.nil_append] at hsuffix
      exact hsuffix
    have happlied := applied_after hcoheres hends (fun g hg => ⟨hlater g hg, (hlater g hg).ne'⟩) hpending
    rw [placed_text] at happlied
    rw [ValidEdit.result, hA, hM, hR]
    exact happlied
  | inr hlonger =>
    obtain ⟨G, rfl, rfl⟩ := hlonger
    have hfe : fe ∈ b.fragments := by rw [he.fragments]; simp
    have hM : M = elements G ++ fe.elementsBetween fe.startCharacterOffset op.endCharacterOffset := by
      have hprefix := he.prefixElements
      rw [hA, elements_append, elements_append, elements_cons, elements_cons, elements_nil, List.append_nil] at hprefix
      simpa only [List.append_assoc, List.append_cancel_left_eq] using hprefix
    have hlt : fe.startCharacterOffset < op.endCharacterOffset := by
      cases he.lt with
      | inl hlt => exact hlt
      | inr hnil => exact absurd hnil.1 (List.append_ne_nil_of_right_ne_nil _ (List.cons_ne_nil _ _))
    have hbetween := (h.ids_lt he.fragments).1
    have hbehind := (h.ids_lt he.fragments).2
    have hfsfe : fs.id < fe.id := hlater fe (by simp)
    have hwithin := applied_within rfl hcoheres hends rfl hfsfe.ne'
      (fun g hg => ⟨hbetween g (by simp [hg]), (hlater g (by simp [hg])).ne'⟩)
      (fun g hg => ⟨hbehind g hg, (hlater g (by simp [hg])).ne'⟩) (he.insertionId ▸ hop.stopLt) hlt he.le' hpending
    rw [placed_text, ← hM, ← he.suffixElements] at hwithin
    rw [ValidEdit.result, hA]
    exact hwithin

theorem place_of_head {ts : Lamport} {run : Elements} {mk : Element Lamport Char → Element Lamport Char}
    (hmk : ∀ e, (mk e).id = e.id) (hhead : ∃ e l, M ++ R = e :: l ∧ e.id < ts) :
    place ts run (M.map mk ++ R) = run ++ (M.map mk ++ R) := by
  obtain ⟨e, l, heq, hlt⟩ := hhead
  cases M with
  | nil =>
    rw [List.nil_append] at heq
    rw [List.map_nil, List.nil_append, heq, place, if_pos hlt]
  | cons m M =>
    obtain ⟨hm, -⟩ := List.cons.inj heq
    rw [List.map_cons, List.cons_append, place, if_pos]
    rw [hmk, hm]
    exact hlt

theorem applied_split (h : b.Coherent) (hop : ValidEdit b op A M R)
    (hs : PlacedAt b op.startId op.startCharacterOffset A (M ++ R) F₁ fs F₂)
    (he : PlacedAt b op.endId op.endCharacterOffset (A ++ M) R G₁ fe G₂) {prev : Fragment}
    (hprev : F₁.getLast? = some prev) (hskip : op.startCharacterOffset ≠ fs.endCharacterOffset) :
    Applied op b.undoHistory fs.id fe.id prev (fs :: F₂) ⟨F₁, b.insertionSplits, op.text⟩
      (ValidEdit.result op A M R) := by
  have hne : F₁ ≠ [] := by
    intro hnil
    rw [hnil] at hprev
    exact absurd hprev.symm (Option.some_ne_none prev)
  have hlt : fs.startCharacterOffset < op.startCharacterOffset := hs.lt.resolve_right fun hnil => hne hnil.1
  have hlt' : op.startCharacterOffset < fs.endCharacterOffset := lt_of_le_of_ne hs.le' hskip
  have hcoheres := h.coheres hs.fragments hne
  have hpending := hop.pending hs.fragments
  have hends : EndsWith F₁ prev := ⟨prev, hprev, rfl⟩
  have hlater := (h.ids_lt hs.fragments).2
  have hfs := h.ends_le fs (by rw [hs.fragments]; simp)
  have hnone : ∀ {s' : ApplyScan} {ahead : List Fragment}, s'.newText = none → Pending op b.undoHistory s' ahead :=
    fun {s' ahead} hnone => ⟨hop.undos, fun text htext => by
      rw [hnone] at htext
      exact absurd htext (Option.some_ne_none text).symm⟩
  -- what is left of the fragment begins with an element older than the run
  have hplaced : ValidEdit.result op A M R =
      A ++ (op.replacement.run ++ (M.map (op.replacement.markIf .within) ++ R)) := by
    rw [ValidEdit.result, place_of_head fun e => congrArg Prod.fst (Replacement.markIf_key ..)]
    have hne : fs.elementsBetween op.startCharacterOffset fs.endCharacterOffset ≠ [] := by
      intro hnil
      have hlength : (fs.elementsBetween op.startCharacterOffset fs.endCharacterOffset).length = _ :=
        length_elementsBetween hfs
      rw [hnil, List.length_nil] at hlength
      omega
    obtain ⟨e, l, hel⟩ := List.exists_cons_of_ne_nil hne
    have he : e ∈ fs.elementsBetween op.startCharacterOffset fs.endCharacterOffset := by
      rw [hel]
      exact List.mem_cons_self
    refine ⟨e, l ++ elements F₂, ?_, ?_⟩
    · rw [hs.suffixElements, hel, List.cons_append]
    · have hid : e.id = fs.insertion.id := (Fragment.mem_elements he).1
      rw [hid, hs.insertionId]
      exact hop.startLt
  have hlengthA := congrArg List.length hs.prefixElements
  have hlengthM := congrArg List.length he.prefixElements
  have hfe := h.ends_le fe (by rw [he.fragments]; simp)
  simp only [List.length_append, length_elementsBetween (hs.le'.trans hfs),
    length_elementsBetween (he.le'.trans hfe)] at hlengthA hlengthM
  rw [hplaced]
  cases hs.order h he with
  | inl hsame =>
    obtain ⟨rfl, rfl, rfl⟩ := hsame
    have hle : op.startCharacterOffset ≤ op.endCharacterOffset := by
      have hstart := he.le
      omega
    have hM : M = fe.elementsBetween op.startCharacterOffset op.endCharacterOffset := by
      have hprefix := he.prefixElements
      rw [hs.prefixElements, ← Fragment.elementsBetween_append hlt.le hle (he.le'.trans hfe)] at hprefix
      simpa only [List.append_assoc, List.append_cancel_left_eq] using hprefix
    have hrange : splitRange op fe.id fe.id fe = ⟨op.startCharacterOffset, op.endCharacterOffset⟩ := by
      rw [splitRange, if_pos rfl, if_pos rfl]
    obtain ⟨s', happly, hnew, hs', hends', helements⟩ := applyToFragment_split hcoheres hends (.inl rfl) hrange hlt.le
      hle he.le' (hlt.trans_le hle) hlt' hpending
    have happlied := applied_after hs' hends' (fun g hg => ⟨hlater g hg, (hlater g hg).ne'⟩) (hnone hnew)
    refine Applied.step (fun hboth => lt_irrefl _ hboth.2) happly ?_
    rw [helements, ApplyScan.placed, hnew, run_text, ← hM] at happlied
    rw [he.suffixElements, hs.prefixElements]
    simpa only [List.append_assoc] using happlied
  | inr hlonger =>
    obtain ⟨G, rfl, rfl⟩ := hlonger
    have hM : M = fs.elementsBetween op.startCharacterOffset fs.endCharacterOffset ++
        (elements G ++ fe.elementsBetween fe.startCharacterOffset op.endCharacterOffset) := by
      have hprefix := he.prefixElements
      rw [hs.prefixElements, elements_append, elements_cons, ← Fragment.elementsBetween_ends fs,
        ← Fragment.elementsBetween_append hlt.le hlt'.le hfs] at hprefix
      simpa only [List.append_assoc, List.append_cancel_left_eq] using hprefix
    have hfsfe : fs.id < fe.id := hlater fe (by simp)
    have hrange : splitRange op fs.id fe.id fs = ⟨op.startCharacterOffset, fs.endCharacterOffset⟩ := by
      rw [splitRange, if_pos rfl, if_neg hfsfe.ne']
    obtain ⟨s', happly, hnew, hs', hends', helements⟩ := applyToFragment_split hcoheres hends (.inl rfl) hrange hlt.le
      hlt'.le (Nat.le_refl _) (hlt.trans hlt') hlt' hpending
    have hltE : fe.startCharacterOffset < op.endCharacterOffset := by
      cases he.lt with
      | inl hlt => exact hlt
      | inr hnil => exact absurd hnil.1 (List.append_ne_nil_of_right_ne_nil _ (List.cons_ne_nil _ _))
    have hbetween := (h.ids_lt he.fragments).1
    have hbehind := (h.ids_lt he.fragments).2
    have hwithin := applied_within rfl hs' hends' rfl hfsfe.ne'
      (fun g hg => ⟨hbetween g (by simp [hg]), (hlater g (by simp [hg])).ne'⟩)
      (fun g hg => ⟨hbehind g hg, (hlater g (by simp [hg])).ne'⟩) (he.insertionId ▸ hop.stopLt) hltE he.le' (hnone hnew)
    refine Applied.step (fun hboth => hfsfe.asymm hboth.2) happly ?_
    rw [helements, ApplyScan.placed, hnew, run_text, Fragment.elementsBetween_self, ← he.suffixElements] at hwithin
    rw [hM, hs.prefixElements]
    simpa only [List.append_assoc, List.map_append, List.nil_append] using hwithin

/-- A valid edit is applied: nothing fails, the trees fit again, and the characters are those that the operation
means. -/
theorem Buffer.Coherent.applyEdit (h : b.Coherent) (hop : ValidEdit b op A M R) :
    ∃ fragments insertionSplits, b.applyEdit op = some { b with fragments, insertionSplits } ∧
      WellFormed fragments b.undoHistory ∧ Headed fragments ∧ Listed fragments insertionSplits ∧
      elements fragments = op.replacement.apply (elements b.fragments) := by
  obtain ⟨F₁, fs, F₂, hs⟩ := exists_placedAt h (by rw [hop.doc, List.append_assoc]) hop.start hop.startBase
  obtain ⟨G₁, fe, G₂, he⟩ := exists_placedAt h hop.doc hop.stop hop.stopBase
  obtain ⟨last, hlast⟩ : ∃ last, b.fragments.getLast? = some last :=
    ⟨_, List.getLast?_eq_some_getLast (by rw [hs.fragments]; simp)⟩
  obtain ⟨htake, hdrop⟩ : b.fragments.takeWhile (·.id < fs.id) = F₁ ∧
      b.fragments.dropWhile (·.id < fs.id) = fs :: F₂ := by
    have hids := h.wellFormed.ordered.pairwise
    rw [hs.fragments] at hids ⊢
    exact cut_at_id hids
  obtain ⟨new, rest, prev, hcursor, hprev, hrest, happlied⟩ : ∃ new rest prev,
      Buffer.skipStart op F₁ (fs :: F₂) = some (new, rest) ∧ new.getLast? = some prev ∧ b.fragments = new ++ rest ∧
      Applied op b.undoHistory fs.id fe.id prev rest ⟨new, b.insertionSplits, op.text⟩ (ValidEdit.result op A M R) := by
    by_cases hskip : op.startCharacterOffset = fs.endCharacterOffset
    · refine ⟨F₁ ++ [fs], F₂, fs, if_pos hskip, List.getLast?_concat, ?_, applied_skip h hop hs he hskip⟩
      rw [hs.fragments, List.append_assoc]
      rfl
    · have hne : F₁ ≠ [] := by
        intro hnil
        cases hs.lt with
        | inl hlt =>
          obtain ⟨first, rest, heq, -, -, hstart, hstop, -⟩ := h.headed
          rw [hs.fragments, hnil] at heq
          have hle := hs.le'
          rw [(List.cons.inj heq).1, hstart] at hlt
          rw [(List.cons.inj heq).1, hstop] at hle
          omega
        | inr hzero => exact hskip (hzero.2.1.trans hzero.2.2.symm)
      have hprev := List.getLast?_eq_some_getLast hne
      exact ⟨F₁, fs :: F₂, F₁.getLast hne, if_neg hskip, hprev, hs.fragments, applied_split h hop hs he hprev hskip⟩
  obtain ⟨prev', ahead, s', s'', passed, hloop, hremaining, hpassed, hcoheres, helements⟩ := happlied
  have hle : ∀ f ∈ b.fragments, f.id ≤ last.id := by
    obtain ⟨init, hinit⟩ := List.getLast?_eq_some_iff.mp hlast
    intro f hf
    rw [hinit] at hf
    cases List.mem_append.mp hf with
    | inl hf => exact ((h.ids_lt hinit).1 f hf).le
    | inr hf => rw [List.mem_singleton.mp hf]
  have hahead : ahead.takeWhile (·.id ≤ last.id) = ahead := by
    have hall : ∀ f ∈ ahead, decide (f.id ≤ last.id) = true := by
      intro f hf
      apply decide_eq_true
      apply hle
      rw [hrest, hpassed]
      simp [hf]
    have htakeAll : (ahead ++ []).takeWhile (fun f : Fragment => decide (f.id ≤ last.id)) = _ := List.takeWhile_append_of_pos hall
    rwa [List.append_nil, List.takeWhile_nil, List.append_nil] at htakeAll
  have htext : (if op.newText = [] then none else some op.newText) = op.text := rfl
  refine ⟨s''.newFragments ++ ahead, s''.insertionSplits, ?_, hcoheres.wellFormed, hcoheres.headed, hcoheres.listed, ?_⟩
  · simp only [Buffer.applyEdit, hs.resolved, he.resolved, hlast, htake, hdrop, hcursor, htext, hprev, hloop, hremaining,
      hahead, Option.bind_eq_bind, Option.bind_some, Option.pure_def]
  · have hnodup := h.wellFormed.nodup_keys
    rw [hop.doc] at hnodup
    have happly := Replacement.apply_split (r := op.replacement) hnodup hop.start hop.stop
    rw [elements_append, helements, hop.doc, happly]
    rfl

end Result

end InfiniShell.Editor
