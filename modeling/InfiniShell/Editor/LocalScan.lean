import InfiniShell.Editor.LocalProgress

namespace InfiniShell.Editor

open Collections Collections.ListCursor Crdt

variable {undoHistory : UndoHistory} {newText : Option (List Char)} {p : Progress} {new rest ahead : List Fragment}
variable {f last : Fragment} {pos mid : Nat} {range : Range} {A M : Elements}

namespace Scanned

theorem end_le (h : Scanned undoHistory p new (f :: rest)) : f.endCharacterOffset ≤ f.insertion.text.length :=
  h.wellFormed.end_le

theorem lt (h : Scanned undoHistory p new (f :: rest)) : f.startCharacterOffset < f.endCharacterOffset :=
  h.headed.lt h.started List.mem_cons_self

section

variable (h : Scanned undoHistory p new ahead)
include h

theorem fresh (hf : f ∈ ahead) : f.Fresh undoHistory :=
  h.wellFormed.fresh f (List.mem_append_right new hf)

theorem exists_last : ∃ last, new.getLast? = some last :=
  ⟨new.getLast h.started, List.getLast?_eq_some_getLast h.started⟩

theorem ends_le :
    ∀ f ∈ new ++ ahead, f.endCharacterOffset ≤ f.insertion.text.length := fun _ hf => h.wellFormed.ends_le hf

theorem anchorOf_new (hlast : new.getLast? = some last) :
    anchorOf (elements new) = anchorFor last.insertion.id last.endCharacterOffset :=
  h.headed.anchorOf_elements h.ends_le hlast

theorem base_of_zero (hf : f ∈ new ++ ahead) :
    f.endCharacterOffset = 0 → f.insertion.id = Lamport.new baseReplicaId := by
  intro hzero
  obtain ⟨first, rest, heq, -, hinsertion, -, -, hrest⟩ := h.headed
  rw [heq] at hf
  cases List.mem_cons.mp hf with
  | inl hfirst => rw [hfirst, hinsertion]
  | inr hmem =>
    have hlt := hrest f hmem
    omega

end

section

variable (h : Scanned undoHistory p new (f :: rest))
include h

theorem pass : Scanned undoHistory p (new ++ [f]) rest := by
  have heq : new ++ [f] ++ rest = new ++ f :: rest := by simp
  refine ⟨h.sound, heq ▸ h.wellFormed, heq ▸ h.headed, by simp, ?_⟩
  exact fun g hg => h.aheadObserved g (List.mem_cons_of_mem f hg)

theorem cut (hlast : new.getLast? = some last)
    (hlt : f.startCharacterOffset < mid) (hlt' : mid < f.endCharacterOffset) :
    Scanned undoHistory p new (f.prefixTo last mid :: f.suffixFrom mid :: rest) := by
  refine ⟨h.sound, h.wellFormed.cutAt hlast hlt.le hlt'.le, h.headed.cutAt h.started hlt hlt', h.started, ?_⟩
  intro g hg
  have hf := h.aheadObserved f List.mem_cons_self
  cases List.mem_cons.mp hg with
  | inl heq => rw [heq]; exact hf
  | inr hg =>
    cases List.mem_cons.mp hg with
    | inl heq => rw [heq]; exact hf
    | inr hg => exact h.aheadObserved g (List.mem_cons_of_mem f hg)

theorem mark : Scanned undoHistory p new (f.markDeletion p.clock.tick undoHistory :: rest) := by
  refine ⟨h.sound, h.wellFormed.mark h.sound.undos_tick, h.headed.mark h.started, h.started, ?_⟩
  intro g hg
  cases List.mem_cons.mp hg with
  | inl heq => rw [heq]; exact h.aheadObserved f List.mem_cons_self
  | inr hg => exact h.aheadObserved g (List.mem_cons_of_mem f hg)

end

theorem ofInsertion_tick (h : Scanned undoHistory p new ahead)
    (hnew : ∀ f ∈ new, p.versions.observed f.insertion.id = true) : ofInsertion p.clock.tick (new ++ ahead) = [] := by
  rw [ofInsertion_eq_nil]
  intro g hg heq
  have hobserved : p.versions.observed g.insertion.id = true := by
    cases List.mem_append.mp hg with
    | inl hg => exact hnew g hg
    | inr hg => exact h.aheadObserved g hg
  rw [heq, h.sound.not_observed_tick] at hobserved
  exact Bool.false_ne_true hobserved

theorem insert {text : List Char} {style : Option TextStyle} (h : Scanned undoHistory p new ahead)
    (hlast : new.getLast? = some last)
    (htext : text ≠ []) (hnew : ∀ f ∈ new, p.versions.observed f.insertion.id = true) :
    Scanned undoHistory p
      (new ++ [Fragment.new (FragmentId.mid last.id (nextId ahead)) ⟨p.clock.tick, text, style⟩]) ahead := by
  have hfresh := h.ofInsertion_tick hnew
  refine ⟨h.sound, ?_, ?_, by simp, h.aheadObserved⟩
  · rw [List.append_assoc]
    exact h.wellFormed.insert hlast hfresh h.sound.undos_tick
  · rw [List.append_assoc]
    exact h.headed.insert h.started htext

end Scanned

theorem Fragment.visibleLen_part {part : Fragment} (h : PartOf part f) :
    part.visibleLen undoHistory = if f.isVisibleIn undoHistory then part.len else 0 := by
  rw [Fragment.visibleLen, Fragment.PartOf.isVisibleIn h]

namespace Between

theorem pass (h : Between undoHistory p new (f :: rest) pos) :
    Between undoHistory p (new ++ [f]) rest (pos + f.chars) := by
  have hsingle : elements [f] = f.elements := List.append_nil _
  refine ⟨h.toScanned.pass, ?_, ?_, ?_⟩
  · intro g hg
    cases List.mem_append.mp hg with
    | inl hg => exact h.newObserved g hg
    | inr hg =>
      rw [List.mem_singleton.mp hg]
      exact h.aheadObserved f List.mem_cons_self
  · rw [h.doc, List.append_assoc]
    rfl
  · have hcount := h.count
    rw [elements_append, visibleCount_append, hsingle, visibleCount_fragment _ h.end_le,
      ← (h.fresh List.mem_cons_self).chars_eq]
    omega

theorem passAll {l : List Fragment} (h : Between undoHistory p new (l ++ rest) pos) :
    Between undoHistory p (new ++ l) rest (pos + total Fragment.chars l) := by
  induction l generalizing new pos with
  | nil =>
    rw [List.append_nil]
    exact h
  | cons f l ih =>
    have h := ih h.pass
    rw [List.append_assoc, List.singleton_append, Nat.add_assoc, ← total_cons] at h
    exact h

theorem cut (h : Between undoHistory p new (f :: rest) pos) (hlast : new.getLast? = some last)
    (hvisible : f.isVisibleIn undoHistory = true) (hlt : f.startCharacterOffset < mid)
    (hlt' : mid < f.endCharacterOffset) :
    Between undoHistory p (new ++ [f.prefixTo last mid]) (f.suffixFrom mid :: rest)
      (pos + (mid - f.startCharacterOffset)) := by
  have hcut : Between undoHistory p new (f.prefixTo last mid :: f.suffixFrom mid :: rest) pos := by
    have hcutElements : f.elements = (f.prefixTo last mid).elements ++ (f.suffixFrom mid).elements :=
      (Fragment.elements_cutAt hlt.le hlt'.le h.end_le).symm
    refine ⟨h.toScanned.cut hlast hlt hlt', h.newObserved, ?_, h.count⟩
    rw [h.doc, elements_append, elements_append, elements_cons, elements_cons, elements_cons,
      hcutElements, List.append_assoc]
  have hchars : (f.prefixTo last mid).chars = mid - f.startCharacterOffset := by
    rw [(hcut.fresh List.mem_cons_self).chars_eq, Fragment.visibleLen_part (Fragment.partOf_prefixTo f last mid),
      if_pos hvisible]
    rfl
  have hpass := hcut.pass
  rwa [hchars] at hpass

section

variable (h : Between undoHistory p new ahead pos)
include h

theorem startsAt (hlast : new.getLast? = some last) (args : OperationEditArgs) :
    StartsAt p (args.updateStart last.insertion.id last.endCharacterOffset) (elements new) :=
  ⟨_, _, rfl, rfl, (h.anchorOf_new hlast).symm, h.newObserved last (List.mem_of_getLast? hlast),
    h.base_of_zero (List.mem_append_left ahead (List.mem_of_getLast? hlast))⟩

theorem endsAt (hlast : new.getLast? = some last) (args : OperationEditArgs) :
    EndsAt p (args.updateEnd last.insertion.id last.endCharacterOffset) (elements new) :=
  ⟨_, _, rfl, rfl, (h.anchorOf_new hlast).symm, h.newObserved last (List.mem_of_getLast? hlast),
    h.base_of_zero (List.mem_append_left ahead (List.mem_of_getLast? hlast))⟩

theorem openDelete (hstart : range.start = pos) :
    Opened undoHistory none p new ahead pos range (elements new) [] := by
  refine ⟨h.toScanned, fun f hf => Or.inr (h.newObserved f hf), ?_, ?_, ?_, ?_⟩
  · rw [List.map_nil, List.append_nil]
    exact (List.append_nil _).symm
  · rw [h.doc, elements_append, List.append_nil]
  · rw [hstart]
    exact h.count
  · rw [visibleCount_nil, hstart]
    rfl

end

theorem openInsert {text : List Char} (style : Option TextStyle) (h : Between undoHistory p new ahead pos) (hstart : range.start = pos)
    (hlast : new.getLast? = some last) (htext : text ≠ []) :
    Opened undoHistory (some text) p
      (new ++ [Fragment.new (FragmentId.mid last.id (nextId ahead)) ⟨p.clock.tick, text, style⟩]) ahead pos range
      (elements new) [] := by
  refine ⟨h.toScanned.insert hlast htext h.newObserved, ?_, ?_, ?_, ?_, ?_⟩
  · intro g hg
    cases List.mem_append.mp hg with
    | inl hg => exact Or.inr (h.newObserved g hg)
    | inr hg =>
      rw [List.mem_singleton.mp hg]
      exact Or.inl rfl
  · rw [elements_append, elements_cons, elements_nil, List.append_nil, Fragment.elements_new, List.map_nil,
      List.append_nil]
    rfl
  · rw [h.doc, elements_append, List.append_nil]
  · rw [hstart]
    exact h.count
  · rw [visibleCount_nil, hstart]
    rfl

end Between

namespace Opened

section

variable (h : Opened undoHistory newText p new (f :: rest) pos range A M)
include h

theorem mark :
    Opened undoHistory newText p (new ++ [f.markDeletion p.clock.tick undoHistory]) rest (pos + f.visibleLen undoHistory)
      range A (M ++ f.elements) := by
  have hsingle : elements [f.markDeletion p.clock.tick undoHistory] = f.elements.map (Element.mark p.clock.tick) :=
    (List.append_nil _).trans (Fragment.elements_mark _)
  refine ⟨h.toScanned.mark.pass, ?_, ?_, ?_, h.countA, ?_⟩
  · intro g hg
    cases List.mem_append.mp hg with
    | inl hg => exact h.newObserved g hg
    | inr hg =>
      rw [List.mem_singleton.mp hg]
      exact Or.inr (h.aheadObserved f List.mem_cons_self)
  · rw [elements_append, hsingle, h.elementsNew, List.map_append, List.append_assoc]
  · rw [h.doc, elements_cons, List.append_assoc, List.append_assoc, List.append_assoc]
  · have hcount := h.countM
    rw [visibleCount_append, visibleCount_fragment _ h.end_le]
    omega

theorem cut (hlast : new.getLast? = some last)
    (hlt : f.startCharacterOffset < mid) (hlt' : mid < f.endCharacterOffset) :
    Opened undoHistory newText p new (f.prefixTo last mid :: f.suffixFrom mid :: rest) pos range A M := by
  have hcutElements : f.elements = (f.prefixTo last mid).elements ++ (f.suffixFrom mid).elements :=
    (Fragment.elements_cutAt hlt.le hlt'.le h.end_le).symm
  refine ⟨h.toScanned.cut hlast hlt hlt', h.newObserved, h.elementsNew, ?_, h.countA, h.countM⟩
  rw [h.doc, elements_cons, elements_cons, elements_cons,
    hcutElements, List.append_assoc (f.prefixTo last mid).elements]

theorem cutMark (hlast : new.getLast? = some last)
    (hvisible : f.isVisibleIn undoHistory = true) (hlt : f.startCharacterOffset < mid)
    (hlt' : mid < f.endCharacterOffset) :
    Opened undoHistory newText p (new ++ [(f.prefixTo last mid).markDeletion p.clock.tick undoHistory])
      (f.suffixFrom mid :: rest) (pos + (mid - f.startCharacterOffset)) range A
      (M ++ (f.prefixTo last mid).elements) := by
  have hlen : (f.prefixTo last mid).visibleLen undoHistory = mid - f.startCharacterOffset := by
    rw [Fragment.visibleLen_part (Fragment.partOf_prefixTo f last mid), if_pos hvisible]
    rfl
  have hmark := (h.cut hlast hlt hlt').mark
  rwa [hlen] at hmark

end

theorem anchorOf_append {g : Fragment} (hend : g.endCharacterOffset ≤ g.insertion.text.length)
    (hlt : g.startCharacterOffset < g.endCharacterOffset) :
    anchorOf (A ++ (M ++ g.elements)) = anchorFor g.insertion.id g.endCharacterOffset := by
  have hg := Fragment.anchorOf_elements hend hlt
  have hne : g.elements ≠ [] := by
    intro hnil
    rw [hnil, anchorOf_nil, anchorFor, if_neg (by omega)] at hg
    exact absurd hg.symm (Option.some_ne_none _)
  rw [← List.append_assoc, anchorOf, List.getLast?_append_of_ne_nil _ hne]
  exact hg

theorem close (h : Opened undoHistory newText p new ahead pos range A M) (hpos : pos = range.stop)
    {args : OperationEditArgs} (hargs : ArgsFor newText p args) (hstart : StartsAt p args A)
    (hstop : EndsAt p args (A ++ M)) :
    ∃ op p', args.tryInto = some op ∧ LocalStep undoHistory newText p range op p' A M (elements ahead) ∧
      Between undoHistory p' new ahead range.stop := by
  obtain ⟨startId, startOffset, hstartId, hstartOffset, hstartAnchor, hstartObserved, hstartBase⟩ := hstart
  obtain ⟨endId, endOffset, hendId, hendOffset, hendAnchor, hendObserved, hendBase⟩ := hstop
  have hle : range.start ≤ range.stop := by
    have hcount := h.countM
    omega
  refine ⟨⟨args.lamportTimestamp, args.versionInRange, startId, startOffset, endId, endOffset, args.newText⟩,
    ⟨p.clock.tick, p.versions.observe p.clock.tick,
      A ++ newRun p.clock.tick newText ++ M.map (Element.mark p.clock.tick) ++ elements ahead,
      p.shift + (newText.getD []).length - (range.stop - range.start)⟩, ?_, ?_, ?_⟩
  · simp only [OperationEditArgs.tryInto, hstartId, hstartOffset, hendId, hendOffset, Option.bind_eq_bind,
      Option.bind_some, Option.pure_def]
  · exact ⟨h.doc, hargs.lamportTimestamp, hargs.versionInRange, hstartAnchor, hendAnchor, hstartBase,
      hendBase, hstartObserved, hendObserved,
      hargs.newText, h.countA, by rw [h.countM, hpos], rfl, rfl, rfl, rfl⟩
  · have hmono : ∀ id, p.versions.observed id = true → (p.versions.observe p.clock.tick).observed id = true :=
      fun id hid => Global.observed_observe hid
    refine ⟨⟨h.sound.next rfl rfl, h.wellFormed, h.headed, h.started, ?_⟩, ?_, ?_, ?_⟩
    · exact fun f hf => hmono _ (h.aheadObserved f hf)
    · intro f hf
      cases h.newObserved f hf with
      | inl heq => rw [heq]; exact Global.observed_self _ _
      | inr hobserved => exact hmono _ hobserved
    · rw [elements_append, h.elementsNew]
    · have hcountA := h.countA
      have hundos := h.sound.undos_tick
      rw [h.elementsNew, visibleCount_append, visibleCount_append, visibleCount_run hundos, visibleCount_mark hundos]
      push_cast
      omega

end Opened

end InfiniShell.Editor
