import InfiniShell.Editor.Coherence
import InfiniShell.Crdt.ReplicatedText
import Mathlib.Data.List.Range

namespace InfiniShell.Editor

open Collections Collections.ListCursor Crdt

abbrev Elements := List (Element Lamport Char)

def Fragment.elements (f : Fragment) : Elements :=
  (runFrom f.insertion.id f.startCharacterOffset f.text).map fun e => { e with deletions := f.deletions }

/-- The characters of the buffer, the invisible ones too. -/
def elements (fragments : List Fragment) : Elements := fragments.flatMap Fragment.elements

/-- The place behind a character offset of an insertion; the offset 0 stands for the head of the buffer. -/
def anchorFor (id : Lamport) (offset : Nat) : Option (Key Lamport) :=
  if offset = 0 then none else some (id, offset - 1)

def EditOperation.replacement (op : EditOperation) : Replacement Lamport Char :=
  { ts := op.lamportTimestamp
    start := anchorFor op.startId op.startCharacterOffset
    stop := anchorFor op.endId op.endCharacterOffset
    observed := op.versions.observed
    values := op.newText }

@[simp] theorem elements_nil : elements [] = [] := rfl

@[simp] theorem elements_cons (f : Fragment) (fragments : List Fragment) :
    elements (f :: fragments) = f.elements ++ elements fragments := List.flatMap_cons ..

@[simp] theorem elements_append (l r : List Fragment) : elements (l ++ r) = elements l ++ elements r :=
  List.flatMap_append ..

section Run

theorem runFrom_append (ts : Lamport) (offset : Nat) (l r : List Char) :
    runFrom ts offset (l ++ r) = (runFrom ts offset l ++ runFrom ts (offset + l.length) r : Elements) := by
  induction l generalizing offset with
  | nil => rfl
  | cons c l ih =>
    have heq : offset + (c :: l).length = offset + 1 + l.length := by
      rw [List.length_cons]
      omega
    rw [List.cons_append, runFrom, ih, runFrom, heq, List.cons_append]

theorem keys_runFrom (ts : Lamport) (offset : Nat) (values : List Char) :
    keys (runFrom ts offset values) = (List.range' offset values.length).map fun i => (ts, i) := by
  induction values generalizing offset with
  | nil => rfl
  | cons c values ih =>
    change (ts, offset) :: keys (runFrom ts (offset + 1) values) = _
    rw [ih, List.length_cons, List.range'_succ, List.map_cons]

theorem mem_runFrom {ts : Lamport} {offset : Nat} {values : List Char} {e : Element Lamport Char}
    (h : e ∈ runFrom ts offset values) : e.id = ts ∧ e.deletions = ∅ := by
  induction values generalizing offset with
  | nil => exact absurd h List.not_mem_nil
  | cons c values ih =>
    cases List.mem_cons.mp h with
    | inl heq => rw [heq]; exact ⟨rfl, rfl⟩
    | inr hmem => exact ih hmem

theorem map_value_runFrom (ts : Lamport) (offset : Nat) (values : List Char) :
    (runFrom ts offset values).map Element.value = values := by
  induction values generalizing offset with
  | nil => rfl
  | cons c values ih => exact congrArg (c :: ·) (ih (offset + 1))

end Run

namespace Fragment

variable {f : Fragment} {undoHistory : UndoHistory}

theorem length_text (h : f.endCharacterOffset ≤ f.insertion.text.length) : f.text.length = f.len := by
  rw [text, List.length_take, List.length_drop, len]
  omega

variable {e : Element Lamport Char}

theorem mem_elements (h : e ∈ f.elements) : e.id = f.insertion.id ∧ e.deletions = f.deletions := by
  obtain ⟨d, hd, rfl⟩ := List.mem_map.mp h
  exact ⟨(mem_runFrom hd).1, rfl⟩

theorem keys_elements (h : f.endCharacterOffset ≤ f.insertion.text.length) :
    keys f.elements = (List.range' f.startCharacterOffset f.len).map fun i => (f.insertion.id, i) := by
  have hkeys : keys f.elements = keys (runFrom f.insertion.id f.startCharacterOffset f.text) := by
    rw [keys, elements, List.map_map]
    rfl
  rw [hkeys, keys_runFrom, length_text h]

theorem visible_elements (h : e ∈ f.elements) :
    e.visible undoHistory.isEditUndone = f.isVisibleIn undoHistory := by
  obtain ⟨hid, hdeletions⟩ := mem_elements h
  rw [Element.visible, isVisibleIn, hid, hdeletions]

theorem seen_elements : seen undoHistory.isEditUndone f.elements = if f.isVisibleIn undoHistory then f.text else [] := by
  cases hvisible : f.isVisibleIn undoHistory with
  | true =>
    have hfilter : f.elements.filter (Element.visible undoHistory.isEditUndone) = f.elements :=
      List.filter_eq_self.mpr fun e he => (visible_elements he).trans hvisible
    rw [seen, hfilter, elements, List.map_map, if_pos rfl]
    exact map_value_runFrom f.insertion.id f.startCharacterOffset f.text
  | false =>
    have hfilter : f.elements.filter (Element.visible undoHistory.isEditUndone) = [] :=
      List.filter_eq_nil_iff.mpr fun e he => by
        rw [visible_elements he, hvisible]
        exact Bool.false_ne_true
    rw [seen, hfilter, if_neg Bool.false_ne_true]
    rfl

theorem elements_mark (ts : Lamport) :
    (f.markDeletion ts undoHistory).elements = f.elements.map (Element.mark ts) := by
  rw [elements, elements, List.map_map]
  rfl

theorem elements_new (fragmentId : FragmentId) (insertion : Insertion) :
    (Fragment.new fragmentId insertion).elements = runFrom insertion.id 0 insertion.text := by
  have htext : (Fragment.new fragmentId insertion).text = insertion.text := by
    change (insertion.text.drop 0).take (insertion.text.length - 0) = insertion.text
    rw [List.drop_zero, Nat.sub_zero, List.take_length]
  rw [elements, htext]
  have hmap : ∀ e ∈ runFrom insertion.id 0 insertion.text,
      ({ e with deletions := ∅ } : Element Lamport Char) = e := by
    intro e he
    rw [← (mem_runFrom he).2]
  exact (List.map_congr_left hmap).trans (List.map_id' _)

theorem elements_cut {pre suffix : Fragment} (hpre : PartOf pre f) (hsuffix : PartOf suffix f)
    (hstart : pre.startCharacterOffset = f.startCharacterOffset)
    (hmid : suffix.startCharacterOffset = pre.endCharacterOffset)
    (hstop : suffix.endCharacterOffset = f.endCharacterOffset)
    (hle : pre.startCharacterOffset ≤ pre.endCharacterOffset)
    (hle' : suffix.startCharacterOffset ≤ suffix.endCharacterOffset)
    (hend : f.endCharacterOffset ≤ f.insertion.text.length) : pre.elements ++ suffix.elements = f.elements := by
  have htext : f.text = pre.text ++ suffix.text := by
    have hlen : f.len = pre.len + suffix.len := by
      simp only [len]
      omega
    have hdrop : suffix.startCharacterOffset = f.startCharacterOffset + pre.len := by
      simp only [len]
      omega
    rw [text, text, text, hpre.insertion, hsuffix.insertion, hstart, hlen, List.take_add, List.drop_drop, hdrop]
  have hlength : pre.startCharacterOffset + pre.text.length = suffix.startCharacterOffset := by
    rw [length_text (by rw [hpre.insertion]; omega), len]
    omega
  rw [elements, elements, elements, hpre.insertion, hsuffix.insertion, hpre.deletions, hsuffix.deletions, htext,
    ← hstart, runFrom_append, hlength, List.map_append]

end Fragment

section Keys

variable {fragments : List Fragment} {undoHistory : UndoHistory}

theorem Covers.keys {insertion : Insertion} {start stop : Nat} {l : List Fragment} (h : Covers insertion start stop l)
    (hstop : stop ≤ insertion.text.length) :
    keys (elements l) = (List.range' start (stop - start)).map fun i => (insertion.id, i) := by
  induction l generalizing start with
  | nil =>
    cases h
    rw [Nat.sub_self]
    rfl
  | cons f l ih =>
    obtain ⟨hinsertion, hstart, hle, h⟩ := h
    have hle' := h.le
    have hf : f.endCharacterOffset ≤ f.insertion.text.length := hinsertion ▸ hle'.trans hstop
    have hlen : f.startCharacterOffset + f.len = f.endCharacterOffset := by
      rw [Fragment.len]
      omega
    have hsum : stop - start = f.len + (stop - f.endCharacterOffset) := by omega
    rw [elements_cons, keys_append, Fragment.keys_elements hf, ih h, hsum, ← List.range'_append_1, List.map_append,
      hinsertion, ← hlen, hstart]

theorem keys_ofInsertion (id : Lamport) (fragments : List Fragment) :
    keys (elements (ofInsertion id fragments)) = (keys (elements fragments)).filter fun key => key.1 = id := by
  induction fragments with
  | nil => rfl
  | cons f fragments ih =>
    have hid : ∀ key ∈ keys f.elements, key.1 = f.insertion.id := by
      intro key hkey
      obtain ⟨e, he, rfl⟩ := List.mem_map.mp hkey
      exact (Fragment.mem_elements he).1
    rw [elements_cons, keys_append, List.filter_append, ← ih]
    by_cases heq : f.insertion.id = id
    · rw [ofInsertion_cons_of_eq heq, elements_cons, keys_append,
        List.filter_eq_self.mpr fun key hkey => decide_eq_true ((hid key hkey).trans heq)]
    · rw [ofInsertion_cons_of_ne heq, List.filter_eq_nil_iff.mpr fun key hkey => by
        rw [decide_eq_true_eq, hid key hkey]
        exact heq]
      rfl

theorem WellFormed.nodup_keys (h : WellFormed fragments undoHistory) : (keys (elements fragments)).Nodup := by
  rw [List.nodup_iff_count_le_one]
  intro key
  have hcount : (keys (elements fragments)).count key = (keys (elements (ofInsertion key.1 fragments))).count key := by
    rw [keys_ofInsertion]
    exact (List.count_filter (p := fun other : Key Lamport => decide (other.1 = key.1)) (decide_eq_true rfl)).symm
  rw [hcount]
  by_cases hnil : ofInsertion key.1 fragments = []
  · rw [hnil]
    exact Nat.zero_le 1
  · obtain ⟨insertion, hcovers⟩ := h.tiled key.1 hnil
    rw [hcovers.keys (Nat.le_refl _)]
    refine List.nodup_iff_count_le_one.mp ?_ key
    exact List.Nodup.map (fun i j hij => congrArg Prod.snd hij) List.nodup_range'

theorem mem_keys_elements {key : Key Lamport} (h : key ∈ keys (elements fragments)) :
    ∃ f ∈ fragments, f.insertion.id = key.1 := by
  obtain ⟨e, he, rfl⟩ := List.mem_map.mp h
  obtain ⟨f, hf, he⟩ := List.mem_flatMap.mp he
  exact ⟨f, hf, (Fragment.mem_elements he).1.symm⟩

end Keys

section Anchor

variable {f : Fragment}

theorem Fragment.anchorOf_elements (h : f.endCharacterOffset ≤ f.insertion.text.length)
    (hlt : f.startCharacterOffset < f.endCharacterOffset) :
    anchorOf f.elements = anchorFor f.insertion.id f.endCharacterOffset := by
  have hlast : (keys f.elements).getLast? = some (f.insertion.id, f.endCharacterOffset - 1) := by
    have hlen : f.len = f.len - 1 + 1 := by
      rw [Fragment.len]
      omega
    have hend : f.startCharacterOffset + (f.len - 1) = f.endCharacterOffset - 1 := by
      rw [Fragment.len]
      omega
    rw [Fragment.keys_elements h, hlen, List.range'_1_concat, List.map_append, List.map_singleton,
      List.getLast?_concat, hend]
  rw [anchorOf, ← List.getLast?_map, anchorFor, if_neg (by omega)]
  exact hlast

theorem Fragment.elements_eq_nil (h : f.endCharacterOffset ≤ f.startCharacterOffset) : f.elements = [] := by
  have htext : f.text = [] := by
    rw [Fragment.text, Fragment.len, Nat.sub_eq_zero_of_le h, List.take_zero]
  rw [Fragment.elements, htext]
  rfl

theorem Headed.anchorOf_elements {A B : List Fragment} {last : Fragment} (h : Headed (A ++ B))
    (hends : ∀ f ∈ A ++ B, f.endCharacterOffset ≤ f.insertion.text.length) (hlast : A.getLast? = some last) :
    anchorOf (elements A) = anchorFor last.insertion.id last.endCharacterOffset := by
  obtain ⟨first, rest, heq, -, -, hstart, hstop, hrest⟩ := h
  obtain ⟨A', rfl⟩ := List.getLast?_eq_some_iff.mp hlast
  cases A' with
  | nil =>
    obtain ⟨hfirst, -⟩ := List.cons.inj heq
    rw [List.nil_append, elements_cons, elements_nil, List.append_nil, hfirst,
      Fragment.elements_eq_nil (hstop.trans hstart.symm).le, hstop]
    rfl
  | cons f A' =>
    obtain ⟨-, hrest'⟩ := List.cons.inj heq
    have hlt : last.startCharacterOffset < last.endCharacterOffset := by
      apply hrest
      rw [← hrest']
      simp
    have hne : last.elements ≠ [] := by
      intro hnil
      have hanchor := Fragment.anchorOf_elements (hends last (by simp)) hlt
      rw [hnil, anchorOf_nil, anchorFor, if_neg (by omega)] at hanchor
      exact absurd hanchor (Option.some_ne_none _).symm
    have hsingle : elements [last] = last.elements := List.append_nil _
    rw [elements_append, hsingle, anchorOf, List.getLast?_append_of_ne_nil _ hne]
    exact Fragment.anchorOf_elements (hends last (by simp)) hlt

end Anchor

section Text

variable {fragments : List Fragment} {undoHistory : UndoHistory} {f : Fragment}

theorem WellFormed.ends_le (h : WellFormed fragments undoHistory) (hf : f ∈ fragments) :
    f.endCharacterOffset ≤ f.insertion.text.length := by
  obtain ⟨A, B, rfl⟩ := List.append_of_mem hf
  exact h.end_le

theorem length_seen_fragment (hfresh : f.Fresh undoHistory)
    (hend : f.endCharacterOffset ≤ f.insertion.text.length) :
    (seen undoHistory.isEditUndone f.elements).length = f.chars := by
  rw [Fragment.seen_elements, Fragment.chars, hfresh.isVisible]
  cases f.isVisibleIn undoHistory with
  | true => exact Fragment.length_text hend
  | false => rfl

theorem total_chars (hfresh : ∀ f ∈ fragments, f.Fresh undoHistory)
    (hends : ∀ f ∈ fragments, f.endCharacterOffset ≤ f.insertion.text.length) :
    total Fragment.chars fragments = (seen undoHistory.isEditUndone (elements fragments)).length := by
  induction fragments with
  | nil => rfl
  | cons f fragments ih =>
    have ih := ih (fun g hg => hfresh g (List.mem_cons_of_mem f hg)) (fun g hg => hends g (List.mem_cons_of_mem f hg))
    rw [total_cons, elements_cons, seen_append, List.length_append, ih,
      length_seen_fragment (hfresh f List.mem_cons_self) (hends f List.mem_cons_self)]

theorem Fragment.Fresh.chars_eq (h : f.Fresh undoHistory) : f.chars = f.visibleLen undoHistory := by
  rw [Fragment.chars, Fragment.visibleLen, h.isVisible]

theorem charsAfter_eq (hlt : ∀ f ∈ fragments, f.startCharacterOffset < f.endCharacterOffset)
    (hends : ∀ f ∈ fragments, f.endCharacterOffset ≤ f.insertion.text.length) :
    Buffer.charsAfter undoHistory fragments = seen undoHistory.isEditUndone (elements fragments) := by
  induction fragments with
  | nil => rfl
  | cons f fragments ih =>
    have ih := ih (fun g hg => hlt g (List.mem_cons_of_mem f hg)) (fun g hg => hends g (List.mem_cons_of_mem f hg))
    have hne : f.text ≠ [] := by
      have hlen := Fragment.length_text (hends f List.mem_cons_self)
      have hpos := hlt f List.mem_cons_self
      intro hnil
      rw [hnil, Fragment.len] at hlen
      change 0 = _ at hlen
      omega
    rw [elements_cons, seen_append, Fragment.seen_elements, Buffer.charsAfter, ih, if_neg hne]
    cases f.isVisibleIn undoHistory with
    | true => rfl
    | false => rfl

theorem seen_eq_nil (h : total Fragment.chars fragments = 0) (hfresh : ∀ f ∈ fragments, f.Fresh undoHistory)
    (hends : ∀ f ∈ fragments, f.endCharacterOffset ≤ f.insertion.text.length) :
    seen undoHistory.isEditUndone (elements fragments) = [] := by
  rw [← List.length_eq_zero_iff, ← total_chars hfresh hends, h]

end Text

theorem Buffer.text_eq {b : Buffer} (h : WellFormed b.fragments b.undoHistory) (hhead : Headed b.fragments) :
    b.text = seen b.undoHistory.isEditUndone (elements b.fragments) := by
  obtain ⟨l, r, heq, hslice, hl, hr⟩ := @slice_spec _ Fragment.chars .right 0 0 b.fragments
  have hfresh := h.fresh
  have hends : ∀ f ∈ b.fragments, f.endCharacterOffset ≤ f.insertion.text.length := fun f hf => h.ends_le hf
  rw [heq] at hfresh hends
  have hzero : total Fragment.chars l = 0 := by
    cases hl with
    | inl hnil => rw [hnil]; rfl
    | inr hpass =>
      have hle := of_decide_eq_true hpass
      omega
  have hnil := seen_eq_nil hzero (fun f hf => hfresh f (List.mem_append_left r hf))
    (fun f hf => hends f (List.mem_append_left r hf))
  rw [Buffer.text, hslice, heq, elements_append, seen_append, hnil, List.nil_append]
  cases r with
  | nil => rfl
  | cons f r =>
    have hf : f ∈ l ++ f :: r := by simp
    have hchars := of_decide_eq_false (hr f rfl)
    rw [hzero, Fragment.chars, (hfresh f hf).isVisible] at hchars
    have hvisible : f.isVisibleIn b.undoHistory = true := by
      by_contra hfalse
      rw [if_neg hfalse] at hchars
      omega
    have hrest : ∀ g ∈ r, g.startCharacterOffset < g.endCharacterOffset := by
      intro g hg
      obtain ⟨first, rest, hfirst, -, -, -, -, hrest⟩ := hhead
      rw [heq] at hfirst
      cases l with
      | nil => exact hrest g ((List.cons.inj hfirst).2 ▸ hg)
      | cons d l =>
        apply hrest
        rw [← (List.cons.inj hfirst).2]
        simp [hg]
    change f.text ++ Buffer.charsAfter b.undoHistory r = _
    rw [charsAfter_eq hrest fun g hg => hends g (by simp [hg]), elements_cons, seen_append, Fragment.seen_elements,
      if_pos hvisible]

end InfiniShell.Editor
