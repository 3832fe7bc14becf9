import InfiniShell.Editor.RemoteEditResult

namespace InfiniShell.Editor

open Collections Collections.ListCursor Crdt

inductive AnchorBias where
  | left
  | right
deriving DecidableEq

namespace AnchorBias

def cmp (bias other : AnchorBias) : Ordering :=
  if bias = other then .eq
  else
    match bias with
    | left => .lt
    | right => .gt

def seekBias : AnchorBias → SeekBias
  | left => .left
  | right => .right

end AnchorBias

inductive Anchor where
  | start
  | stop
  | middle (insertionId : Lamport) (offset : Nat) (bias : AnchorBias)
deriving DecidableEq

namespace Buffer

/-- `None` past the end of the text. -/
def anchorAt (b : Buffer) (offset : Nat) (bias : AnchorBias) : Option Anchor :=
  if offset > b.len then none
  else if bias = .left ∧ offset = 0 then some .start
  else if bias = .right ∧ offset = b.len then some .stop
  else
    let sought := slice Fragment.chars bias.seekBias offset 0 b.fragments
    sought.2.head?.map fun fragment =>
      .middle fragment.insertion.id
        (fragment.startCharacterOffset + (offset - total Fragment.chars sought.1)) bias

def anchorBefore (b : Buffer) (offset : Nat) : Option Anchor := b.anchorAt offset .left

def anchorAfter (b : Buffer) (offset : Nat) : Option Anchor := b.anchorAt offset .right

def splitForAnchor (b : Buffer) (insertionId : Lamport) (offset : Nat) (bias : AnchorBias) : Option InsertionSplit :=
  (b.insertionSplits.get insertionId).bind fun splits =>
    (slice InsertionSplit.extent bias.seekBias offset 0 splits).2.head?

def fragmentIdForAnchor (b : Buffer) : Anchor → Option FragmentId
  | .start => some FragmentId.maxValue
  | .stop => some FragmentId.minValue
  | .middle insertionId offset bias => (b.splitForAnchor insertionId offset bias).map InsertionSplit.fragmentId

/-- The characters of `summary_for_anchor`. -/
def offsetForAnchor (b : Buffer) : Anchor → Option Nat
  | .start => some 0
  | .stop => some b.len
  | .middle insertionId offset bias =>
    (b.splitForAnchor insertionId offset bias).bind fun split =>
      (b.fragments.dropWhile (·.id < split.fragmentId)).head?.map fun fragment =>
        total Fragment.chars (b.fragments.takeWhile (·.id < split.fragmentId)) +
          if fragment.isVisibleIn b.undoHistory then
            (fragment.text.take (offset - fragment.startCharacterOffset)).length
          else 0

def cmpAnchors (b : Buffer) (anchor other : Anchor) : Option Ordering :=
  if anchor = other then some .eq
  else
    match anchor, other with
    | .start, _ => some .lt
    | _, .stop => some .lt
    | .stop, _ => some .gt
    | _, .start => some .gt
    | .middle _ offset bias, .middle _ otherOffset otherBias =>
      (b.fragmentIdForAnchor anchor).bind fun id =>
        (b.fragmentIdForAnchor other).map fun otherId =>
          ((compare id otherId).then (compare offset otherOffset)).then (bias.cmp otherBias)

end Buffer

/-- The anchor is in front of the character at its offset, or behind the one before if biased to the left. -/
inductive NamesPlace (id : Lamport) : Nat → AnchorBias → Elements → Elements → Prop where
  | right {offset e A R} : e.key = (id, offset) → NamesPlace id offset .right A (e :: R)
  | left {offset e A R} : e.key = (id, offset) → NamesPlace id (offset + 1) .left (A ++ [e]) R
  | head {R} : id = Lamport.new baseReplicaId → NamesPlace id 0 .left [] R
  | first {e A R} : id ≠ Lamport.new baseReplicaId → e.key = (id, 0) → NamesPlace id 0 .left A (e :: R)

structure AnchoredIn (fragments : List Fragment) (id : Lamport) (offset : Nat) (bias : AnchorBias)
    (before : List Fragment) (f : Fragment) (after : List Fragment) : Prop where
  fragments : fragments = before ++ f :: after
  insertionId : f.insertion.id = id
  le : f.startCharacterOffset ≤ offset
  le' : offset ≤ f.endCharacterOffset
  right : bias = .right → offset < f.endCharacterOffset
  left : bias = .left → f.startCharacterOffset < offset ∨ offset = 0 ∧ ofInsertion id before = []

section Places

variable {b : Buffer} {id : Lamport} {offset : Nat} {bias : AnchorBias} {A A' R R' : Elements}
variable {before after : List Fragment} {f : Fragment}

theorem eq_of_keys {e e' : Element Lamport Char} (heq : A ++ e :: R = A' ++ e' :: R') (hkey : e.key = e'.key)
    (hnodup : (keys (A ++ e :: R)).Nodup) : A = A' := by
  have heq' : (A ++ [e]) ++ R = (A' ++ [e']) ++ R' := by simpa using heq
  have hnodup' : (keys ((A ++ [e]) ++ R)).Nodup := by simpa using hnodup
  obtain ⟨hconcat, -⟩ := eq_of_anchorOf heq' hnodup' (by rw [anchorOf_concat, anchorOf_concat, hkey])
  exact (List.append_inj' hconcat rfl).1

theorem NamesPlace.unique (h : NamesPlace id offset bias A R) (h' : NamesPlace id offset bias A' R')
    (heq : A ++ R = A' ++ R') (hnodup : (keys (A ++ R)).Nodup) : A = A' := by
  cases h with
  | right hkey =>
    cases h' with
    | right hkey' => exact eq_of_keys heq (hkey.trans hkey'.symm) hnodup
  | left hkey =>
    cases h' with
    | left hkey' =>
      rw [List.append_assoc, List.append_assoc] at heq
      rw [List.append_assoc] at hnodup
      have hA := eq_of_keys heq (hkey.trans hkey'.symm) hnodup
      rw [hA] at heq ⊢
      have hrest := List.append_cancel_left heq
      rw [(List.cons.inj hrest).1]
  | head hbase =>
    cases h' with
    | head => rfl
    | first hne => exact absurd hbase hne
  | first hne hkey =>
    cases h' with
    | head hbase => exact absurd hbase hne
    | first _ hkey' => exact eq_of_keys heq (hkey.trans hkey'.symm) hnodup

theorem WellFormed.total_extent {fragments : List Fragment} {undoHistory : UndoHistory}
    (h : WellFormed fragments undoHistory) (hkey : (id, offset) ∈ keys (elements fragments)) :
    ofInsertion id fragments ≠ [] ∧
      offset < total InsertionSplit.extent ((ofInsertion id fragments).map Fragment.split) := by
  have hmem : (id, offset) ∈ keys (elements (ofInsertion id fragments)) := by
    rw [keys_ofInsertion, List.mem_filter]
    exact ⟨hkey, decide_eq_true rfl⟩
  have hne : ofInsertion id fragments ≠ [] := by
    intro hnil
    rw [hnil] at hmem
    exact absurd hmem List.not_mem_nil
  obtain ⟨insertion, hcovers⟩ := h.tiled id hne
  have htotal := hcovers.total_extent
  rw [hcovers.keys (Nat.le_refl _)] at hmem
  obtain ⟨i, hi, hpair⟩ := List.mem_map.mp hmem
  rw [List.mem_range'_1] at hi
  have hoffset := congrArg Prod.snd hpair
  refine ⟨hne, ?_⟩
  dsimp only at hoffset
  omega

theorem exists_of_split {fragments P Q : List Fragment} (h : ofInsertion id fragments = P ++ f :: Q) :
    ∃ before after, fragments = before ++ f :: after ∧ f.insertion.id = id ∧ ofInsertion id before = P := by
  obtain ⟨l, r, rfl, hl, hr⟩ := List.filter_eq_append_iff.mp h
  obtain ⟨l', r', rfl, hl', hf, -⟩ := List.filter_eq_cons_iff.mp hr
  refine ⟨l ++ l', r', by rw [List.append_assoc], of_decide_eq_true hf, ?_⟩
  have hnil : ofInsertion id l' = [] := List.filter_eq_nil_iff.mpr hl'
  rw [ofInsertion_append, hnil, List.append_nil]
  exact hl

variable (h : b.Coherent)
include h

theorem splitForAnchor_some {split : InsertionSplit}
    (hsplit : b.splitForAnchor id offset bias = some split) :
    ∃ before f after, AnchoredIn b.fragments id offset bias before f after ∧ split = f.split := by
  rw [Buffer.splitForAnchor, h.listed, listing] at hsplit
  split at hsplit
  next => exact absurd hsplit.symm (Option.some_ne_none split)
  next =>
    rw [Option.bind_some] at hsplit
    obtain ⟨l, r, heq, hslice, hl, hr⟩ := @slice_spec _ InsertionSplit.extent bias.seekBias offset 0
      ((ofInsertion id b.fragments).map Fragment.split)
    rw [hslice] at hsplit
    obtain ⟨r, rfl⟩ := List.head?_eq_some_iff.mp hsplit
    obtain ⟨P, Q, hof, rfl, hQ⟩ := List.map_eq_append_iff.mp heq
    obtain ⟨f, Q, rfl, rfl, -⟩ := List.map_eq_cons_iff.mp hQ
    obtain ⟨before, after, hfragments, hid, hP⟩ := exists_of_split hof
    have hwell := h.wellFormed
    rw [hfragments] at hwell
    obtain ⟨hbefore, hle, -⟩ := hwell.around
    have htotal := hbefore.total_extent
    rw [hid, hP, Nat.zero_add] at htotal
    have hextent : f.split.extent = f.endCharacterOffset - f.startCharacterOffset := rfl
    have hstop := hr f.split rfl
    rw [Nat.zero_add, htotal] at hl
    rw [Nat.zero_add, htotal, hextent] at hstop
    have hstart : f.startCharacterOffset ≤ offset := by
      cases hl with
      | inl hnil =>
        rw [hnil, total_nil] at htotal
        omega
      | inr hpass =>
        cases bias with
        | left => exact (of_decide_eq_true hpass).le
        | right => exact of_decide_eq_true hpass
    refine ⟨before, f, after, ⟨hfragments, hid, hstart, ?_, ?_, ?_⟩, rfl⟩
    · cases bias with
      | left =>
        have hend := of_decide_eq_false hstop
        omega
      | right =>
        have hend := of_decide_eq_false hstop
        omega
    · intro hbias
      subst hbias
      have hend := of_decide_eq_false hstop
      omega
    · intro hbias
      subst hbias
      cases hl with
      | inl hnil =>
        rw [hnil, total_nil] at htotal
        have hP : ofInsertion id before = [] := by
          rw [hP]
          exact List.map_eq_nil_iff.mp hnil
        by_cases hzero : offset = 0
        · exact .inr ⟨hzero, hP⟩
        · exact .inl (by omega)
      | inr hpass => exact .inl (of_decide_eq_true hpass)

theorem splitForAnchor_none (hsplit : b.splitForAnchor id offset bias = none)
    (heq : elements b.fragments = A ++ R) : ¬NamesPlace id offset bias A R := by
  have hpass : ofInsertion id b.fragments ≠ [] →
      passes bias.seekBias (total InsertionSplit.extent ((ofInsertion id b.fragments).map Fragment.split)) offset = true := by
    intro hne
    rw [Buffer.splitForAnchor, h.listed, listing, if_neg hne, Option.bind_some] at hsplit
    obtain ⟨l, r, heq, hslice, hl, -⟩ := @slice_spec _ InsertionSplit.extent bias.seekBias offset 0
      ((ofInsertion id b.fragments).map Fragment.split)
    rw [hslice] at hsplit
    have hr : r = [] := List.head?_eq_none_iff.mp hsplit
    rw [hr, List.append_nil] at heq
    rw [← heq, Nat.zero_add] at hl
    exact hl.resolve_left (mt List.map_eq_nil_iff.mp hne)
  have hkeys : ∀ key ∈ keys (A ++ R), key.1 = id → ofInsertion id b.fragments ≠ [] ∧
      key.2 < total InsertionSplit.extent ((ofInsertion id b.fragments).map Fragment.split) := by
    intro key hkey hid
    rw [← heq] at hkey
    rw [← hid]
    exact h.wellFormed.total_extent hkey
  intro hnames
  cases hnames with
  | @right _ e _ R hkey =>
    obtain ⟨hne, hlt⟩ := hkeys e.key (by simp [keys]) (by rw [hkey])
    have hle := of_decide_eq_true (hpass hne)
    rw [hkey] at hlt
    dsimp only at hlt
    omega
  | @left _ e A R hkey =>
    obtain ⟨hne, hlt⟩ := hkeys e.key (by simp [keys]) (by rw [hkey])
    have hle := of_decide_eq_true (hpass hne)
    rw [hkey] at hlt
    dsimp only at hlt
    omega
  | head hbase =>
    obtain ⟨first, rest, hfragments, -, hinsertion, -⟩ := h.headed
    have hne : ofInsertion id b.fragments ≠ [] := by
      rw [hfragments, ofInsertion_cons_of_eq (by rw [hinsertion, hbase])]
      exact List.cons_ne_nil _ _
    exact absurd (hpass hne) (by simp [passes, AnchorBias.seekBias])
  | @first e _ R _ hkey =>
    obtain ⟨hne, -⟩ := hkeys e.key (by simp [keys]) (by rw [hkey])
    exact absurd (hpass hne) (by simp [passes, AnchorBias.seekBias])

theorem AnchoredIn.namesPlace (hin : AnchoredIn b.fragments id offset bias before f after) :
    NamesPlace id offset bias (elements before ++ f.elementsBetween f.startCharacterOffset offset)
      (f.elementsBetween offset f.endCharacterOffset ++ elements after) := by
  have hend := h.ends_le f (by rw [hin.fragments]; simp)
  have hahead : offset < f.endCharacterOffset →
      ∃ e l, f.elementsBetween offset f.endCharacterOffset = e :: l ∧ e.key = (id, offset) := by
    intro hlt
    have hkeys : keys (f.elementsBetween offset f.endCharacterOffset) =
        (List.range' offset (f.endCharacterOffset - offset)).map fun i => (f.insertion.id, i) :=
      Fragment.keys_elements (f := { f with startCharacterOffset := offset }) hend
    have hlen : f.endCharacterOffset - offset = f.endCharacterOffset - offset - 1 + 1 := by omega
    rw [hlen, List.range'_succ, List.map_cons] at hkeys
    obtain ⟨e, l, heq, hkey, -⟩ := List.map_eq_cons_iff.mp hkeys
    exact ⟨e, l, heq, by rw [hkey, hin.insertionId]⟩
  cases bias with
  | right =>
    obtain ⟨e, l, heq, hkey⟩ := hahead (hin.right rfl)
    rw [heq]
    exact .right hkey
  | left =>
    cases hin.left rfl with
    | inl hlt =>
      have hanchor : anchorOf (f.elementsBetween f.startCharacterOffset offset) = anchorFor f.insertion.id offset :=
        Fragment.anchorOf_elements (f := { f with endCharacterOffset := offset }) (hin.le'.trans hend) hlt
      rw [anchorFor, if_neg (by omega), hin.insertionId] at hanchor
      obtain ⟨e, hlast, hkey⟩ := Option.map_eq_some_iff.mp hanchor
      obtain ⟨l, heq⟩ := List.getLast?_eq_some_iff.mp hlast
      obtain ⟨i, rfl⟩ := Nat.exists_eq_add_of_lt hlt
      rw [heq, ← List.append_assoc]
      exact .left hkey
    | inr hzero =>
      obtain ⟨rfl, hbefore⟩ := hzero
      have hstart : f.startCharacterOffset = 0 := Nat.le_zero.mp hin.le
      obtain ⟨first, rest, hfragments, -, hinsertion, -, hstop, hlt⟩ := h.headed
      rw [hstart, Fragment.elementsBetween_self, List.append_nil]
      by_cases hbase : id = Lamport.new baseReplicaId
      · have hnil : before = [] := by
          by_contra hne
          obtain ⟨g, before', rfl⟩ := List.exists_cons_of_ne_nil hne
          have hg := List.cons.inj (hfragments.symm.trans hin.fragments)
          rw [ofInsertion_cons_of_eq (by rw [← hg.1, hinsertion, hbase])] at hbefore
          exact List.cons_ne_nil _ _ hbefore
        rw [hnil]
        exact .head hbase
      · have hf : f.startCharacterOffset < f.endCharacterOffset := by
          have hmem : f ∈ first :: rest := by
            rw [← hfragments, hin.fragments]
            simp
          cases List.mem_cons.mp hmem with
          | inl heq =>
            rw [← hin.insertionId, heq] at hbase
            exact absurd hinsertion hbase
          | inr hmem => exact hlt f hmem
        obtain ⟨e, l, heq, hkey⟩ := hahead (hstart ▸ hf)
        rw [heq]
        exact .first hbase hkey

theorem AnchoredIn.offset_eq (hin : AnchoredIn b.fragments id offset bias before f after)
    (hsplit : b.splitForAnchor id offset bias = some f.split) :
    b.offsetForAnchor (.middle id offset bias) =
      some (visibleCount b.undoHistory (elements before ++ f.elementsBetween f.startCharacterOffset offset)) := by
  have hids := h.wellFormed.ordered.pairwise
  have hends := h.ends_le
  have hfresh := h.wellFormed.fresh
  rw [hin.fragments] at hids hends hfresh
  have hend := hends f (by simp)
  obtain ⟨htake, hdrop⟩ := cut_at_id hids
  have htotal : total Fragment.chars before = visibleCount b.undoHistory (elements before) :=
    total_chars (fun g hg => hfresh g (List.mem_append_left _ hg)) fun g hg => hends g (List.mem_append_left _ hg)
  have hpart : visibleCount b.undoHistory (f.elementsBetween f.startCharacterOffset offset) =
      if f.isVisibleIn b.undoHistory then (f.text.take (offset - f.startCharacterOffset)).length else 0 := by
    have hcount := visibleCount_fragment b.undoHistory
      (f := { f with endCharacterOffset := offset }) (hin.le'.trans hend)
    have hvisible : ({ f with endCharacterOffset := offset } : Fragment).visibleLen b.undoHistory =
        if f.isVisibleIn b.undoHistory then offset - f.startCharacterOffset else 0 := rfl
    have hle' := hin.le'
    rw [List.length_take, Fragment.length_text hend, Fragment.len, Nat.min_eq_left (by omega)]
    exact hcount.trans hvisible
  have hid : f.split.fragmentId = f.id := rfl
  rw [Buffer.offsetForAnchor, hsplit, Option.bind_some, hid, hin.fragments, htake, hdrop, visibleCount_append, hpart,
    htotal]
  rfl

/-- An anchor resolves to the number of visible characters before the place that it names. -/
theorem Buffer.Coherent.offsetForAnchor_iff {resolved : Nat} :
    b.offsetForAnchor (.middle id offset bias) = some resolved ↔
      ∃ A R, elements b.fragments = A ++ R ∧ NamesPlace id offset bias A R ∧
        visibleCount b.undoHistory A = resolved := by
  cases hsplit : b.splitForAnchor id offset bias with
  | none =>
    constructor
    · intro hresolved
      rw [Buffer.offsetForAnchor, hsplit, Option.bind_none] at hresolved
      exact absurd hresolved.symm (Option.some_ne_none resolved)
    · intro hplace
      obtain ⟨A, R, heq, hnames, -⟩ := hplace
      exact absurd hnames (splitForAnchor_none h hsplit heq)
  | some split =>
    obtain ⟨before, f, after, hin, rfl⟩ := splitForAnchor_some h hsplit
    have hnames := hin.namesPlace h
    have heq : elements b.fragments = (elements before ++ f.elementsBetween f.startCharacterOffset offset) ++
        (f.elementsBetween offset f.endCharacterOffset ++ elements after) := by
      have hend := h.ends_le f (by rw [hin.fragments]; simp)
      rw [hin.fragments, elements_append, elements_cons, ← Fragment.elementsBetween_ends,
        ← Fragment.elementsBetween_append hin.le hin.le' hend]
      simp only [List.append_assoc]
    rw [hin.offset_eq h hsplit, Option.some_inj]
    constructor
    · exact fun hcount => ⟨_, _, heq, hnames, hcount⟩
    · intro hplace
      obtain ⟨A, R, heq', hnames', hcount⟩ := hplace
      have hA := hnames.unique hnames' (heq.symm.trans heq') (heq ▸ h.wellFormed.nodup_keys)
      rw [hA, hcount]

theorem Buffer.Coherent.offsetForAnchor_congr {b' : Buffer} (h' : b'.Coherent)
    (helements : elements b'.fragments = elements b.fragments) (hundo : b'.undoHistory = b.undoHistory)
    (anchor : Anchor) : b'.offsetForAnchor anchor = b.offsetForAnchor anchor := by
  cases anchor with
  | start => rfl
  | stop =>
    have hlen : ∀ {b : Buffer}, b.Coherent → b.len = visibleCount b.undoHistory (elements b.fragments) :=
      fun h => total_chars h.wellFormed.fresh h.ends_le
    change some b'.len = some b.len
    rw [hlen h, hlen h', helements, hundo]
  | middle id offset bias =>
    ext resolved
    rw [h.offsetForAnchor_iff, h'.offsetForAnchor_iff, helements, hundo]

end Places

end InfiniShell.Editor
