import InfiniShell.Collections.SublistOrder
import InfiniShell.Editor.AnchorPlaces
import InfiniShell.Editor.ReplicaRuns

namespace InfiniShell.Editor

open Collections Collections.ListCursor Crdt

def AnchorBias.behind : AnchorBias → Nat
  | left => 1
  | right => 0

theorem AnchorBias.behind_le (bias : AnchorBias) : bias.behind ≤ 1 := by
  cases bias with
  | left => exact Nat.le_refl 1
  | right => exact Nat.zero_le 1

namespace Anchor

def Names (l : List (Key Lamport)) : Anchor → Prop
  | start => True
  | stop => True
  | middle insertionId offset bias => bias.behind ≤ offset ∧ (insertionId, offset - bias.behind) ∈ l

def rank (l : List (Key Lamport)) : Anchor → Nat
  | start => 0
  | stop => 2 * l.length + 1
  | middle insertionId offset bias => 2 * l.idxOf (insertionId, offset - bias.behind) + 1 + bias.behind

end Anchor

/-- The characters of a buffer, also those that are not visible. -/
def Buffer.keys (b : Buffer) : List (Key Lamport) := Crdt.keys (elements b.fragments)

def resolved (undoHistory : UndoHistory) (l : Elements) (anchor : Anchor) : Nat :=
  visibleCount undoHistory (l.take (anchor.rank (Crdt.keys l) / 2))

theorem visibleCount_take_le {undoHistory : UndoHistory} {l : Elements} {m n : Nat} (h : m ≤ n) :
    visibleCount undoHistory (l.take m) ≤ visibleCount undoHistory (l.take n) := by
  have htake : l.take m ++ (l.take n).drop m = l.take n := by
    have hsplit := List.take_append_drop m (l.take n)
    rwa [List.take_take, Nat.min_eq_left h] at hsplit
  rw [← htake, visibleCount_append]
  exact Nat.le_add_right _ _

section Rank

variable {l l' : List (Key Lamport)} {anchor other : Anchor} {id : Lamport} {offset : Nat} {bias : AnchorBias}

theorem Anchor.rank_lt (h : (middle id offset bias).Names l) : (middle id offset bias).rank l < 2 * l.length + 1 := by
  have hlt := List.idxOf_lt_length_of_mem h.2
  have hbias := bias.behind_le
  rw [rank]
  omega

theorem Anchor.Names.mono (h : anchor.Names l) (hsub : l.Sublist l') : anchor.Names l' := by
  cases anchor with
  | start => trivial
  | stop => trivial
  | middle id offset bias => exact ⟨h.1, hsub.subset h.2⟩

variable (hsub : l.Sublist l') (hnodup : l'.Nodup) (hanchor : anchor.Names l) (hother : other.Names l)
include hsub hnodup hanchor hother

theorem Anchor.rank_lt_rank_iff : anchor.rank l' < other.rank l' ↔ anchor.rank l < other.rank l := by
  have hanchor' := hanchor.mono hsub
  have hother' := hother.mono hsub
  cases anchor with
  | start =>
    cases other with
    | start => simp [rank]
    | stop => simp [rank]
    | middle id offset bias => simp [rank]
  | stop =>
    cases other with
    | start => simp [rank]
    | stop => simp [rank]
    | middle id offset bias =>
      have hlt := rank_lt hother
      have hlt' := rank_lt hother'
      exact iff_of_false hlt'.not_gt hlt.not_gt
  | middle id offset bias =>
    cases other with
    | start => simp [rank]
    | stop => exact iff_of_true (rank_lt hanchor') (rank_lt hanchor)
    | middle id' offset' bias' =>
      have hiff := idxOf_lt_idxOf_iff hsub hnodup hanchor.2 hother.2
      have hiff' := idxOf_lt_idxOf_iff hsub hnodup hother.2 hanchor.2
      have hbias := bias.behind_le
      have hbias' := bias'.behind_le
      rw [rank, rank, rank, rank]
      omega

theorem Anchor.compare_rank : compare (anchor.rank l') (other.rank l') = compare (anchor.rank l) (other.rank l) := by
  have hiff := rank_lt_rank_iff hsub hnodup hanchor hother
  have hiff' := rank_lt_rank_iff hsub hnodup hother hanchor
  cases hcompare : compare (anchor.rank l) (other.rank l) with
  | lt => exact Nat.compare_eq_lt.mpr (hiff.mpr (Nat.compare_eq_lt.mp hcompare))
  | gt => exact Nat.compare_eq_gt.mpr (hiff'.mpr (Nat.compare_eq_gt.mp hcompare))
  | eq =>
    have heq := Nat.compare_eq_eq.mp hcompare
    exact Nat.compare_eq_eq.mpr (by omega)

end Rank

theorem FragmentId.compare_eq_lt {id id' : FragmentId} (h : id < id') : compare id id' = .lt := by
  change List.compareLex compare id id' = .lt
  induction id generalizing id' with
  | nil =>
    cases id' with
    | nil => exact absurd h (List.not_lt_nil _)
    | cons entry rest => exact List.compareLex_nil_cons
  | cons entry id ih =>
    cases id' with
    | nil => exact absurd h (List.not_lt_nil _)
    | cons entry' id' =>
      rw [List.compareLex_cons_cons]
      cases List.cons_lt_cons_iff.mp h with
      | inl hlt =>
        rw [Nat.compare_eq_lt.mpr hlt]
        rfl
      | inr heq =>
        rw [Nat.compare_eq_eq.mpr heq.1, ih heq.2]
        rfl

section Order

variable {b : Buffer} {anchor other : Anchor} {id : Lamport} {offset : Nat} {bias : AnchorBias}

theorem compare_offsets {offset' r r' start m : Nat} {bias' : AnchorBias}
    (hr : r + bias.behind + start = m + 2 * offset + 1) (hr' : r' + bias'.behind + start = m + 2 * offset' + 1) :
    (compare offset offset').then (bias.cmp bias') = compare r r' := by
  have hbias := bias.behind_le
  have hbias' := bias'.behind_le
  obtain hlt | rfl | hlt := Nat.lt_trichotomy offset offset'
  · rw [Nat.compare_eq_lt.mpr hlt, Nat.compare_eq_lt.mpr (by omega)]
    rfl
  · rw [Nat.compare_eq_eq.mpr rfl]
    cases bias with
    | left =>
      cases bias' with
      | left => exact (Nat.compare_eq_eq.mpr (by omega)).symm
      | right =>
        dsimp only [AnchorBias.behind] at hr hr'
        exact (Nat.compare_eq_lt.mpr (by omega)).symm
    | right =>
      cases bias' with
      | left =>
        dsimp only [AnchorBias.behind] at hr hr'
        exact (Nat.compare_eq_gt.mpr (by omega)).symm
      | right => exact (Nat.compare_eq_eq.mpr (by omega)).symm
  · rw [Nat.compare_eq_gt.mpr hlt, Nat.compare_eq_gt.mpr (by omega)]
    rfl

theorem Anchor.exists_place {l : Elements} (h : (middle id offset bias).Names (Crdt.keys l)) (hnodup : (Crdt.keys l).Nodup) :
    ∃ A R, l = A ++ R ∧ NamesPlace id offset bias A R ∧
      (middle id offset bias).rank (Crdt.keys l) + bias.behind = 2 * A.length + 1 := by
  obtain ⟨hle, hmem⟩ := h
  obtain ⟨e, he, hkey⟩ := List.mem_map.mp hmem
  obtain ⟨A, R, rfl⟩ := List.append_of_mem he
  have hidx : (Crdt.keys (A ++ e :: R)).idxOf (id, offset - bias.behind) = A.length := by
    rw [← hkey, keys_append] at *
    have hnot : e.key ∉ Crdt.keys A := fun hin =>
      List.disjoint_of_nodup_append hnodup hin List.mem_cons_self
    rw [List.idxOf_append, if_neg hnot]
    simp [Crdt.keys]
  cases bias with
  | right => exact ⟨A, e :: R, rfl, .right hkey, by rw [rank, hidx, AnchorBias.behind]⟩
  | left =>
    obtain ⟨i, rfl⟩ := Nat.exists_eq_add_of_le hle
    refine ⟨A ++ [e], R, by simp, ?_, ?_⟩
    · rw [AnchorBias.behind, Nat.add_comm]
      apply NamesPlace.left
      simpa [AnchorBias.behind] using hkey
    · rw [rank, hidx, AnchorBias.behind, List.length_append, List.length_singleton]
      omega

theorem NamesPlace.names {A R : Elements} (h : NamesPlace id offset bias A R) (hle : bias.behind ≤ offset) :
    (Anchor.middle id offset bias).Names (Crdt.keys (A ++ R)) := by
  refine ⟨hle, ?_⟩
  cases h with
  | right hkey => simp [Crdt.keys, AnchorBias.behind, ← hkey]
  | left hkey => simp [Crdt.keys, AnchorBias.behind, ← hkey]
  | head => exact absurd hle (Nat.not_succ_le_zero 0)
  | first => exact absurd hle (Nat.not_succ_le_zero 0)

variable (h : b.Coherent)
include h

theorem AnchoredIn.elements_eq {before after : List Fragment} {f : Fragment}
    (hin : AnchoredIn b.fragments id offset bias before f after) :
    elements b.fragments = (elements before ++ f.elementsBetween f.startCharacterOffset offset) ++
      (f.elementsBetween offset f.endCharacterOffset ++ elements after) := by
  have hend := h.ends_le f (by rw [hin.fragments]; simp)
  rw [hin.fragments, elements_append, elements_cons, ← Fragment.elementsBetween_ends,
    ← Fragment.elementsBetween_append hin.le hin.le' hend]
  simp only [List.append_assoc]

theorem Buffer.Coherent.offsetForAnchor_eq (hanchor : anchor.Names b.keys) :
    b.offsetForAnchor anchor = some (resolved b.undoHistory (elements b.fragments) anchor) := by
  cases anchor with
  | start => simp [resolved, Anchor.rank, Buffer.offsetForAnchor]
  | stop =>
    have hlen : b.len = visibleCount b.undoHistory (elements b.fragments) := total_chars h.wellFormed.fresh h.ends_le
    have hhalf : (2 * (Crdt.keys (elements b.fragments)).length + 1) / 2 = (elements b.fragments).length := by
      rw [Crdt.keys, List.length_map]
      omega
    rw [resolved, Anchor.rank, hhalf, List.take_length, ← hlen]
    rfl
  | middle id offset bias =>
    obtain ⟨A, R, heq, hnames, hrank⟩ := Anchor.exists_place hanchor h.wellFormed.nodup_keys
    have hbias := bias.behind_le
    have hhalf : (Anchor.middle id offset bias).rank (Crdt.keys (elements b.fragments)) / 2 = A.length := by omega
    rw [h.offsetForAnchor_iff]
    exact ⟨A, R, heq, hnames, by rw [resolved, hhalf, heq, List.take_left]⟩

theorem Buffer.Coherent.exists_fragment (hanchor : (Anchor.middle id offset bias).Names b.keys) :
    ∃ before f after, b.fragments = before ++ f :: after ∧
      b.fragmentIdForAnchor (.middle id offset bias) = some f.id ∧ f.startCharacterOffset ≤ offset ∧
      (Anchor.middle id offset bias).rank b.keys + bias.behind + 2 * f.startCharacterOffset =
        2 * (elements before).length + 2 * offset + 1 ∧
      2 * (elements before).length < (Anchor.middle id offset bias).rank b.keys ∧
      (Anchor.middle id offset bias).rank b.keys ≤ 2 * ((elements before).length + f.elements.length) := by
  obtain ⟨A, R, heq, hnames, hrank⟩ := Anchor.exists_place hanchor h.wellFormed.nodup_keys
  obtain ⟨split, hsplit⟩ : ∃ split, b.splitForAnchor id offset bias = some split :=
    Option.ne_none_iff_exists'.mp fun hnone => splitForAnchor_none h hnone heq hnames
  obtain ⟨before, f, after, hin, rfl⟩ := splitForAnchor_some h hsplit
  have hend := h.ends_le f (by rw [hin.fragments]; simp)
  have hparts := hin.elements_eq h
  have hA := hnames.unique (hin.namesPlace h) (heq.symm.trans hparts) (heq ▸ h.wellFormed.nodup_keys)
  have hlength : A.length = (elements before).length + (offset - f.startCharacterOffset) := by
    rw [hA, List.length_append, length_elementsBetween (hin.le'.trans hend)]
  have hwhole : f.elements.length = f.endCharacterOffset - f.startCharacterOffset := by
    rw [← Fragment.elementsBetween_ends, length_elementsBetween hend]
  refine ⟨before, f, after, hin.fragments, by rw [Buffer.fragmentIdForAnchor, hsplit]; rfl, hin.le, ?_⟩
  have hle := hin.le
  have hle' := hin.le'
  rw [Buffer.keys, hwhole]
  cases bias with
  | left =>
    have hstart : f.startCharacterOffset < offset := by
      cases hin.left rfl with
      | inl hlt => exact hlt
      | inr hzero =>
        have hpos := hanchor.1
        rw [hzero.1] at hpos
        exact absurd hpos (Nat.not_succ_le_zero 0)
    rw [AnchorBias.behind] at *
    omega
  | right =>
    have hlt := hin.right rfl
    rw [AnchorBias.behind] at *
    omega

theorem Buffer.Coherent.ids_order {before before' after after' : List Fragment} {f f' : Fragment}
    (heq : b.fragments = before ++ f :: after) (heq' : b.fragments = before' ++ f' :: after') :
    f.id < f'.id ∧ (elements before).length + f.elements.length ≤ (elements before').length ∨
      before = before' ∧ f = f' ∨
        f'.id < f.id ∧ (elements before').length + f'.elements.length ≤ (elements before).length := by
  cases List.append_eq_append_iff.mp (heq.symm.trans heq') with
  | inl hmore =>
    obtain ⟨c, hbefore, hc⟩ := hmore
    cases c with
    | nil =>
      rw [List.append_nil] at hbefore
      exact .inr (.inl ⟨hbefore.symm, (List.cons.inj hc).1⟩)
    | cons g c =>
      obtain ⟨rfl, -⟩ := List.cons.inj hc
      refine .inl ⟨(h.ids_lt heq').1 f (by rw [hbefore]; simp), ?_⟩
      rw [hbefore, elements_append, elements_cons, List.length_append, List.length_append]
      omega
  | inr hmore =>
    obtain ⟨c, hbefore, hc⟩ := hmore
    cases c with
    | nil =>
      rw [List.append_nil] at hbefore
      exact .inr (.inl ⟨hbefore, (List.cons.inj hc).1.symm⟩)
    | cons g c =>
      obtain ⟨rfl, -⟩ := List.cons.inj hc
      refine .inr (.inr ⟨(h.ids_lt heq).1 f' (by rw [hbefore]; simp), ?_⟩)
      rw [hbefore, elements_append, elements_cons, List.length_append, List.length_append]
      omega

/-- The order of the fragments, of the offsets and of the biases is that of the characters. -/
theorem Buffer.Coherent.cmpAnchors_eq (hanchor : anchor.Names b.keys) (hother : other.Names b.keys) :
    b.cmpAnchors anchor other = some (compare (anchor.rank b.keys) (other.rank b.keys)) := by
  unfold Buffer.cmpAnchors
  by_cases hsame : anchor = other
  · rw [if_pos hsame, hsame, Nat.compare_eq_eq.mpr rfl]
  rw [if_neg hsame]
  cases anchor with
  | start =>
    have hpos : 0 < other.rank b.keys := by
      cases other with
      | start => exact absurd rfl hsame
      | stop => exact Nat.succ_pos _
      | middle id offset bias =>
        rw [Anchor.rank]
        omega
    exact congrArg some (Nat.compare_eq_lt.mpr hpos).symm
  | stop =>
    cases other with
    | start => exact congrArg some (Nat.compare_eq_gt.mpr (Nat.succ_pos _)).symm
    | stop => exact absurd rfl hsame
    | middle id offset bias => exact congrArg some (Nat.compare_eq_gt.mpr (Anchor.rank_lt hother)).symm
  | middle id offset bias =>
    cases other with
    | start =>
      have hpos : 0 < (Anchor.middle id offset bias).rank b.keys := by
        rw [Anchor.rank]
        omega
      exact congrArg some (Nat.compare_eq_gt.mpr hpos).symm
    | stop => exact congrArg some (Nat.compare_eq_lt.mpr (Anchor.rank_lt hanchor)).symm
    | middle id' offset' bias' =>
      obtain ⟨before, f, after, heq, hid, hle, hrank, hlow, hhigh⟩ := h.exists_fragment hanchor
      obtain ⟨before', f', after', heq', hid', hle', hrank', hlow', hhigh'⟩ := h.exists_fragment hother
      dsimp only
      rw [hid, hid', Option.bind_some, Option.map_some, Option.some_inj]
      obtain ⟨hlt, hlength⟩ | ⟨rfl, rfl⟩ | ⟨hlt, hlength⟩ := h.ids_order heq heq'
      · have hranks := hhigh.trans_lt (Nat.lt_of_le_of_lt (Nat.mul_le_mul_left 2 hlength) hlow')
        rw [FragmentId.compare_eq_lt hlt, Nat.compare_eq_lt.mpr hranks]
        rfl
      · rw [Std.ReflOrd.compare_self, ← compare_offsets hrank hrank']
        rfl
      · have hranks := hhigh'.trans_lt (Nat.lt_of_le_of_lt (Nat.mul_le_mul_left 2 hlength) hlow)
        rw [Std.OrientedCmp.gt_of_lt (FragmentId.compare_eq_lt hlt), Nat.compare_eq_gt.mpr hranks]
        rfl

variable (bias) in
theorem Buffer.Coherent.anchorAt_names (hle : offset ≤ b.len) :
    ∃ anchor, b.anchorAt offset bias = some anchor ∧ anchor.Names b.keys ∧ b.offsetForAnchor anchor = some offset := by
  unfold Buffer.anchorAt
  rw [if_neg (Nat.not_lt.mpr hle)]
  by_cases hstart : bias = .left ∧ offset = 0
  · rw [if_pos hstart, hstart.2]
    exact ⟨.start, rfl, trivial, rfl⟩
  by_cases hstop : bias = .right ∧ offset = b.len
  · rw [if_neg hstart, if_pos hstop, hstop.2]
    exact ⟨.stop, rfl, trivial, rfl⟩
  obtain ⟨l, r, heq, hslice, hl, hr⟩ := @slice_spec _ Fragment.chars bias.seekBias offset 0 b.fragments
  have hlen : b.len = total Fragment.chars l + total Fragment.chars r := by
    rw [Buffer.len, heq, total_append]
  rw [if_neg hstart, if_neg hstop]
  dsimp only
  rw [hslice]
  rw [Nat.zero_add] at hl hr
  have hbefore : total Fragment.chars l ≤ offset ∧ (bias = .left → total Fragment.chars l < offset) := by
    cases hl with
    | inl hnil =>
      rw [hnil, total_nil]
      exact ⟨Nat.zero_le _, fun hleft => Nat.pos_of_ne_zero fun hzero => hstart ⟨hleft, hzero⟩⟩
    | inr hpass =>
      cases bias with
      | left =>
        have hlt := of_decide_eq_true hpass
        exact ⟨hlt.le, fun _ => hlt⟩
      | right => exact ⟨of_decide_eq_true hpass, fun hleft => AnchorBias.noConfusion hleft⟩
  cases r with
  | nil =>
    rw [total_nil, Nat.add_zero] at hlen
    cases bias with
    | left =>
      have hlt := hbefore.2 rfl
      omega
    | right => exact absurd ⟨rfl, Nat.le_antisymm hle (hlen ▸ hbefore.1)⟩ hstop
  | cons f r =>
    have hf : f ∈ b.fragments := by
      rw [heq]
      simp
    have hend := h.ends_le f hf
    have hfresh := h.wellFormed.fresh f hf
    have hinside : offset ≤ total Fragment.chars l + f.chars ∧
        (bias = .right → offset < total Fragment.chars l + f.chars) := by
      have hstops := hr f rfl
      cases bias with
      | left => exact ⟨Nat.not_lt.mp (of_decide_eq_false hstops), fun hright => AnchorBias.noConfusion hright⟩
      | right =>
        have hlt := Nat.not_le.mp (of_decide_eq_false hstops)
        exact ⟨hlt.le, fun _ => hlt⟩
    have hchars : total Fragment.chars l < total Fragment.chars l + f.chars := by
      cases bias with
      | left => exact (hbefore.2 rfl).trans_le hinside.1
      | right => exact hbefore.1.trans_lt (hinside.2 rfl)
    have hvisible : f.isVisible = true := by
      by_contra hnot
      rw [Fragment.chars, if_neg hnot] at hchars
      omega
    rw [Fragment.chars, if_pos hvisible, Fragment.len] at hinside hchars
    have hin : AnchoredIn b.fragments f.insertion.id
        (f.startCharacterOffset + (offset - total Fragment.chars l)) bias l f r := by
      refine ⟨heq, rfl, Nat.le_add_right _ _, by omega, fun hright => ?_, fun hleft => .inl ?_⟩
      · have hlt := hinside.2 hright
        omega
      · have hlt := hbefore.2 hleft
        omega
    have hnames := hin.namesPlace h
    have hparts := hin.elements_eq h
    refine ⟨_, rfl, ?_, h.offsetForAnchor_iff.mpr ⟨_, _, hparts, hnames, ?_⟩⟩
    · rw [Buffer.keys, hparts]
      apply hnames.names
      cases bias with
      | left =>
        have hlt := hbefore.2 rfl
        rw [AnchorBias.behind]
        omega
      | right => exact Nat.zero_le _
    · have htotal : visibleCount b.undoHistory (elements l) = total Fragment.chars l :=
        (total_chars (fun g hg => h.wellFormed.fresh g (by rw [heq]; simp [hg]))
          fun g hg => h.ends_le g (by rw [heq]; simp [hg])).symm
      have hpart := visibleCount_fragment b.undoHistory
        (f := { f with endCharacterOffset := f.startCharacterOffset + (offset - total Fragment.chars l) })
        (hin.le'.trans hend)
      have hlength : ({ f with endCharacterOffset := f.startCharacterOffset + (offset - total Fragment.chars l) } :
          Fragment).visibleLen b.undoHistory = offset - total Fragment.chars l := by
        have hshown : f.isVisibleIn b.undoHistory = true := hfresh.isVisible ▸ hvisible
        change (if f.isVisibleIn b.undoHistory then
          f.startCharacterOffset + (offset - total Fragment.chars l) - f.startCharacterOffset else 0) = _
        rw [if_pos hshown]
        omega
      rw [visibleCount_append, htotal]
      change _ + visibleCount b.undoHistory (Fragment.elements _) = _
      rw [hpart, hlength]
      omega

end Order

end InfiniShell.Editor
