import InfiniShell.Editor.AnchorRuns

namespace InfiniShell.Editor

open Collections Crdt

/-- How far an edit moves what is at an offset: by the ranges that end before it. -/
def shiftBefore (n offset : Nat) : List Range → Int
  | [] => 0
  | range :: ranges =>
    (if range.stop < offset then (n : Int) - ((range.stop : Int) - range.start) else 0) + shiftBefore n offset ranges

theorem shiftBefore_snoc (n offset : Nat) (ranges : List Range) (range : Range) :
    shiftBefore n offset (ranges ++ [range]) = shiftBefore n offset ranges +
      if range.stop < offset then (n : Int) - ((range.stop : Int) - range.start) else 0 := by
  induction ranges with
  | nil => simp [shiftBefore]
  | cons first ranges ih =>
    rw [List.cons_append, shiftBefore, shiftBefore, ih]
    omega

theorem shiftBefore_filter (newText : List Char) (offset : Nat) {ranges : List Range}
    (hle : ∀ range ∈ ranges, range.start ≤ range.stop) :
    shiftBefore newText.length offset (ranges.filter (keepRange (if newText = [] then none else some newText))) =
      shiftBefore newText.length offset ranges := by
  induction ranges with
  | nil => rfl
  | cons range ranges ih =>
    have ih := ih fun r hr => hle r (List.mem_cons_of_mem range hr)
    have hrange := hle range List.mem_cons_self
    rw [List.filter_cons, shiftBefore]
    by_cases hkeep : keepRange (if newText = [] then none else some newText) range = true
    · rw [if_pos hkeep, shiftBefore, ih]
    · rw [if_neg hkeep, ih]
      by_cases hnil : newText = []
      · subst hnil
        have hempty : ¬range.start < range.stop := by simpa [keepRange] using hkeep
        have heq : range.start = range.stop := by omega
        simp [heq]
      · rw [if_neg hnil] at hkeep
        exact absurd (decide_eq_true hrange) hkeep

theorem Sorted.apart {ranges : List Range} (h : Sorted ranges) {r range : Range} (hr : r ∈ ranges)
    (hrange : range ∈ ranges) (hne : r ≠ range) : r.stop < range.start ∨ range.stop < r.start := by
  have hsymm : Std.Symm fun a b : Range => a.stop < b.start ∨ b.stop < a.start := ⟨fun _ _ hpair => hpair.symm⟩
  have hpairs : ranges.Pairwise fun a b => a.stop < b.start ∨ b.stop < a.start := h.lt.imp Or.inl
  exact hpairs.forall hr hrange hne

section Step

variable {undoHistory : UndoHistory} {newText : Option (List Char)} {p p' p₀ : Progress} {range : Range}
variable {op : EditOperation} {A M R : Elements} {anchor : Anchor} {ranges : List Range} {ops : List EditOperation}

theorem LocalStep.keys_eq (h : LocalStep undoHistory newText p range op p' A M R) :
    keys p.doc = keys A ++ (keys M ++ keys R) ∧
      keys p'.doc = keys A ++ (keys (newRun p.clock.tick newText) ++ (keys M ++ keys R)) := by
  have hmark : keys (M.map (Element.mark p.clock.tick)) = keys M := by simp [keys]
  rw [h.doc, h.doc']
  simp only [keys_append, List.append_assoc, hmark, and_self]

/-- Of the characters before an anchor those in front of the range stay, and the new ones come behind these. -/
theorem LocalStep.place (h : LocalStep undoHistory newText p range op p' A M R) (hnodup : (keys p'.doc).Nodup)
    (hanchor : anchor.Names (keys p.doc)) :
    anchor.Names (keys p'.doc) ∧
      (anchor.rank (keys p'.doc) / 2 = anchor.rank (keys p.doc) / 2 ∧ anchor.rank (keys p.doc) / 2 ≤ A.length ∨
        anchor.rank (keys p'.doc) / 2 = (newRun p.clock.tick newText).length + anchor.rank (keys p.doc) / 2 ∧
          A.length ≤ anchor.rank (keys p.doc) / 2) := by
  obtain ⟨hkeys, hkeys'⟩ := h.keys_eq
  have hlengthA : (keys A).length = A.length := List.length_map _
  have hlengthN : (keys (newRun p.clock.tick newText)).length = (newRun p.clock.tick newText).length := List.length_map _
  rw [hkeys'] at hnodup ⊢
  rw [hkeys] at hanchor ⊢
  have hsub : (keys A ++ (keys M ++ keys R)).Sublist
      (keys A ++ (keys (newRun p.clock.tick newText) ++ (keys M ++ keys R))) :=
    (List.Sublist.refl _).append (List.sublist_append_right _ _)
  refine ⟨hanchor.mono hsub, ?_⟩
  cases anchor with
  | start => exact .inl ⟨rfl, by rw [Anchor.rank]; exact Nat.zero_le _⟩
  | stop =>
    refine .inr ?_
    rw [Anchor.rank, Anchor.rank]
    simp only [List.length_append]
    omega
  | middle id offset bias =>
    have hbias := bias.behind_le
    by_cases hA : (id, offset - bias.behind) ∈ keys A
    · have hidx : ∀ l, (keys A ++ l).idxOf (id, offset - bias.behind) = (keys A).idxOf (id, offset - bias.behind) :=
        fun l => by rw [List.idxOf_append, if_pos hA]
      have hlt := List.idxOf_lt_length_of_mem hA
      rw [Anchor.rank, Anchor.rank, hidx, hidx]
      exact .inl ⟨rfl, by omega⟩
    · have hidx : ∀ l, (keys A ++ l).idxOf (id, offset - bias.behind) =
          l.idxOf (id, offset - bias.behind) + (keys A).length := fun l => by rw [List.idxOf_append, if_neg hA]
      have hrest := (List.mem_append.mp hanchor.2).resolve_left hA
      have hnew : (id, offset - bias.behind) ∉ keys (newRun p.clock.tick newText) := fun hmem =>
        List.disjoint_of_nodup_append (List.nodup_append.mp hnodup).2.1 hmem hrest
      have hidxNew : (keys (newRun p.clock.tick newText) ++ (keys M ++ keys R)).idxOf (id, offset - bias.behind) =
          (keys M ++ keys R).idxOf (id, offset - bias.behind) + (keys (newRun p.clock.tick newText)).length := by
        rw [List.idxOf_append, if_neg hnew]
      rw [Anchor.rank, Anchor.rank, hidx, hidx, hidxNew]
      exact .inr (by omega)

theorem LocalStep.resolved (h : LocalStep undoHistory newText p range op p' A M R) (hsound : p.Sound undoHistory)
    (hnodup : (keys p'.doc).Nodup) (hanchor : anchor.Names (keys p.doc)) :
    resolved undoHistory p'.doc anchor = resolved undoHistory p.doc anchor ∧
        (resolved undoHistory p.doc anchor : Int) ≤ range.start + p.shift ∨
      (range.start + p.shift ≤ resolved undoHistory p.doc anchor ∧
        resolved undoHistory p.doc anchor ≤ range.stop + p.shift ∧
        resolved undoHistory p'.doc anchor = range.start + p.shift + (newText.getD []).length) ∨
      range.stop + p.shift ≤ resolved undoHistory p.doc anchor ∧
        (resolved undoHistory p'.doc anchor : Int) =
          resolved undoHistory p.doc anchor + (newText.getD []).length - ((range.stop : Int) - range.start) := by
  have hrun := visibleCount_run hsound.undos_tick newText
  have hA := h.countA
  have hM := h.countM
  obtain ⟨-, hplace⟩ := h.place hnodup hanchor
  rw [Editor.resolved, Editor.resolved]
  generalize anchor.rank (keys p.doc) / 2 = k at hplace ⊢
  generalize anchor.rank (keys p'.doc) / 2 = k' at hplace ⊢
  have hdoc : p.doc = A ++ (M ++ R) := by rw [h.doc, List.append_assoc]
  have hdoc' : p'.doc = A ++ (newRun p.clock.tick newText ++ (M.map (Element.mark p.clock.tick) ++ R)) := by
    rw [h.doc']
    simp only [List.append_assoc]
  rw [hdoc, hdoc']
  cases hplace with
  | inl hfront =>
    obtain ⟨rfl, hle⟩ := hfront
    have htake := @visibleCount_take_le undoHistory A _ _ hle
    rw [List.take_length] at htake
    rw [List.take_append_of_le_length hle, List.take_append_of_le_length hle]
    exact .inl ⟨rfl, by omega⟩
  | inr hbehind =>
    obtain ⟨rfl, hle⟩ := hbehind
    obtain ⟨j, rfl⟩ := Nat.exists_eq_add_of_le hle
    have hswap : (newRun p.clock.tick newText).length + (A.length + j) =
        A.length + ((newRun p.clock.tick newText).length + j) := by omega
    rw [hswap, List.take_length_add_append, List.take_length_add_append, List.take_length_add_append,
      visibleCount_append, visibleCount_append, visibleCount_append, hrun]
    by_cases hin : j ≤ M.length
    · have htake := @visibleCount_take_le undoHistory M _ _ hin
      rw [List.take_length] at htake
      rw [List.take_append_of_le_length hin, List.take_append_of_le_length (by simpa using hin), ← List.map_take,
        visibleCount_mark hsound.undos_tick]
      exact .inr (.inl ⟨by omega, by omega, by omega⟩)
    · obtain ⟨i, rfl⟩ := Nat.exists_eq_add_of_le (Nat.le_of_not_le hin)
      have hmarks : (M.map (Element.mark p.clock.tick)).length = M.length := List.length_map _
      rw [List.take_length_add_append]
      rw [← hmarks, List.take_length_add_append, visibleCount_append, visibleCount_append,
        visibleCount_mark hsound.undos_tick]
      exact .inr (.inr ⟨by omega, by omega⟩)

/-- Where an anchor that resolved to `offset` is after the operations for some of the ranges. -/
structure Moved (undoHistory : UndoHistory) (n offset : Nat) (anchor : Anchor) (ranges : List Range) (p : Progress) :
    Prop where
  sound : p.Sound undoHistory
  names : anchor.Names (keys p.doc)
  apart : (∀ range ∈ ranges, offset < range.start ∨ range.stop < offset) →
    (resolved undoHistory p.doc anchor : Int) = offset + shiftBefore n offset ranges
  touched : ∀ range ∈ ranges, range.start ≤ offset → offset ≤ range.stop →
    range.start + shiftBefore n offset ranges ≤ resolved undoHistory p.doc anchor ∧
      resolved undoHistory p.doc anchor ≤ range.start + shiftBefore n offset ranges + n
  ahead : (∃ range ∈ ranges, offset ≤ range.stop) → ∀ next : Nat, (∀ range ∈ ranges, range.stop < next) →
    (resolved undoHistory p.doc anchor : Int) < next + p.shift
  shift : (∀ range ∈ ranges, range.stop < offset) → shiftBefore n offset ranges = p.shift

theorem Moved.snoc {offset : Nat} (h : Moved undoHistory (newText.getD []).length offset anchor ranges p)
    (hstep : LocalStep undoHistory newText p range op p' A M R) (hnodup : (keys p'.doc).Nodup)
    (hle : range.start ≤ range.stop) (hbefore : ∀ r ∈ ranges, r.stop < range.start) :
    Moved undoHistory (newText.getD []).length offset anchor (ranges ++ [range]) p' := by
  obtain ⟨hnames, -⟩ := hstep.place hnodup h.names
  have hmoves := hstep.resolved h.sound hnodup h.names
  have hshift := hstep.shift'
  have hall : ∀ {q : Range → Prop}, (∀ r ∈ ranges ++ [range], q r) ↔ (∀ r ∈ ranges, q r) ∧ q range := by
    intro q
    simp [or_imp, forall_and]
  -- in front of the range the anchor has come to be in front of where the range is now
  have hfront : offset < range.start → (resolved undoHistory p.doc anchor : Int) < range.start + p.shift := by
    intro hlt
    by_cases hprev : ∃ r ∈ ranges, offset ≤ r.stop
    · exact h.ahead hprev range.start hbefore
    · have hprev : ∀ r ∈ ranges, r.stop < offset := fun r hr => Nat.not_le.mp fun hle => hprev ⟨r, hr, hle⟩
      have hapart := h.apart fun r hr => .inr (hprev r hr)
      rw [h.shift hprev] at hapart
      omega
  have hreached : range.start ≤ offset → (∀ r ∈ ranges, r.stop < offset) ∧
      (resolved undoHistory p.doc anchor : Int) = offset + p.shift ∧
      shiftBefore (newText.getD []).length offset ranges = p.shift := by
    intro hge
    have hprev : ∀ r ∈ ranges, r.stop < offset := fun r hr => (hbefore r hr).trans_le hge
    have hapart := h.apart fun r hr => .inr (hprev r hr)
    have hshift := h.shift hprev
    rw [hshift] at hapart
    exact ⟨hprev, hapart, hshift⟩
  refine ⟨h.sound.next hstep.clock' hstep.versions', hnames, ?_, ?_, ?_, ?_⟩
  · intro happart
    obtain ⟨hprev, hlast⟩ := hall.mp happart
    have hapart := h.apart hprev
    rw [shiftBefore_snoc]
    cases hlast with
    | inl hlt =>
      have hlt' := hfront hlt
      rw [if_neg (by omega)]
      omega
    | inr hlt =>
      obtain ⟨-, heq, -⟩ := hreached (by omega)
      rw [if_pos hlt]
      omega
  · intro r hr hstart hstop
    rw [shiftBefore_snoc]
    cases List.mem_append.mp hr with
    | inl hr =>
      have htouched := h.touched r hr hstart hstop
      have hlt : offset < range.start := hstop.trans_lt (hbefore r hr)
      have hlt' := hfront hlt
      rw [if_neg (by omega)]
      omega
    | inr hr =>
      obtain rfl := List.mem_singleton.mp hr
      obtain ⟨-, heq, hshift⟩ := hreached hstart
      rw [if_neg (Nat.not_lt.mpr hstop), hshift]
      omega
  · intro hsome next hnext
    obtain ⟨-, hlast⟩ := hall.mp hnext
    by_cases hlt : offset < range.start
    · have hlt' := hfront hlt
      omega
    · obtain ⟨hprev, heq, -⟩ := hreached (Nat.not_lt.mp hlt)
      obtain ⟨r, hr, hstop⟩ := hsome
      cases List.mem_append.mp hr with
      | inl hr => exact absurd (hprev r hr) (Nat.not_lt.mpr hstop)
      | inr hr =>
        obtain rfl := List.mem_singleton.mp hr
        omega
  · intro hprev
    obtain ⟨hprev, hlast⟩ := hall.mp hprev
    rw [shiftBefore_snoc, if_pos hlast, h.shift hprev]
    omega

theorem LocalSteps.moved {base : Elements} {operations log : List Operation} (h : History base operations)
    (hk : Knows base operations log p₀.clock p₀.versions p₀.doc) (hsound : p₀.Sound undoHistory) (hzero : p₀.shift = 0)
    (hanchor : anchor.Names (keys p₀.doc)) (hsorted : Sorted ranges)
    (hsteps : LocalSteps undoHistory newText p₀ ranges ops p) :
    Moved undoHistory (newText.getD []).length (resolved undoHistory p₀.doc anchor) anchor ranges p := by
  induction hsteps with
  | nil =>
    refine ⟨hsound, hanchor, fun _ => by simp [shiftBefore], fun _ hr => absurd hr List.not_mem_nil, ?_, fun _ => hzero.symm⟩
    exact fun hsome => absurd hsome (by simp)
  | snoc hsteps hstep ih =>
    obtain ⟨hle, hlt⟩ := hsorted
    obtain ⟨hlt, -, hbefore⟩ := List.pairwise_append.mp hlt
    have hmoved := ih ⟨fun r hr => hle r (List.mem_append_left _ hr), hlt⟩
    have hnodup := ((hsteps.snoc hstep).generated h hk).knows.docNodup
    exact hmoved.snoc hstep hnodup (hle _ (by simp)) fun r hr => hbefore r hr _ (List.mem_singleton.mpr rfl)

end Step

namespace Replicas

variable {baseText : List Char} {w : Replicas}

end Replicas

end InfiniShell.Editor
