import InfiniShell.Editor.Elements
import InfiniShell.Editor.LocalEdit

namespace InfiniShell.Editor

open Collections Collections.ListCursor Crdt

namespace Fragment

def prefixTo (f prev : Fragment) (mid : Nat) : Fragment :=
  { f with id := FragmentId.mid prev.id f.id, endCharacterOffset := mid }

def suffixFrom (f : Fragment) (mid : Nat) : Fragment := { f with startCharacterOffset := mid }

variable {f prev : Fragment} {mid : Nat}

theorem partOf_prefixTo (f prev : Fragment) (mid : Nat) : PartOf (f.prefixTo prev mid) f := ⟨rfl, rfl, rfl, rfl⟩

theorem partOf_suffixFrom (f : Fragment) (mid : Nat) : PartOf (f.suffixFrom mid) f := ⟨rfl, rfl, rfl, rfl⟩

theorem PartOf.isVisibleIn {part : Fragment} (h : PartOf part f) (undoHistory : UndoHistory) :
    part.isVisibleIn undoHistory = f.isVisibleIn undoHistory := by
  rw [Fragment.isVisibleIn, Fragment.isVisibleIn, h.insertion, h.deletions]

theorem setStartOffset_eq (hend : f.endCharacterOffset ≤ f.insertion.text.length) (hmid : mid ≤ f.endCharacterOffset) :
    f.setStartOffset mid = f.suffixFrom mid := by
  rw [setStartOffset, slice, suffixFrom, Nat.min_eq_left hend, Nat.min_eq_left (hmid.trans hend)]

theorem setEndCharacterOffset_eq (hstart : f.startCharacterOffset ≤ f.insertion.text.length)
    (hmid : mid ≤ f.insertion.text.length) :
    f.setEndCharacterOffset mid = { f with endCharacterOffset := mid } := by
  rw [setEndCharacterOffset, slice, Nat.min_eq_left hstart, Nat.min_eq_left hmid]

theorem elements_cutAt (hle : f.startCharacterOffset ≤ mid) (hle' : mid ≤ f.endCharacterOffset)
    (hend : f.endCharacterOffset ≤ f.insertion.text.length) :
    (f.prefixTo prev mid).elements ++ (f.suffixFrom mid).elements = f.elements :=
  elements_cut (partOf_prefixTo f prev mid) (partOf_suffixFrom f mid) rfl rfl rfl hle hle' hend

end Fragment

theorem spliceFragmentAtCharOffset_eq {f last : Fragment} {pos m : Nat}
    (hend : f.endCharacterOffset ≤ f.insertion.text.length)
    (hmid : f.startCharacterOffset + (m - pos) ≤ f.endCharacterOffset)
    (hid : FragmentId.between last.id f.id = some (FragmentId.mid last.id f.id)) :
    spliceFragmentAtCharOffset f last pos m =
      some (f.prefixTo last (f.startCharacterOffset + (m - pos)), f.suffixFrom (f.startCharacterOffset + (m - pos))) := by
  have hcut : f.setEndCharacterOffset (f.startCharacterOffset + (m - pos)) = _ :=
    Fragment.setEndCharacterOffset_eq (by omega) (hmid.trans hend)
  rw [spliceFragmentAtCharOffset, hcut, hid]
  simp only [Option.map_some]
  rw [Fragment.setStartOffset_eq hend hmid]
  rfl

section Cut

variable {A B : List Fragment} {f prev : Fragment} {undoHistory : UndoHistory} {mid : Nat}

theorem WellFormed.cutAt (h : WellFormed (A ++ f :: B) undoHistory) (hprev : A.getLast? = some prev)
    (hle : f.startCharacterOffset ≤ mid) (hle' : mid ≤ f.endCharacterOffset) :
    WellFormed (A ++ f.prefixTo prev mid :: f.suffixFrom mid :: B) undoHistory :=
  h.cut hprev (Fragment.partOf_prefixTo f prev mid) (Fragment.partOf_suffixFrom f mid) rfl rfl rfl rfl rfl hle hle'

theorem Headed.lt (h : Headed (A ++ B)) (hne : A ≠ []) (hf : f ∈ B) :
    f.startCharacterOffset < f.endCharacterOffset := by
  obtain ⟨first, rest, heq, -, -, -, -, hrest⟩ := h
  cases A with
  | nil => exact absurd rfl hne
  | cons g A =>
    apply hrest
    rw [← (List.cons.inj heq).2]
    exact List.mem_append_right A hf

theorem Headed.replace {B' : List Fragment} (h : Headed (A ++ B)) (hne : A ≠ [])
    (hlt : ∀ g ∈ B', g.startCharacterOffset < g.endCharacterOffset) : Headed (A ++ B') := by
  obtain ⟨first, rest, heq, hid, hinsertion, hstart, hstop, hrest⟩ := h
  cases A with
  | nil => exact absurd rfl hne
  | cons g A =>
    obtain ⟨hg, hrest'⟩ := List.cons.inj heq
    refine ⟨first, A ++ B', by rw [List.cons_append, hg], hid, hinsertion, hstart, hstop, ?_⟩
    intro c hc
    cases List.mem_append.mp hc with
    | inl hA =>
      apply hrest
      rw [← hrest']
      exact List.mem_append_left B hA
    | inr hB => exact hlt c hB

theorem Headed.cutAt (h : Headed (A ++ f :: B)) (hne : A ≠ []) (hlt : f.startCharacterOffset < mid)
    (hlt' : mid < f.endCharacterOffset) : Headed (A ++ f.prefixTo prev mid :: f.suffixFrom mid :: B) := by
  apply h.replace hne
  intro g hg
  cases List.mem_cons.mp hg with
  | inl heq => rw [heq]; exact hlt
  | inr hg =>
    cases List.mem_cons.mp hg with
    | inl heq => rw [heq]; exact hlt'
    | inr hg => exact h.lt hne (List.mem_cons_of_mem f hg)

theorem Headed.insert {insertion : Insertion} {id : FragmentId} (h : Headed (A ++ B)) (hne : A ≠ [])
    (htext : insertion.text ≠ []) : Headed (A ++ Fragment.new id insertion :: B) := by
  apply h.replace hne
  intro g hg
  cases List.mem_cons.mp hg with
  | inl heq =>
    rw [heq]
    exact List.length_pos_iff.mpr htext
  | inr hg => exact h.lt hne hg

theorem Headed.mark {ts : Lamport} (h : Headed (A ++ f :: B)) (hne : A ≠ []) :
    Headed (A ++ f.markDeletion ts undoHistory :: B) := by
  apply h.replace hne
  intro g hg
  cases List.mem_cons.mp hg with
  | inl heq =>
    have hf : f.startCharacterOffset < f.endCharacterOffset := h.lt hne List.mem_cons_self
    rw [heq]
    exact hf
  | inr hg => exact h.lt hne (List.mem_cons_of_mem f hg)

end Cut

section Splits

variable {A B : List Fragment} {f : Fragment} {undoHistory : UndoHistory}

theorem splitsAround_eq (h : WellFormed (A ++ f :: B) undoHistory)
    (hlt : f.startCharacterOffset < f.endCharacterOffset) :
    splitsAround f ((ofInsertion f.insertion.id (A ++ f :: B)).map Fragment.split) =
      ((ofInsertion f.insertion.id A).map Fragment.split, (ofInsertion f.insertion.id B).map Fragment.split) := by
  obtain ⟨hbefore, hle, hafter⟩ := h.around
  have hA := hbefore.total_extent
  rw [Nat.zero_add] at hA
  have hf : f.split.extent = f.endCharacterOffset - f.startCharacterOffset := rfl
  have hslice : slice InsertionSplit.extent .right f.startCharacterOffset 0
      ((ofInsertion f.insertion.id A).map Fragment.split ++
        f.split :: (ofInsertion f.insertion.id B).map Fragment.split) =
      ((ofInsertion f.insertion.id A).map Fragment.split,
        f.split :: (ofInsertion f.insertion.id B).map Fragment.split) := by
    apply slice_append
    · exact Or.inr (decide_eq_true (by rw [Nat.zero_add, hA]))
    · intro a ha
      cases Option.some.inj ha
      refine decide_eq_false ?_
      rw [Nat.zero_add, hA, hf]
      omega
  rw [ofInsertion_append, ofInsertion_cons_of_eq rfl, List.map_append, List.map_cons, splitsAround, hslice]
  simp only [List.take_succ_cons, List.take_zero, List.drop_succ_cons, List.drop_zero]
  rw [slice_all]
  simp only [total_append, total_cons, total_nil]
  omega

end Splits

/-- While a fragment is scanned, its insertion's split trees before and behind it are at hand. -/
structure SplitScan (id : Lamport) (splits : InsertionSplits) (tree tail : List InsertionSplit)
    (new rest : List Fragment) : Prop where
  tree : tree = (ofInsertion id new).map Fragment.split
  tail : tail = (ofInsertion id rest).map Fragment.split
  others : ∀ other, other ≠ id → splits.get other = listing other (new ++ rest)

section Splits

variable {id : Lamport} {splits : InsertionSplits} {tree tail : List InsertionSplit} {new rest A B : List Fragment}

variable {f : Fragment}

theorem listing_of_ne (h : f.insertion.id ≠ id) : listing id (A ++ f :: B) = listing id (A ++ B) := by
  rw [listing, listing, ofInsertion_append, ofInsertion_cons_of_ne h, ← ofInsertion_append]

variable {f g : Fragment}

theorem listing_congr (hinsertion : g.insertion = f.insertion) (hsplit : g.split = f.split) :
    listing id (A ++ g :: B) = listing id (A ++ f :: B) := by
  by_cases h : f.insertion.id = id
  · have hg : g.insertion.id = id := by rw [hinsertion, h]
    rw [listing, listing, ofInsertion_append, ofInsertion_append, ofInsertion_cons_of_eq h, ofInsertion_cons_of_eq hg,
      if_neg (List.append_ne_nil_of_right_ne_nil _ (List.cons_ne_nil _ _)),
      if_neg (List.append_ne_nil_of_right_ne_nil _ (List.cons_ne_nil _ _)), List.map_append, List.map_append,
      List.map_cons, List.map_cons, hsplit]
  · rw [listing_of_ne h, listing_of_ne (by rwa [hinsertion])]

theorem Listed.congr (h : Listed (A ++ f :: B) splits) (hinsertion : g.insertion = f.insertion)
    (hsplit : g.split = f.split) : Listed (A ++ g :: B) splits := by
  intro other
  rw [h other, listing_congr hinsertion hsplit]

theorem Listed.insert (h : Listed (A ++ B) splits) (hnew : ofInsertion f.insertion.id (A ++ B) = []) :
    Listed (A ++ f :: B) (splits.insert f.insertion.id [f.split]) := by
  intro other
  rw [BTreeMap.get_insert]
  split
  next heq =>
    rw [ofInsertion_append, List.append_eq_nil_iff] at hnew
    rw [heq, listing, ofInsertion_append, ofInsertion_cons_of_eq rfl, hnew.1, hnew.2]
    rfl
  next hne => rw [h other, listing_of_ne (Ne.symm hne)]

theorem SplitScan.start {undoHistory : UndoHistory} (h : Listed (new ++ f :: rest) splits)
    (hwell : WellFormed (new ++ f :: rest) undoHistory) (hlt : f.startCharacterOffset < f.endCharacterOffset) :
    ∃ oldSplitTree, splits.get f.insertion.id = some oldSplitTree ∧
      SplitScan f.insertion.id splits (splitsAround f oldSplitTree).1 (splitsAround f oldSplitTree).2 new rest := by
  refine ⟨(ofInsertion f.insertion.id (new ++ f :: rest)).map Fragment.split, ?_, ?_, ?_, ?_⟩
  · rw [h, listing, if_neg]
    rw [ofInsertion_append, ofInsertion_cons_of_eq rfl]
    exact List.append_ne_nil_of_right_ne_nil _ (List.cons_ne_nil _ _)
  · rw [splitsAround_eq hwell hlt]
  · rw [splitsAround_eq hwell hlt]
  · intro other hne
    rw [h other, listing_of_ne (Ne.symm hne)]

variable {part : Fragment} (h : SplitScan id splits tree tail new rest)
include h

theorem SplitScan.push (hpart : part.insertion.id = id) :
    SplitScan id splits (tree ++ [part.split]) tail (new ++ [part]) rest := by
  refine ⟨?_, h.tail, ?_⟩
  · rw [h.tree, ofInsertion_append, ofInsertion_cons_of_eq hpart, List.map_append]
    rfl
  · intro other hne
    rw [h.others other hne, List.append_assoc, List.singleton_append, listing_of_ne (by rw [hpart]; exact Ne.symm hne)]

theorem SplitScan.insert (hne : f.insertion.id ≠ id)
    (hnew : ofInsertion f.insertion.id (new ++ rest) = []) :
    SplitScan id (splits.insert f.insertion.id [f.split]) tree tail (new ++ [f]) rest := by
  refine ⟨?_, h.tail, ?_⟩
  · rw [h.tree, ofInsertion_append, ofInsertion_cons_of_ne hne]
    exact congrArg _ (List.append_nil _).symm
  · intro other hother
    rw [BTreeMap.get_insert, List.append_assoc, List.singleton_append]
    split
    next heq =>
      rw [ofInsertion_append, List.append_eq_nil_iff] at hnew
      rw [heq, listing, ofInsertion_append, ofInsertion_cons_of_eq rfl, hnew.1, hnew.2]
      rfl
    next hne' => rw [h.others other hother, listing_of_ne (Ne.symm hne')]

theorem SplitScan.finish (hpart : part.insertion.id = id) :
    Listed (new ++ [part] ++ rest) (splits.insert id (tree ++ [part.split] ++ tail)) := by
  intro other
  have hlist : new ++ [part] ++ rest = new ++ part :: rest := by simp
  rw [BTreeMap.get_insert, hlist]
  split
  next heq =>
    rw [heq, listing, ofInsertion_append, ofInsertion_cons_of_eq hpart, if_neg, h.tree, h.tail]
    · simp
    · exact List.append_ne_nil_of_right_ne_nil _ (List.cons_ne_nil _ _)
  next hne => rw [h.others other hne, listing_of_ne (by rw [hpart]; exact Ne.symm hne)]

end Splits

end InfiniShell.Editor
