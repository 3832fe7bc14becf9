import InfiniShell.Collections.KeyedMerge
import InfiniShell.SumTree.Partition
import Mathlib.Algebra.Order.Ring.Int
import Mathlib.Data.List.Sort
import Mathlib.Tactic.Linarith
import Mathlib.Tactic.NormNum

namespace InfiniShell.SumTree

open Collections

variable {α σ K : Type}

class KeyedItem (α : Type) (K : outParam Type) where
  key : α → K

inductive Edit (α : Type) where
  | insert (item : α)
  | remove (item : α)

namespace Edit

variable [KeyedItem α K]

def key : Edit α → K
  | insert item => KeyedItem.key item
  | remove item => KeyedItem.key item

def item : Edit α → Option α
  | insert item => some item
  | remove _ => none

def change (edit : Edit α) : K × Option α := (edit.key, edit.item)

end Edit

section Edit

variable [AddMonoid σ] [Item α σ] [LinearOrder K] [KeyedItem α K] [Dimension σ K] (treeBase : Nat)

/-- The variables of the loop of `edit`. -/
structure Editing (α σ K : Type) where
  cursor : Cursor α σ K Unit
  newTree : SumTree α σ
  bufferedItems : List α

namespace Editing

/-- The step over the items with lower keys; also the cursor's item after it. -/
def skipTo (e : Editing α σ K) (newKey : K) : Option (Editing α σ K × Option α) :=
  e.cursor.item.bind fun oldItem =>
    if oldItem.any fun oldItem => KeyedItem.key oldItem < newKey then
      (e.newTree.extend treeBase e.bufferedItems).bind fun newTree =>
        (e.cursor.slice treeBase newKey .left).bind fun cut =>
          (newTree.pushTree treeBase cut.2).bind fun newTree =>
            cut.1.item.map fun oldItem => (⟨cut.1, newTree, []⟩, oldItem)
    else some (e, oldItem)

/-- The body of the loop of `edit`. -/
def step (e : Editing α σ K) (edit : Edit α) : Option (Editing α σ K) :=
  (e.skipTo treeBase edit.key).bind fun skipped =>
    (if skipped.2.any fun oldItem => KeyedItem.key oldItem = edit.key then
      skipped.1.cursor.next.map fun cursor => { skipped.1 with cursor := cursor }
    else some skipped.1).map fun e => { e with bufferedItems := e.bufferedItems ++ edit.item.toList }

def finish (e : Editing α σ K) : Option (SumTree α σ) :=
  (e.newTree.extend treeBase e.bufferedItems).bind fun newTree =>
    (e.cursor.suffix treeBase).bind fun rest => newTree.pushTree treeBase rest.2

end Editing

/-- `edits.sort_unstable_by_key(|item| item.key())`. -/
def sortedEdits (edits : List (Edit α)) : List (Edit α) := edits.mergeSort fun a b => a.key ≤ b.key

def edit (tree : SumTree α σ) (edits : List (Edit α)) : Option (SumTree α σ × Unit) :=
  if edits.isEmpty then some (tree, ())
  else
    ((Cursor.new tree : Cursor α σ K Unit).seekTo treeBase (Dimension.default σ) .left).bind fun found =>
      ((sortedEdits edits).foldlM (Editing.step treeBase) ⟨found.1, SumTree.new, []⟩).bind fun e =>
        (e.finish treeBase).map fun tree => (tree, ())

end Edit

class LawfulKey (α σ K : Type) [AddMonoid σ] [Item α σ] [KeyedItem α K] [Dimension σ K] : Prop extends ExactDimension σ K where
  addSummary_item : ∀ (d : K) (x : α), Dimension.addSummary d (Item.summary x : σ) = KeyedItem.key x
  addSummary_zero : Dimension.addSummary (Dimension.default σ : K) (0 : σ) = Dimension.default σ

section Keys

variable [AddMonoid σ] [Item α σ] [LinearOrder K] [KeyedItem α K] [Dimension σ K] [LawfulKey α σ K]
variable {items l r : List α} {d k : K}

omit [LinearOrder K] in
theorem addItem_key (d : K) (x : α) : addItem (σ := σ) d x = KeyedItem.key x := LawfulKey.addSummary_item d x

theorem allBeyond_iff_key : AllBeyond (α := α) (σ := σ) ⟨k, .left, false⟩ d l ↔ ∀ x ∈ l, KeyedItem.key x < k := by
  induction l generalizing d with
  | nil => simp [AllBeyond]
  | cons x l ih =>
    rw [AllBeyond, ih, addItem_key, isBeyond_iff, List.forall_mem_cons]
    simp

theorem halted_iff_key : Halted (α := α) (σ := σ) ⟨k, .left, false⟩ d r ↔ ∀ x ∈ r.head?, k ≤ KeyedItem.key x := by
  cases r with
  | nil => simp [Halted]
  | cons x r =>
    rw [Halted, addItem_key, Bool.eq_false_iff, ne_eq, isBeyond_iff]
    simp

theorem Increasing.ordered (h : Increasing (KeyedItem.key : α → K) items) (hd : ∀ x ∈ items.head?, d ≤ KeyedItem.key x) :
    Ordered (σ := σ) d items := by
  induction items generalizing d with
  | nil => trivial
  | cons x items ih =>
    obtain ⟨hx, hrest⟩ := List.pairwise_cons.mp h
    refine ⟨by rw [addItem_key]; exact hd x rfl, ?_⟩
    rw [addItem_key]
    exact ih hrest fun y hy => (hx y (List.mem_of_mem_head? hy)).le

theorem default_le_extent {treeBase : Nat} {tree : SumTree α σ} (htree : Balanced treeBase 1 tree.height tree)
    (hincreasing : Increasing (KeyedItem.key : α → K) tree.toList)
    (hdefault : ∀ x ∈ tree.toList.head?, Dimension.default σ ≤ KeyedItem.key x) :
    (Dimension.default σ : K) ≤ extent tree := by
  by_cases hnil : tree.toList = []
  · rw [htree.eq_empty_of_toList Nat.one_pos hnil]
    exact (LawfulKey.addSummary_zero (α := α)).ge
  · have hextent : (extent tree : K) = measure (Dimension.default σ) tree.toList := htree.addSummary hnil _
    rw [hextent]
    exact (Increasing.ordered hincreasing hdefault).le_measure

end Keys

namespace Cursor

variable {S U : Type} [AddMonoid σ] [Item α σ] [Dimension σ S] [Dimension σ U] [ExactDimension σ S] [ExactDimension σ U]
variable {treeBase leafMin height : Nat} {c : Cursor α σ S U} {pre post : List α} {x : α}

omit [ExactDimension σ S] [ExactDimension σ U] in
theorem StandsAt.next (h : StandsAt c pre (x :: post)) (hseek : c.didSeek = true) (hpos : 0 < leafMin) (hbase : 0 < treeBase)
    (htree : Balanced treeBase leafMin height c.tree) (hheight : height < 16) :
    ∃ c', c.next = some c' ∧ c'.tree = c.tree ∧ c'.didSeek = true ∧ StandsAt c' (pre ++ [x]) post := by
  obtain ⟨hnew, -, -⟩ | ⟨-, hstands⟩ := h.stands
  · rw [hnew] at hseek
    exact absurd hseek Bool.false_ne_true
  have hitem := h.item_eq hseek htree
  have hat : c.atEnd = false ∧ At c.tree c.stack pre (x :: post) := by
    generalize hpost : x :: post = items at hstands
    cases hstands with
    | item hend hat => exact ⟨hend, hat⟩
    | atEnd => exact absurd hpost (List.cons_ne_nil _ _)
    | beforeFirst hend hstack =>
      rw [Cursor.item, if_pos hseek, hstack] at hitem
      exact absurd (Option.some.inj hitem).symm (Option.some_ne_none x)
    | emptyLeaf => exact absurd hpost (List.cons_ne_nil _ _)
  obtain ⟨hend, hat⟩ := hat
  obtain ⟨stack', hnext, hlands⟩ := next_at hpos hbase htree hheight hseek hend hat
  have hitems : c.tree.toList = (pre ++ [x]) ++ post := by
    rw [h.toList]
    simp
  refine ⟨_, hnext, rfl, hseek, .inr ⟨hseek, ?_⟩, ?_, ?_, ?_⟩
  · exact hlands.stands (c := c.pass [x]) rfl hitems
  · rw [measure_append, ← h.seek]
    rfl
  · rw [measure_append, ← h.sum]
    rfl
  · rintro ⟨-, hstack, hend', -⟩
    have hstack' : stack' = [] := hstack
    rw [hstack'] at hend'
    cases hend'

end Cursor

namespace Editing

variable [AddMonoid σ] [Item α σ] [LinearOrder K] [KeyedItem α K] [Dimension σ K]
variable {treeBase : Nat} {tree : SumTree α σ} {e : Editing α σ K} {pre post built : List α} {edits : List (Edit α)}

/-- The cursor stands behind the items `pre` of the tree, and the new tree has the items `built`. -/
structure Stage (treeBase : Nat) (tree : SumTree α σ) (e : Editing α σ K) (pre post built : List α) : Prop where
  tree_eq : e.cursor.tree = tree
  didSeek : e.cursor.didSeek = true
  standsAt : Cursor.StandsAt e.cursor pre post
  built : Built treeBase 1 built e.newTree

/-- There is room for all items that the new tree may get. -/
def Room (treeBase : Nat) (e : Editing α σ K) (post built : List α) (edits : List (Edit α)) : Prop :=
  built.length + e.bufferedItems.length + post.length + edits.length < 2 * treeBase ^ 255

variable [LawfulKey α σ K]
variable (hbase : 2 ≤ treeBase) (htree : Balanced treeBase 1 tree.height tree) (hheight : tree.height < 16)
  (hincreasing : Increasing KeyedItem.key tree.toList)
  (hdefault : ∀ x ∈ tree.toList.head?, Dimension.default σ ≤ KeyedItem.key x)

include hbase htree hheight hincreasing hdefault

variable (h : Stage treeBase tree e pre post built)
include h

theorem Stage.skipTo (hroom : Room treeBase e post built edits) (k : K) :
    ∃ e' pre' r built', e.skipTo treeBase k = some (e', r.head?) ∧ Stage treeBase tree e' pre' r built' ∧
      built' ++ e'.bufferedItems = built ++ e.bufferedItems ++ post.filter (fun x => KeyedItem.key x < k) ∧
      (post.filter fun x => k < KeyedItem.key x) = if r.head?.any (fun x => KeyedItem.key x = k) then r.tail else r := by
  have hcursor : Balanced treeBase 1 tree.height e.cursor.tree := by rwa [h.tree_eq]
  have hitems : tree.toList = pre ++ post := h.tree_eq ▸ h.standsAt.toList
  have hordered : Ordered (Dimension.default σ : K) tree.toList := Increasing.ordered hincreasing hdefault
  have hpost : Increasing KeyedItem.key post := by
    rw [hitems] at hincreasing
    exact (List.pairwise_append.mp hincreasing).2.1
  rw [hitems, ordered_append, ← h.standsAt.seek] at hordered
  rw [Editing.skipTo, h.standsAt.item_eq h.didSeek hcursor, Option.bind_some]
  by_cases hless : post.head?.any (fun x => KeyedItem.key x < k) = true
  · have htarget : e.cursor.seekDimension ≤ k := by
      cases post with
      | nil => exact absurd hless (by simp)
      | cons x rest =>
        have hle := hordered.2.1
        rw [addItem_key] at hle
        exact hle.trans (by simpa using hless : KeyedItem.key x < k).le
    unfold Room at hroom
    have hbuilt := h.built.toList
    have hfits : Fits treeBase (e.newTree.toList ++ e.bufferedItems) := by
      unfold Fits
      rw [hbuilt, List.length_append]
      omega
    obtain ⟨newTree, hextend, hnew⟩ := extend_spec (by omega) Nat.one_pos (by omega) h.built.balanced e.bufferedItems hfits
    obtain ⟨c', slice, l, r, hslice, hseeks⟩ := h.standsAt.slice (by omega) Nat.one_pos hcursor hheight
      (hcursor.fits hbase hheight) .left htarget
    have hcut : Built treeBase 1 l slice := hseeks.collected.2
    have hpieces : post = l ++ r := hseeks.items
    have hfits' : Fits treeBase (newTree.toList ++ slice.toList) := by
      unfold Fits
      rw [hnew.toList, hcut.toList, hbuilt, List.length_append, List.length_append]
      rw [hpieces, List.length_append] at hroom
      omega
    obtain ⟨pushed, hpush, hpushed⟩ := pushTree_spec (by omega) Nat.one_pos (by omega) hnew.balanced hcut.balanced hfits'
    have hcursor' : Balanced treeBase 1 tree.height c'.tree := by rwa [hseeks.tree]
    obtain ⟨hbeyond, hhalted⟩ := hseeks.halts rfl (hpieces ▸ hordered.2)
    rw [allBeyond_iff_key] at hbeyond
    rw [halted_iff_key] at hhalted
    rw [hpieces] at hpost
    obtain ⟨hbefore, hbehind⟩ := hpost.split hbeyond hhalted
    refine ⟨⟨c', pushed, []⟩, pre ++ l, r, built ++ e.bufferedItems ++ l, ?_,
      ⟨hseeks.tree.trans h.tree_eq, hseeks.didSeek, hseeks.standsAt, ?_⟩, ?_, by rw [hpieces, hbehind]⟩
    · rw [if_pos hless, hextend, Option.bind_some, hslice, Option.bind_some, hpush, Option.bind_some,
        hseeks.standsAt.item_eq hseeks.didSeek hcursor', Option.map_some]
    · rw [hnew.toList, hcut.toList, hbuilt] at hpushed
      exact hpushed
    · rw [List.append_nil, hpieces, hbefore]
  · have hhead : ∀ x ∈ post.head?, k ≤ KeyedItem.key x := by
      intro x hx
      rw [Option.mem_def.mp hx] at hless
      simpa using hless
    obtain ⟨hbefore, hbehind⟩ := Increasing.split (l := []) hpost nofun hhead
    rw [List.nil_append] at hbefore hbehind
    exact ⟨e, pre, post, built, by rw [if_neg hless], h, by rw [hbefore, List.append_nil], hbehind⟩

theorem Stage.step {edit : Edit α} (hroom : Room treeBase e post built (edit :: edits)) :
    ∃ e' pre' built', e.step treeBase edit = some e' ∧
      Stage treeBase tree e' pre' (post.filter fun x => edit.key < KeyedItem.key x) built' ∧
      built' ++ e'.bufferedItems = built ++ e.bufferedItems ++ (post.filter fun x => KeyedItem.key x < edit.key) ++
        edit.item.toList := by
  obtain ⟨e', pre', r, built', hskip, hstage, hitems, hrest⟩ :=
    h.skipTo hbase htree hheight hincreasing hdefault hroom edit.key
  rw [Editing.step, hskip, Option.bind_some, hrest]
  by_cases hsame : r.head?.any (fun x => KeyedItem.key x = edit.key) = true
  · cases r with
    | nil => exact absurd hsame (by simp)
    | cons x r =>
      have hcursor : Balanced treeBase 1 tree.height e'.cursor.tree := by rwa [hstage.tree_eq]
      obtain ⟨c', hnext, htree', hseek', hstands'⟩ :=
        hstage.standsAt.next hstage.didSeek Nat.one_pos (by omega) hcursor hheight
      refine ⟨{ e' with cursor := c', bufferedItems := e'.bufferedItems ++ edit.item.toList }, pre' ++ [x], built', ?_, ?_, ?_⟩
      · rw [if_pos hsame, hnext]
        rfl
      · rw [if_pos hsame]
        exact ⟨htree'.trans hstage.tree_eq, hseek', hstands', hstage.built⟩
      · rw [← hitems, List.append_assoc]
  · refine ⟨{ e' with bufferedItems := e'.bufferedItems ++ edit.item.toList }, pre', built', ?_, ?_, ?_⟩
    · rw [if_neg hsame]
      rfl
    · rw [if_neg hsame]
      exact ⟨hstage.tree_eq, hstage.didSeek, hstage.standsAt, hstage.built⟩
    · rw [← hitems, List.append_assoc]

theorem Stage.run (hroom : Room treeBase e post built edits) :
    ∃ e' pre' post' built', edits.foldlM (Editing.step treeBase) e = some e' ∧ Stage treeBase tree e' pre' post' built' ∧
      Room treeBase e' post' built' [] ∧ built' ++ e'.bufferedItems ++ post' =
        built ++ e.bufferedItems ++ mergeChanges KeyedItem.key post (edits.map Edit.change) := by
  induction edits generalizing e pre post built with
  | nil => exact ⟨e, pre, post, built, rfl, h, hroom, rfl⟩
  | cons edit edits ih =>
    obtain ⟨e', pre', built', hstep, hstage, hitems⟩ := h.step hbase htree hheight hincreasing hdefault hroom
    have hroom' : Room treeBase e' (post.filter fun x => edit.key < KeyedItem.key x) built' edits := by
      have hlengths := congrArg List.length hitems
      have hparts : (post.filter fun x => KeyedItem.key x < edit.key).length +
          (post.filter fun x => edit.key < KeyedItem.key x).length ≤ post.length :=
        length_sides_le KeyedItem.key post edit.key
      have hone : edit.item.toList.length ≤ 1 := by
        cases edit <;> simp [Edit.item]
      unfold Room at hroom ⊢
      simp only [List.length_append, List.length_cons] at hlengths hroom
      omega
    obtain ⟨e'', pre'', post'', built'', hrun, hstage', hroom'', hresult⟩ := ih hstage hroom'
    refine ⟨e'', pre'', post'', built'', ?_, hstage', hroom'', ?_⟩
    · rw [List.foldlM_cons, hstep]
      exact hrun
    · rw [hresult, hitems, List.map_cons, mergeChanges]
      simp only [List.append_assoc]
      rfl

theorem Stage.finish (hroom : Room treeBase e post built []) :
    ∃ result, e.finish treeBase = some result ∧ Built treeBase 1 (built ++ e.bufferedItems ++ post) result := by
  have hcursor : Balanced treeBase 1 tree.height e.cursor.tree := by rwa [h.tree_eq]
  have hitems : tree.toList = pre ++ post := h.tree_eq ▸ h.standsAt.toList
  have hordered : Ordered (Dimension.default σ : K) tree.toList := Increasing.ordered hincreasing hdefault
  have hbuilt := h.built.toList
  unfold Room at hroom
  rw [List.length_nil, Nat.add_zero] at hroom
  have hfits : Fits treeBase (e.newTree.toList ++ e.bufferedItems) := by
    unfold Fits
    rw [hbuilt, List.length_append]
    omega
  obtain ⟨newTree, hextend, hnew⟩ := extend_spec (by omega) Nat.one_pos (by omega) h.built.balanced e.bufferedItems hfits
  have hextent : e.cursor.seekDimension ≤ extent tree := by
    rw [h.standsAt.seek]
    exact Cursor.measure_le_extent htree hordered (default_le_extent htree hincreasing hdefault) hitems
  obtain ⟨c', rest, hsuffix, hrest⟩ := Cursor.suffix_standsAt (by omega) Nat.one_pos htree hheight
    (htree.fits hbase hheight) hordered h.tree_eq h.standsAt hextent
  have hfits' : Fits treeBase (newTree.toList ++ rest.toList) := by
    unfold Fits
    rw [hnew.toList, hrest.toList, hbuilt, List.length_append, List.length_append]
    exact hroom
  obtain ⟨result, hpush, hresult⟩ := pushTree_spec (by omega) Nat.one_pos (by omega) hnew.balanced hrest.balanced hfits'
  rw [hnew.toList, hrest.toList, hbuilt] at hresult
  exact ⟨result, by rw [Editing.finish, hextend, Option.bind_some, hsuffix, Option.bind_some, hpush], hresult⟩

end Editing

section Updates

variable [AddMonoid σ] [Item α σ] [LinearOrder K] [KeyedItem α K] {edits : List (Edit α)}

/-- The items are those of an ordered map after the edits: each edited key has the item that its edit leaves, every
other key the one it had. -/
structure Updated (treeBase : Nat) (items : List α) (edits : List (Edit α)) (result : SumTree α σ) : Prop where
  balanced : Balanced treeBase 1 result.height result
  increasing : Increasing KeyedItem.key result.toList
  edited : ∀ edit ∈ edits, itemAt KeyedItem.key result.toList edit.key = edit.item
  others : ∀ k, (∀ edit ∈ edits, edit.key ≠ k) →
    itemAt KeyedItem.key result.toList k = itemAt KeyedItem.key items k

theorem mem_sortedEdits {edit : Edit α} : edit ∈ sortedEdits edits ↔ edit ∈ edits := (List.mergeSort_perm edits _).mem_iff

theorem sortedEdits_orderly (h : edits.Pairwise fun a b => a.key ≠ b.key) :
    Orderly KeyedItem.key ((sortedEdits edits).map Edit.change) := by
  have hsorted : (sortedEdits edits).Pairwise fun a b => decide (a.key ≤ b.key) = true := by
    refine List.pairwise_mergeSort ?_ ?_ edits
    · intro a b c hab hbc
      simp only [decide_eq_true_eq] at hab hbc ⊢
      exact hab.trans hbc
    · intro a b
      simp only [Bool.or_eq_true, decide_eq_true_eq]
      exact le_total _ _
  have hdistinct : (sortedEdits edits).Pairwise fun a b => a.key ≠ b.key :=
    (List.mergeSort_perm edits _).symm.pairwise h fun hab => Ne.symm hab
  refine ⟨List.pairwise_map.mpr ((hsorted.and hdistinct).imp ?_), ?_⟩
  · rintro a b ⟨hle, hne⟩
    exact lt_of_le_of_ne (of_decide_eq_true hle) hne
  · intro change hchange x hx
    obtain ⟨edit, -, rfl⟩ := List.mem_map.mp hchange
    cases edit with
    | insert item => rw [← Option.some.inj hx]; rfl
    | remove item => exact absurd hx nofun

theorem updated_of_merged {treeBase : Nat} {items : List α} {result : SumTree α σ} (hincreasing : Increasing KeyedItem.key items)
    (h : edits.Pairwise fun a b => a.key ≠ b.key)
    (hresult : Built treeBase 1 (mergeChanges KeyedItem.key items ((sortedEdits edits).map Edit.change)) result) :
    Updated treeBase items edits result := by
  have horderly := sortedEdits_orderly h
  refine ⟨hresult.balanced, ?_, ?_, ?_⟩
  · rw [hresult.toList]
    exact mergeChanges_increasing horderly hincreasing
  · intro edit hedit
    rw [hresult.toList]
    exact itemAt_changed horderly items (List.mem_map_of_mem (mem_sortedEdits.mpr hedit))
  · intro k hk
    rw [hresult.toList]
    refine itemAt_unchanged horderly items fun change hchange => ?_
    obtain ⟨edit, hedit, rfl⟩ := List.mem_map.mp hchange
    exact hk edit (mem_sortedEdits.mp hedit)

end Updates

/-- Editing a tree that a cursor has room for updates an ordered map, if no key is lower than the default one. -/
theorem edit_updates [AddMonoid σ] [Item α σ] [LinearOrder K] [KeyedItem α K] [Dimension σ K] [LawfulKey α σ K]
    {treeBase : Nat} {tree : SumTree α σ} (hbase : 2 ≤ treeBase) (htree : Balanced treeBase 1 tree.height tree)
    (hheight : tree.height < 16) (hincreasing : Increasing KeyedItem.key tree.toList)
    (hdefault : ∀ x ∈ tree.toList, Dimension.default σ ≤ KeyedItem.key x) (edits : List (Edit α))
    (hdistinct : edits.Pairwise fun a b => a.key ≠ b.key) (hlength : edits.length < 2 ^ 64) :
    ∃ result, edit treeBase tree edits = some (result, ()) ∧ Updated treeBase tree.toList edits result := by
  have hdefault' : ∀ x ∈ tree.toList.head?, Dimension.default σ ≤ KeyedItem.key x := fun x hx =>
    hdefault x (List.mem_of_mem_head? hx)
  rw [edit]
  by_cases hnil : edits.isEmpty = true
  · rw [if_pos hnil]
    rw [List.isEmpty_iff.mp hnil]
    exact ⟨tree, rfl, htree, hincreasing, nofun, fun _ _ => rfl⟩
  · rw [if_neg hnil]
    have hordered : Ordered (Dimension.default σ : K) tree.toList := Increasing.ordered hincreasing hdefault'
    obtain ⟨c, found, l, r, hseek, hseeks⟩ := Cursor.StandsAt.seekTo (c := (Cursor.new tree : Cursor α σ K Unit)) rfl
      (by omega) Nat.one_pos htree hheight (htree.fits hbase hheight) .left (le_refl (Dimension.default σ : K))
    have hitems : tree.toList = l ++ r := hseeks.items
    rw [hitems] at hordered
    have hbeyond := (hseeks.halts rfl hordered).1
    rw [allBeyond_iff_key] at hbeyond
    have hfirst : l = [] := by
      cases l with
      | nil => rfl
      | cons x l => exact absurd (hbeyond x List.mem_cons_self) (hdefault' x (by rw [hitems]; rfl)).not_gt
    subst hfirst
    have hstage : Editing.Stage treeBase tree ⟨c, SumTree.new, []⟩ [] tree.toList [] :=
      ⟨hseeks.tree, hseeks.didSeek, by rw [hitems]; exact hseeks.standsAt, new_balanced, toList_new⟩
    have hroom : Editing.Room treeBase (⟨c, SumTree.new, []⟩ : Editing α σ K) tree.toList [] (sortedEdits edits) := by
      have hle := htree.length_le_pow hbase hheight
      have hedits : (sortedEdits edits).length = edits.length := (List.mergeSort_perm edits _).length_eq
      have hlow : treeBase ^ 32 ≤ treeBase ^ 255 := Nat.pow_le_pow_right (by omega) (by omega)
      have hhigh : 2 ^ 64 ≤ treeBase ^ 255 :=
        (Nat.pow_le_pow_left hbase 64).trans (Nat.pow_le_pow_right (by omega) (by omega))
      unfold Editing.Room
      rw [hedits]
      simp only [List.length_nil]
      omega
    obtain ⟨e, pre, post, built, hrun, hstage', hroom', hmerged⟩ :=
      hstage.run hbase htree hheight hincreasing hdefault' hroom
    obtain ⟨result, hfinish, hresult⟩ := hstage'.finish hbase htree hheight hincreasing hdefault' hroom'
    rw [hmerged] at hresult
    refine ⟨result, ?_, updated_of_merged hincreasing hdistinct hresult⟩
    rw [hseek, Option.bind_some]
    rw [hrun, Option.bind_some, hfinish]
    rfl

section Examples

structure LastKey where
  last : Option Int
deriving DecidableEq

local instance : Add LastKey := ⟨fun a b => ⟨b.last.or a.last⟩⟩

local instance : Zero LastKey := ⟨⟨none⟩⟩

local instance : AddMonoid LastKey where
  zero_add a := by cases a with | mk last => cases last <;> rfl
  add_zero _ := rfl
  add_assoc _ _ _ := congrArg LastKey.mk Option.or_assoc.symm
  nsmul := nsmulRec

local instance : Item Int LastKey := ⟨fun key => ⟨some key⟩⟩

local instance : KeyedItem Int Int := ⟨id⟩

local instance : Dimension LastKey Int := ⟨0, fun d summary => summary.last.getD d⟩

local instance : LawfulKey Int LastKey Int where
  addSummary_add d a b := by
    cases a with
    | mk last =>
      cases b with
      | mk last' => cases last' <;> rfl
  addSummary_item _ _ := rfl
  addSummary_zero := rfl

def tens : List Int := (List.range 13).map fun i => 10 * (i + 1)

theorem edit_updates_sample :
    ∃ tree result : SumTree Int LastKey, SumTree.new.extend 6 tens = some tree ∧
      edit 6 tree [.insert 200, .remove 20, .insert 5, .remove 7, .insert 90] = some (result, ()) ∧
      Updated 6 tens [.insert 200, .remove 20, .insert 5, .remove 7, .insert 90] result := by
  have hnew : Balanced 6 1 (SumTree.new : SumTree Int LastKey).height (SumTree.new : SumTree Int LastKey) := new_balanced
  have hfits : Fits 6 ((SumTree.new : SumTree Int LastKey).toList ++ tens) := by
    unfold Fits
    decide +kernel
  obtain ⟨tree, hextend, hbuilt⟩ := extend_spec (Nat.le_add_left 1 5) Nat.one_pos (Nat.succ_pos 5) hnew tens hfits
  have hheight : ((SumTree.new : SumTree Int LastKey).extend 6 tens).all (fun t => t.height < 16) = true := by
    decide +kernel
  rw [hextend] at hheight
  have hitems : tree.toList = tens := hbuilt.toList
  obtain ⟨result, hedit, hupdated⟩ := edit_updates (by decide) hbuilt.balanced (by simpa using hheight)
    (by rw [hitems, Increasing]; decide) (by rw [hitems]; decide)
    [.insert 200, .remove 20, .insert 5, .remove 7, .insert 90] (by decide) (by decide)
  rw [hitems] at hupdated
  exact ⟨tree, result, hextend, hedit, hupdated⟩

def keyedTree (height : Nat) (first : Int) : SumTree Int LastKey :=
  match height with
  | 0 => leafOf ((List.range 6).map fun i : Nat => first + i)
  | height + 1 => nodeOf (height + 1) ((List.range 6).map fun i : Nat => keyedTree height (first + i * 6 ^ (height + 1)))

theorem keyedTree_size (height : Nat) (first : Int) : (keyedTree height first).size = 6 := by
  cases height <;> rfl

theorem keyedTree_balanced (height : Nat) (first : Int) : Balanced 6 6 height (keyedTree height first) := by
  induction height generalizing first with
  | zero => exact leafOf_balanced (by simp)
  | succ height ih =>
    refine balanced_succ.mpr ⟨_, rfl, List.cons_ne_nil _ _, by simp, fun tree htree => ?_⟩
    obtain ⟨i, -, rfl⟩ := List.mem_map.mp htree
    exact ⟨ih _, by rw [keyedTree_size]; exact minSize_le (Nat.le_refl 6)⟩

theorem keyedTree_keys (height : Nat) (first : Int) :
    (∀ x ∈ (keyedTree height first).toList, first ≤ x ∧ x < first + 6 ^ (height + 1)) ∧
      Increasing KeyedItem.key (keyedTree height first).toList := by
  induction height generalizing first with
  | zero =>
    have hitems : (keyedTree 0 first).toList = (List.range 6).map fun i : Nat => first + i := toList_leafOf _
    rw [hitems]
    refine ⟨fun x hx => ?_, List.pairwise_map.mpr (List.pairwise_lt_range.imp fun hlt => ?_)⟩
    · obtain ⟨i, hi, rfl⟩ := List.mem_map.mp hx
      have hlt := List.mem_range.mp hi
      constructor
      · omega
      · norm_num
        omega
    · show first + _ < first + _
      omega
  | succ height ih =>
    have hitems : (keyedTree (height + 1) first).toList =
        (List.range 6).flatMap fun i : Nat => (keyedTree height (first + i * 6 ^ (height + 1))).toList := by
      rw [keyedTree, toList_nodeOf, List.flatMap_map]
    have hpos : (0 : Int) < 6 ^ (height + 1) := pow_pos (by norm_num) _
    have hpow : (6 : Int) ^ (height + 1 + 1) = 6 * 6 ^ (height + 1) := pow_succ' _ _
    rw [hitems]
    refine ⟨fun x hx => ?_, List.pairwise_flatMap.mpr ⟨fun i _ => (ih _).2, List.pairwise_lt_range.imp ?_⟩⟩
    · obtain ⟨i, hi, hmem⟩ := List.mem_flatMap.mp hx
      have hlt : (i : Int) + 1 ≤ 6 := by
        have := List.mem_range.mp hi
        omega
      obtain ⟨hlow, hhigh⟩ := (ih _).1 x hmem
      constructor
      · nlinarith
      · nlinarith
    · intro i j hij x hx y hy
      have hlt : (i : Int) + 1 ≤ j := by omega
      have hhigh := ((ih _).1 x hx).2
      have hlow := ((ih _).1 y hy).1
      show x < y
      nlinarith

/-- A tall tree has no room for a cursor, a key below the default is lost, and removed items are not told. -/
theorem not_all_updated :
    (¬∀ (tree : SumTree Int LastKey) (edits : List (Edit Int)), Balanced 6 6 tree.height tree →
      Increasing KeyedItem.key tree.toList → (∀ x ∈ tree.toList, 0 ≤ x) → edits.Pairwise (fun a b => a.key ≠ b.key) →
        ∃ result, edit 6 tree edits = some (result, ()) ∧ Updated 6 tree.toList edits result) ∧
    (¬∀ (tree : SumTree Int LastKey) (edits : List (Edit Int)), Balanced 6 6 tree.height tree → tree.height < 16 →
      Increasing KeyedItem.key tree.toList → edits.Pairwise (fun a b => a.key ≠ b.key) →
        ∃ result, edit 6 tree edits = some (result, ()) ∧ Updated 6 tree.toList edits result) ∧
    ¬∃ removed : Unit → List Int, ∀ (tree : SumTree Int LastKey) (edits : List (Edit Int)) (result : SumTree Int LastKey)
      (returned : Unit), edit 6 tree edits = some (result, returned) →
        removed returned = tree.toList.filter fun x => edits.any fun edit => edit.key = x := by
  refine ⟨fun h => ?_, fun h => ?_, fun h => ?_⟩
  · obtain ⟨result, hedit, -⟩ := h (keyedTree 16 0) [.insert 7] (keyedTree_balanced 16 0) (keyedTree_keys 16 0).2
      (fun x hx => ((keyedTree_keys 16 0).1 x hx).1) (by simp)
    have hnone : (edit 6 (keyedTree 16 0) [.insert 7]).isNone = true := by
      decide +kernel
    rw [hedit] at hnone
    exact absurd hnone Bool.false_ne_true
  · obtain ⟨result, hedit, hupdated⟩ := h (leafOf [-3, 5]) [.insert 7] (by decide) (by decide) (by rw [Increasing]; decide)
      (by simp)
    have hlost : (edit 6 (leafOf [-3, 5] : SumTree Int LastKey) [.insert 7]).map (fun result => result.1.toList) =
        some [5, 7] := by
      decide +kernel
    rw [hedit] at hlost
    have hitem := hupdated.others (-3) (by decide)
    have hresult : result.toList = [5, 7] := Option.some.inj hlost
    rw [hresult] at hitem
    exact absurd hitem (by decide)
  · obtain ⟨removed, h⟩ := h
    have hsome : (edit 6 (leafOf [1] : SumTree Int LastKey) [.remove 1]).isSome = true := by
      decide +kernel
    obtain ⟨⟨result, returned⟩, hedit⟩ := Option.isSome_iff_exists.mp hsome
    have hkept := h (leafOf [1]) [] _ returned rfl
    have hremoved := h (leafOf [1]) [.remove 1] result returned hedit
    rw [hkept] at hremoved
    exact absurd hremoved (by decide)

end Examples

end InfiniShell.SumTree
