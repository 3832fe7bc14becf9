import InfiniShell.SumTree.Coherence

namespace InfiniShell.SumTree

open Cursor

variable {α σ : Type}

section Skipped

variable {S : Type} [LinearOrder S] [Item α σ] [Dimension σ S]

/-- The first items of a list that the target is beyond, from `d` on. -/
def skipped (seek : SeekTarget S) (d : S) : List α → List α
  | [] => []
  | item :: items => if seek.isBeyond false (addItem d item) then item :: skipped seek (addItem d item) items else []

theorem skipped_eq {seek : SeekTarget S} {d : S} {l r : List α} (hall : AllBeyond seek d l)
    (hhalted : Halted seek (measure d l) r) : skipped seek d (l ++ r) = l := by
  induction l generalizing d with
  | nil =>
    cases r with
    | nil => rfl
    | cons x r =>
      have hx : seek.isBeyond false (addItem d x) = false := hhalted
      rw [List.nil_append, skipped, if_neg (by simp [hx])]
  | cons x l ih => rw [List.cons_append, skipped, if_pos hall.1, ih hall.2 hhalted]

end Skipped

/-- How a tree is built. A slice or suffix is cut out by a cursor along the dimensions `S` and `U` after a
run of calls on it. -/
inductive Build (α σ : Type) : Type 1 where
  | new
  | push (tree : Build α σ) (item : α)
  | extend (tree : Build α σ) (items : List α)
  | pushTree (tree other : Build α σ)
  | updateLast (f : α → α) (tree : Build α σ)
  | slice {S U : Type} [LinearOrder S] [Dimension σ S] [Dimension σ U] (tree : Build α σ) (calls : List (Call S))
    (pos : S) (bias : SeekBias)
  | suffix {S U : Type} [LinearOrder S] [Dimension σ S] [Dimension σ U] (tree : Build α σ) (calls : List (Call S))

namespace Build

variable [AddMonoid σ] [Item α σ]

def eval (treeBase : Nat) : Build α σ → Option (SumTree α σ)
  | new => some SumTree.new
  | push tree item => (tree.eval treeBase).bind fun tree => tree.push treeBase item
  | extend tree items => (tree.eval treeBase).bind fun tree => tree.extend treeBase items
  | pushTree tree other =>
    (tree.eval treeBase).bind fun tree => (other.eval treeBase).bind fun other => tree.pushTree treeBase other
  | updateLast f tree => (tree.eval treeBase).bind fun tree => tree.updateLast f
  | slice (S := S) (U := U) tree calls pos bias =>
    (tree.eval treeBase).bind fun tree =>
      ((Cursor.new tree : Cursor α σ S U).run treeBase calls).bind fun c =>
        (c.slice treeBase pos bias).map Prod.snd
  | suffix (S := S) (U := U) tree calls =>
    (tree.eval treeBase).bind fun tree =>
      ((Cursor.new tree : Cursor α σ S U).run treeBase calls).bind fun c => (c.suffix treeBase).map Prod.snd

/-- The items before and behind the cursor that makes the last cut. -/
def cursorPosition (treeBase : Nat) (S U : Type) [LinearOrder S] [Dimension σ S] [Dimension σ U]
    (tree : Option (SumTree α σ)) (calls : List (Call S)) : Nat :=
  ((tree.bind fun tree => (Cursor.new tree : Cursor α σ S U).run treeBase calls).map Cursor.position).getD 0

def list (treeBase : Nat) : Build α σ → List α
  | new => []
  | push tree item => tree.list treeBase ++ [item]
  | extend tree items => tree.list treeBase ++ items
  | pushTree tree other => tree.list treeBase ++ other.list treeBase
  | updateLast f tree => (tree.list treeBase).modifyLast f
  | slice (S := S) (U := U) tree calls pos bias =>
    let position := cursorPosition treeBase S U (tree.eval treeBase) calls
    skipped ⟨pos, bias, false⟩ (measure (Dimension.default σ) ((tree.list treeBase).take position))
      ((tree.list treeBase).drop position)
  | suffix (S := S) (U := U) tree calls =>
    (tree.list treeBase).drop (cursorPosition treeBase S U (tree.eval treeBase) calls)

/-- The dimensions add up and are ordered along the tree, and each call is made from a state that allows it. -/
def Navigable (treeBase : Nat) (S U : Type) [LinearOrder S] [Dimension σ S] [Dimension σ U]
    (tree : SumTree α σ) (calls : List (Call S)) (cut : Call S) : Prop :=
  ExactDimension σ S ∧ ExactDimension σ U ∧ Ordered (Dimension.default σ : S) tree.toList ∧ tree.height < 16 ∧
    AllAllowed treeBase (Cursor.new tree : Cursor α σ S U) calls ∧
    ∀ c, (Cursor.new tree : Cursor α σ S U).run treeBase calls = some c → Allowed c cut

/-- No height overflows, cursors are used as they can be, and items are pushed to single leaves. -/
def Meets (treeBase leafMin : Nat) : Build α σ → Prop
  | new => True
  | push tree item => tree.Meets treeBase leafMin ∧ Fits treeBase (tree.list treeBase ++ [item]) ∧
      (leafMin = 1 ∨ ∀ t, tree.eval treeBase = some t → t.height = 0)
  | extend tree items => tree.Meets treeBase leafMin ∧ Fits treeBase (tree.list treeBase ++ items)
  | pushTree tree other => tree.Meets treeBase leafMin ∧ other.Meets treeBase leafMin ∧
      Fits treeBase (tree.list treeBase ++ other.list treeBase)
  | updateLast _ tree => tree.Meets treeBase leafMin
  | slice (S := S) (U := U) tree calls pos bias => tree.Meets treeBase leafMin ∧
      ∀ t, tree.eval treeBase = some t → Navigable treeBase S U t calls (.slice pos bias)
  | suffix (S := S) (U := U) tree calls => tree.Meets treeBase leafMin ∧
      ∀ t, tree.eval treeBase = some t → Navigable treeBase S U t calls .suffix

variable {treeBase leafMin : Nat}

section Cut

variable {S U : Type} [LinearOrder S] [Dimension σ S] [Dimension σ U] {tree : SumTree α σ} {calls : List (Call S)}

theorem slice_eval (hbase : 2 ≤ treeBase) (hpos : 0 < leafMin) (hmin : leafMin ≤ treeBase)
    (htree : Balanced treeBase leafMin tree.height tree) {pos : S} {bias : SeekBias}
    (h : Navigable treeBase S U tree calls (.slice pos bias)) :
    ∃ c c' result, (Cursor.new tree : Cursor α σ S U).run treeBase calls = some c ∧
      c.slice treeBase pos bias = some (c', result) ∧
      Built treeBase leafMin (skipped ⟨pos, bias, false⟩
        (measure (Dimension.default σ) (tree.toList.take c.position)) (tree.toList.drop c.position)) result := by
  obtain ⟨hexact, hexact', hordered, hheight, hcalls, hcut⟩ := h
  have hfits := htree.fits hbase hheight
  obtain ⟨c, hrun, hc, hready, -⟩ := run_ready (c := Cursor.new tree) (.inl rfl) hmin hpos htree hheight hfits
    calls hcalls
  have hallowed := hcut c hrun
  have hc' : c.tree = tree := hc
  subst hc'
  obtain ⟨c', result, hresult, -, -, pre, l, r, hitems, hposition, hseek, hbuilt, hhalts⟩ :=
    slice_ready hready hmin hpos htree hheight hfits hallowed.2 bias hallowed.1
  have htake : c.tree.toList.take c.position = pre := by simp [hitems, hposition]
  have hdrop : c.tree.toList.drop c.position = l ++ r := by simp [hitems, hposition]
  rw [hitems, List.append_assoc, ordered_append, ← hseek] at hordered
  obtain ⟨hall, hhalted⟩ := hhalts rfl hordered.2
  refine ⟨c, c', result, hrun, hresult, ?_⟩
  rwa [htake, hdrop, ← hseek, skipped_eq hall hhalted]

theorem skipped_extent (hordered : Ordered (Dimension.default σ : S) tree.toList) [ExactDimension σ S]
    (htree : Balanced treeBase leafMin tree.height tree) (k : Nat) :
    skipped ⟨extent tree, .right, false⟩ (measure (Dimension.default σ : S) (tree.toList.take k))
      (tree.toList.drop k) = tree.toList.drop k := by
  by_cases hnil : tree.toList = []
  · rw [hnil, List.drop_nil, skipped]
  · have hextent : (extent tree : S) = measure (Dimension.default σ) tree.toList := htree.addSummary hnil _
    have hsplit := List.take_append_drop k tree.toList
    have hordered' := hordered
    rw [← hsplit, ordered_append] at hordered'
    have hbeyond : (⟨extent tree, .right, false⟩ : SeekTarget S).isBeyond false
        (measure (measure (Dimension.default σ) (tree.toList.take k)) (tree.toList.drop k)) = true := by
      rw [← measure_append, hsplit, isBeyond_iff]
      exact .inr ⟨hextent, rfl⟩
    have h := skipped_eq (r := []) (hordered'.2.allBeyond hbeyond) trivial
    rwa [List.append_nil] at h

end Cut

/-- A construction that goes well makes a tree of the items that it makes on lists. -/
theorem eval_built (hbase : 2 ≤ treeBase) (hpos : 0 < leafMin) (hmin : leafMin ≤ treeBase) (build : Build α σ)
    (h : build.Meets treeBase leafMin) :
    ∃ tree, build.eval treeBase = some tree ∧ Built treeBase leafMin (build.list treeBase) tree := by
  have hbase' : 0 < treeBase := by omega
  induction build with
  | new => exact ⟨_, rfl, new_balanced, toList_new⟩
  | push tree item ih =>
    obtain ⟨hmeets, hfits, hleaf⟩ := h
    obtain ⟨t, heval, hbuilt⟩ := ih hmeets
    rw [← hbuilt.toList] at hfits
    rw [eval, heval, list, ← hbuilt.toList]
    cases hleaf with
    | inl hone =>
      subst hone
      exact push_spec hbase' hbuilt.balanced item hfits
    | inr hzero =>
      have hbalanced := hbuilt.balanced
      rw [hzero t heval] at hbalanced
      exact push_leaf_spec hmin hpos hbase' hbalanced item hfits
  | extend tree items ih =>
    obtain ⟨hmeets, hfits⟩ := h
    obtain ⟨t, heval, hbuilt⟩ := ih hmeets
    rw [← hbuilt.toList] at hfits
    rw [eval, heval, list, ← hbuilt.toList]
    exact extend_spec hmin hpos hbase' hbuilt.balanced items hfits
  | pushTree tree other ih ih' =>
    obtain ⟨hmeets, hmeets', hfits⟩ := h
    obtain ⟨t, heval, hbuilt⟩ := ih hmeets
    obtain ⟨t', heval', hbuilt'⟩ := ih' hmeets'
    rw [← hbuilt.toList, ← hbuilt'.toList] at hfits
    rw [eval, heval, heval', list, ← hbuilt.toList, ← hbuilt'.toList]
    exact pushTree_spec hmin hpos hbase' hbuilt.balanced hbuilt'.balanced hfits
  | updateLast f tree ih =>
    obtain ⟨t, heval, hbuilt⟩ := ih h
    rw [eval, heval, list, ← hbuilt.toList]
    exact updateLast_spec hpos hbase' f hbuilt.balanced
  | @slice S U _ _ _ tree calls pos bias ih =>
    obtain ⟨hmeets, hnavigable⟩ := h
    obtain ⟨t, heval, hbuilt⟩ := ih hmeets
    obtain ⟨c, c', result, hrun, hslice, hresult⟩ :=
      slice_eval hbase hpos hmin hbuilt.balanced (hnavigable t heval)
    refine ⟨result, by rw [eval, heval, Option.bind_some, hrun, Option.bind_some, hslice, Option.map_some], ?_⟩
    rw [list, cursorPosition, heval, Option.bind_some, hrun, Option.map_some, Option.getD_some, ← hbuilt.toList]
    exact hresult
  | @suffix S U _ _ _ tree calls ih =>
    obtain ⟨hmeets, hnavigable⟩ := h
    obtain ⟨t, heval, hbuilt⟩ := ih hmeets
    obtain ⟨hexact, hexact', hordered, hheight, hcalls, hcut⟩ := hnavigable t heval
    have htree : ∀ c, (Cursor.new t : Cursor α σ S U).run treeBase calls = some c → c.tree = t := by
      intro c hrun
      obtain ⟨c', hrun', hc, -⟩ := run_ready (c := (Cursor.new t : Cursor α σ S U)) (.inl rfl) hmin hpos
        hbuilt.balanced hheight (hbuilt.balanced.fits hbase hheight) calls hcalls
      rw [hrun] at hrun'
      exact Option.some.inj hrun' ▸ hc
    have hslice : Navigable treeBase S U t calls (.slice (extent t) .right) := by
      refine ⟨hexact, hexact', hordered, hheight, hcalls, ?_⟩
      intro c hrun
      have hallowed := hcut c hrun
      rw [Allowed, htree c hrun] at hallowed
      exact hallowed
    obtain ⟨c, c', result, hrun, hsuffix, hresult⟩ := slice_eval hbase hpos hmin hbuilt.balanced hslice
    rw [skipped_extent hordered hbuilt.balanced] at hresult
    refine ⟨result, ?_, ?_⟩
    · rw [eval, heval, Option.bind_some, hrun, Option.bind_some, Cursor.suffix, htree c hrun, hsuffix, Option.map_some]
    · rw [list, cursorPosition, heval, Option.bind_some, hrun, Option.map_some, Option.getD_some, ← hbuilt.toList]
      exact hresult

end Build

section Claims

variable [AddMonoid σ] [Item α σ] {treeBase : Nat}

/-- A tree built without pushing to a tree of several leaves is the list it stands for, and well formed. -/
theorem build_refines_list (hbase : 2 ≤ treeBase) (build : Build α σ) (h : build.Meets treeBase treeBase) :
    ∃ tree, build.eval treeBase = some tree ∧ tree.toList = build.list treeBase ∧ WellFormed treeBase tree ∧
      tree.summary = itemsSummary (build.list treeBase) := by
  obtain ⟨tree, heval, hbuilt⟩ := build.eval_built hbase (by omega) (Nat.le_refl _) h
  refine ⟨tree, heval, hbuilt.toList, hbuilt.balanced, ?_⟩
  rw [hbuilt.balanced.summary_eq, hbuilt.toList]

variable {S U : Type} [LinearOrder S] [Dimension σ S] [Dimension σ U] [ExactDimension σ S] [ExactDimension σ U]

/-- No run of allowed calls fails, and the cursor shows the sums of what precedes it. -/
theorem cursor_coherent (hbase : 2 ≤ treeBase) {tree : SumTree α σ}
    (htree : Balanced treeBase 1 tree.height tree) (hheight : tree.height < 16) {calls : List (Call S)}
    (hne : calls ≠ []) (hallowed : AllAllowed treeBase (Cursor.new tree : Cursor α σ S U) calls) :
    ∃ c, (Cursor.new tree : Cursor α σ S U).run treeBase calls = some c ∧ c.tree = tree ∧ Coherent c := by
  obtain ⟨c, hrun, hc, -, hstanding⟩ := run_ready (c := (Cursor.new tree : Cursor α σ S U)) (.inl rfl)
    (by omega) (by omega) htree hheight (htree.fits hbase hheight) calls hallowed
  have hbalanced : Balanced treeBase 1 tree.height c.tree := by rwa [hc]
  exact ⟨c, hrun, hc, (hstanding hne).coherent (by omega) (by omega) hbalanced⟩

end Claims

section Examples

/-- Items that count as one each. -/
local instance : Item Nat Nat := ⟨fun _ => 1⟩

local instance : Dimension Nat Nat := ⟨0, (· + ·)⟩

local instance : ExactDimension Nat Nat := ⟨Nat.add_assoc⟩

def pushAll (items : List Nat) : Build Nat Nat := items.foldl .push .new

theorem count_ordered (d : Nat) (items : List Nat) : Ordered d items := by
  induction items generalizing d with
  | nil => trivial
  | cons item items ih => exact ⟨Nat.le_add_right _ _, ih _⟩

theorem build_refines_list_slice :
    ∃ tree, (Build.slice (S := Nat) (U := Nat) (.extend .new (List.range 20)) [] 9 .left).eval 6 = some tree ∧
      tree.toList = (Build.slice (S := Nat) (U := Nat) (.extend .new (List.range 20)) [] 9 .left).list 6 ∧
      WellFormed 6 tree ∧ tree.summary =
        itemsSummary ((Build.slice (S := Nat) (U := Nat) (.extend .new (List.range 20)) [] 9 .left).list 6) := by
  apply build_refines_list (by decide)
  refine ⟨⟨trivial, by unfold Fits; decide +kernel⟩, ?_⟩
  intro t ht
  have hheight : ((Build.extend .new (List.range 20)).eval 6).all (fun t : SumTree Nat Nat => t.height < 16) = true := by
    decide +kernel
  rw [ht] at hheight
  refine ⟨inferInstance, inferInstance, count_ordered _ _, by simpa using hheight, trivial, ?_⟩
  intro c hc
  rw [← Option.some.inj hc]
  exact ⟨Nat.zero_le _, not_leftStart_new t⟩

example : ((Build.slice (S := Nat) (U := Nat) (.extend .new (List.range 20)) [] 9 .left).eval 6).map toList =
    some (List.range 8) := by
  decide +kernel

/-- With 13 items there are two leaves; the 14th becomes a leaf of its own. -/
theorem push_leaves_small_leaf :
    ((pushAll (List.range 14)).eval 6).any (fun tree => ¬ WellFormed 6 tree) = true := by
  decide +kernel

theorem cursor_coherent_seek_prev :
    ∃ tree c, (Build.extend .new (List.range 13)).eval 6 = some tree ∧
      (Cursor.new tree : Cursor Nat Nat Nat Nat).run 6 [.seek 8 .right, .prev] = some c ∧ Coherent c := by
  have hmeets : (Build.extend .new (List.range 13) : Build Nat Nat).Meets 6 1 :=
    ⟨trivial, by unfold Fits; decide +kernel⟩
  obtain ⟨tree, heval, hbuilt⟩ := Build.eval_built (by decide) (by decide) (by decide) _ hmeets
  have hheight : ((Build.extend .new (List.range 13)).eval 6).all (fun t : SumTree Nat Nat => t.height < 16) = true := by
    decide +kernel
  have hprev : ((Build.extend .new (List.range 13)).eval 6).all (fun t : SumTree Nat Nat =>
      ((Cursor.new t : Cursor Nat Nat Nat Nat).move 6 (.seek 8 .right)).all fun c =>
        c.didSeek = true ∧ RestoresCurrent c.stack) = true := by
    decide +kernel
  rw [heval] at hheight hprev
  have hallowed : AllAllowed 6 (Cursor.new tree : Cursor Nat Nat Nat Nat) [.seek 8 .right, .prev] := by
    refine ⟨Nat.zero_le _, ?_⟩
    intro c hc
    rw [Option.all_some, hc] at hprev
    have hprev' : c.didSeek = true ∧ RestoresCurrent c.stack := by simpa using hprev
    exact ⟨hprev', fun _ _ => trivial⟩
  obtain ⟨c, hrun, -, hcoherent⟩ := cursor_coherent (by decide) hbuilt.balanced (by simpa using hheight)
    (by simp) hallowed
  exact ⟨tree, c, heval, hrun, hcoherent⟩

/-- After a slice into the second leaf, `prev` counts from the start of the first one. -/
theorem slice_prev_incoherent :
    (((Build.extend .new (List.range 13)).eval 6).bind fun tree : SumTree Nat Nat =>
      (Cursor.new tree : Cursor Nat Nat Nat Nat).run 6 [.seek 0 .left, .slice 9 .right, .prev]).any
        (fun c => ¬ Coherent c) = true := by
  decide +kernel

/-- Off by the seven items of the first leaf; the item itself is the right one. -/
example : (((Build.extend .new (List.range 13)).eval 6).bind fun tree : SumTree Nat Nat =>
    (Cursor.new tree : Cursor Nat Nat Nat Nat).run 6 [.seek 0 .left, .slice 9 .right, .prev]).map
      (fun c => (c.item, c.seekDimension)) = some (some (some 8), 1) := by
  decide +kernel

end Examples

end InfiniShell.SumTree
