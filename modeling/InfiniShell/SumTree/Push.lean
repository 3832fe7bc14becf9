import InfiniShell.SumTree.Balance
import Mathlib.Data.List.ModifyLast

namespace InfiniShell.SumTree

variable {α σ : Type} [AddMonoid σ] [Item α σ]
variable {treeBase leafMin height height' : Nat} {tree other : SumTree α σ}

theorem minSize_le (h : leafMin ≤ treeBase) : minSize treeBase leafMin height ≤ treeBase := by
  cases height with
  | zero => exact h
  | succ height => exact Nat.le_refl _

theorem minSize_pos (h : 0 < leafMin) (h' : 0 < treeBase) : 0 < minSize treeBase leafMin height := by
  cases height with
  | zero => exact h
  | succ height => exact h'

theorem Balanced.ne_nil (h : Balanced treeBase leafMin height tree) (hpos : 0 < leafMin)
    (hsize : 0 < tree.size) : tree.toList ≠ [] := by
  induction height generalizing tree with
  | zero =>
    obtain ⟨items, htree, -⟩ := balanced_zero.mp h
    rw [htree] at hsize ⊢
    exact List.ne_nil_of_length_pos hsize
  | succ height ih =>
    obtain ⟨trees, htree, hne, hlen, hchildren⟩ := balanced_succ.mp h
    rw [htree, toList_nodeOf]
    cases trees with
    | nil => exact absurd rfl hne
    | cons t trees =>
      obtain ⟨hbalanced, hmin⟩ := hchildren t (by simp)
      have hbase : 0 < treeBase := by
        rw [List.length_cons] at hlen
        omega
      rw [List.flatMap_cons]
      exact List.append_ne_nil_of_left_ne_nil (ih hbalanced ((minSize_pos hpos hbase).trans_le hmin)) _

variable {trees : List (SumTree α σ)}

theorem Children.ne_nil (h : Children treeBase leafMin height trees)
    (hpos : 0 < leafMin) (hbase : 0 < treeBase) (ht : tree ∈ trees) : tree.toList ≠ [] := by
  obtain ⟨hbalanced, hmin⟩ := h tree ht
  exact hbalanced.ne_nil hpos ((minSize_pos hpos hbase).trans_le hmin)

variable {pushed : SumTree α σ × Option (SumTree α σ)} {items : List α}

theorem Pushed.children {size : Nat}
    (h : Pushed treeBase leafMin height size items pushed) (hmin : leafMin ≤ treeBase)
    (hsize : minSize treeBase leafMin height ≤ size) :
    Children treeBase leafMin height (pushed.1 :: pushed.2.toList) := by
  have hle : minSize treeBase leafMin height ≤ treeBase := minSize_le hmin
  intro t ht
  cases List.mem_cons.mp ht with
  | inl ht =>
    rw [ht]
    refine ⟨h.balanced, ?_⟩
    cases h.grown with
    | inl hgrown => exact hsize.trans hgrown
    | inr hgrown => exact hle.trans hgrown
  | inr ht =>
    obtain ⟨hbalanced, hfull, -⟩ := h.split t (Option.mem_toList.mp ht)
    exact ⟨hbalanced, hle.trans hfull⟩

omit [Item α σ] in
theorem pushTreeRecursive_nodeOf (trees : List (SumTree α σ)) :
    pushTreeRecursive treeBase other (nodeOf height trees) =
      if height < other.height then none
      else if height - other.height = 0 then
        other.childTrees.map fun otherTrees =>
          appendChildren treeBase height ((trees.map summary).sum + other.summary) (trees.map summary) trees
            other.childSummaries otherTrees
      else if height - other.height = 1 ∧ ¬ other.isUnderflowing treeBase then
        some (appendChildren treeBase height ((trees.map summary).sum + other.summary) (trees.map summary) trees
          [other.summary] [other])
      else
        (pushTreeToLast treeBase other trees).bind
          (appendSplit treeBase height ((trees.map summary).sum + other.summary) (trees.map summary)) := by
  rw [nodeOf, pushTreeRecursive]

theorem pushTreeToLast_spec (hmin : leafMin ≤ treeBase) (hbase : 0 < treeBase)
    (hchildren : Children treeBase leafMin height (trees ++ [tree]))
    (hlen : (trees ++ [tree]).length ≤ 2 * treeBase) (hother : other.summary = itemsSummary other.toList)
    (hpush : pushTreeRecursive treeBase other tree = some pushed)
    (hpushed : Pushed treeBase leafMin height tree.size (tree.toList ++ other.toList) pushed) :
    ∃ pushed, (pushTreeToLast treeBase other (trees ++ [tree])).bind
        (appendSplit treeBase (height + 1) (((trees ++ [tree]).map summary).sum + other.summary)
          ((trees ++ [tree]).map summary)) = some pushed ∧
      Pushed treeBase leafMin (height + 1) (trees ++ [tree]).length
        ((trees ++ [tree]).flatMap toList ++ other.toList) pushed := by
  have hlast := hchildren tree (by simp)
  have hpair : Children treeBase leafMin height (pushed.1 :: pushed.2.toList) := hpushed.children hmin hlast.2
  have hinit : Children treeBase leafMin height trees := hchildren.sublist (by simp)
  have hnew : Children treeBase leafMin height (trees ++ [pushed.1]) :=
    hinit.append (hpair.sublist (by simp))
  have hsplit : Children treeBase leafMin height pushed.2.toList := hpair.sublist (by simp)
  have hitems : ((trees ++ [pushed.1]) ++ pushed.2.toList).flatMap toList =
      (trees ++ [tree]).flatMap toList ++ other.toList := by
    simp only [List.flatMap_append, List.flatMap_singleton, List.append_assoc, hpushed.toList]
  have hsummary : ((trees ++ [tree]).map summary).sum + other.summary =
      (((trees ++ [pushed.1]) ++ pushed.2.toList).map summary).sum := by
    rw [hchildren.summary_eq, hother, ← itemsSummary_append, (hnew.append hsplit).summary_eq, hitems]
  have hone : pushed.2.toList.length ≤ 1 := by
    cases pushed.2 <;> simp
  have h := appendChildren_spec (by simp) hnew hsplit (by simpa using hlen) (by omega) hbase hsummary
  rw [hitems] at h
  rw [pushTreeToLast_append, hpush, Option.map_some, Option.bind_some, appendSplit_append]
  exact ⟨_, rfl, by simpa using h⟩

theorem pushTreeRecursive_spec (hmin : leafMin ≤ treeBase) (hbase : 0 < treeBase)
    (h : Balanced treeBase leafMin height tree) (h' : Balanced treeBase leafMin height' other)
    (hle : height' ≤ height) :
    ∃ pushed, pushTreeRecursive treeBase other tree = some pushed ∧
      Pushed treeBase leafMin height tree.size (tree.toList ++ other.toList) pushed := by
  induction height generalizing tree with
  | zero =>
    obtain ⟨items, htree, hlen⟩ := balanced_zero.mp h
    rw [Nat.le_zero.mp hle] at h'
    obtain ⟨items', hother, hlen'⟩ := balanced_zero.mp h'
    rw [htree, hother]
    exact appendItems_spec hlen hlen'
  | succ height ih =>
    obtain ⟨trees, htree, hne, hlen, hchildren⟩ := balanced_succ.mp h
    have hheight := h'.height_eq
    rw [htree, pushTreeRecursive_nodeOf, if_neg (by omega), toList_nodeOf, size_nodeOf]
    by_cases heq : height' = height + 1
    · -- equal heights: the children of both stand side by side
      rw [heq] at h'
      obtain ⟨trees', hother, hne', hlen', hchildren'⟩ := balanced_succ.mp h'
      rw [if_pos (by omega), hother]
      refine ⟨_, rfl, ?_⟩
      rw [toList_nodeOf, ← List.flatMap_append]
      exact appendChildren_spec hne hchildren hchildren' hlen hlen' hbase (by simp)
    · rw [if_neg (by omega)]
      by_cases hchild : height + 1 - other.height = 1 ∧ ¬ other.isUnderflowing treeBase
      · rw [if_pos hchild]
        have hother : Children treeBase leafMin height [other] := by
          intro t ht
          rw [List.mem_singleton.mp ht]
          have hfull : treeBase ≤ other.size := Nat.le_of_not_lt hchild.2
          have hheight' : height' = height := by omega
          exact ⟨hheight' ▸ h', (minSize_le hmin).trans hfull⟩
        refine ⟨_, rfl, ?_⟩
        have h := appendChildren_spec hne hchildren hother hlen (by simp; omega) hbase
          (show (trees.map summary).sum + other.summary = _ by simp)
        simpa using h
      · rw [if_neg hchild]
        have hinit := List.dropLast_append_getLast hne
        rw [← hinit] at hlen hchildren ⊢
        have hlast := hchildren (trees.getLast hne) (by simp)
        obtain ⟨pushed, hpush, hpushed⟩ := ih hlast.1 (by omega)
        exact pushTreeToLast_spec hmin hbase hchildren hlen h'.summary_eq hpush hpushed

structure Built (treeBase leafMin : Nat) (items : List α) (tree : SumTree α σ) : Prop where
  balanced : Balanced treeBase leafMin tree.height tree
  toList : tree.toList = items

theorem Balanced.pow_le_length (h : Balanced treeBase leafMin height tree)
    (hfull : minSize treeBase leafMin height ≤ tree.size) :
    leafMin * treeBase ^ height ≤ tree.toList.length := by
  induction height generalizing tree with
  | zero =>
    obtain ⟨items, htree, -⟩ := balanced_zero.mp h
    rw [htree] at hfull ⊢
    simpa [minSize] using hfull
  | succ height ih =>
    obtain ⟨trees, htree, -, -, hchildren⟩ := balanced_succ.mp h
    rw [htree] at hfull ⊢
    have hsum : trees.length * (leafMin * treeBase ^ height) ≤ (trees.flatMap SumTree.toList).length := by
      clear hfull htree
      induction trees with
      | nil => simp
      | cons t trees iht =>
        have ht := hchildren t (by simp)
        have hle := ih ht.1 ht.2
        have hrest := iht (hchildren.sublist (by simp))
        rw [List.flatMap_cons, List.length_append, List.length_cons, Nat.succ_mul]
        omega
    have hcount : treeBase ≤ trees.length := hfull
    rw [toList_nodeOf]
    calc leafMin * treeBase ^ (height + 1) = treeBase * (leafMin * treeBase ^ height) := by ring
      _ ≤ trees.length * (leafMin * treeBase ^ height) := Nat.mul_le_mul_right _ hcount
      _ ≤ _ := hsum

/-- So few items that no tree of them is higher than a `u8` can say. -/
def Fits (treeBase : Nat) (items : List α) : Prop := items.length < 2 * treeBase ^ 255

theorem Fits.append_left {items items' : List α} (h : Fits treeBase (items ++ items')) : Fits treeBase items := by
  unfold Fits at h ⊢
  rw [List.length_append] at h
  omega

omit [Item α σ] in
theorem fromChildTrees_pair (h : tree.height + 1 < 256) :
    fromChildTrees [tree, other] = some (nodeOf (tree.height + 1) [tree, other]) := by
  rw [fromChildTrees, if_pos h, nodeOf, sum_eq]

theorem pushLower_spec (hmin : leafMin ≤ treeBase) (hpos : 0 < leafMin) (hbase : 0 < treeBase)
    (h : Balanced treeBase leafMin height tree) (h' : Balanced treeBase leafMin height' other)
    (hle : height' ≤ height) (hfits : Fits treeBase (tree.toList ++ other.toList)) :
    ∃ result, pushLower treeBase tree other = some result ∧
      Built treeBase leafMin (tree.toList ++ other.toList) result := by
  obtain ⟨⟨left, split⟩, hpush, hpushed⟩ := pushTreeRecursive_spec hmin hbase h h' hle
  have hitems := hpushed.toList
  unfold pushLower
  rw [hpush, Option.bind_some]
  cases split with
  | none => exact ⟨left, rfl, hpushed.balanced.height_eq ▸ hpushed.balanced, by simpa using hitems⟩
  | some right =>
    obtain ⟨hright, hfull, hfull'⟩ := hpushed.split right rfl
    have hleft := hpushed.balanced
    have hleft' : leafMin * treeBase ^ height ≤ left.toList.length :=
      hleft.pow_le_length ((minSize_le hmin).trans hfull')
    have hright' : leafMin * treeBase ^ height ≤ right.toList.length :=
      hright.pow_le_length ((minSize_le hmin).trans hfull)
    have hlen : left.toList.length + right.toList.length = (tree.toList ++ other.toList).length := by
      rw [← hitems]
      simp
    have hheight : left.height + 1 < 256 := by
      rw [hleft.height_eq]
      by_contra hhigh
      have hpow : treeBase ^ 255 ≤ treeBase ^ height := Nat.pow_le_pow_right hbase (by omega)
      have hmul : treeBase ^ height ≤ leafMin * treeBase ^ height := Nat.le_mul_of_pos_left _ hpos
      unfold Fits at hfits
      omega
    refine ⟨_, fromChildTrees_pair hheight, ?_, by simpa using hitems⟩
    rw [height_nodeOf, hleft.height_eq]
    refine balanced_succ.mpr ⟨_, rfl, by simp, by simp; omega, ?_⟩
    intro t ht
    cases List.mem_cons.mp ht with
    | inl ht => exact ht ▸ ⟨hleft, (minSize_le hmin).trans hfull'⟩
    | inr ht => exact List.mem_singleton.mp ht ▸ ⟨hright, (minSize_le hmin).trans hfull⟩

theorem pushTrees_spec
    (hpush : ∀ other ∈ trees, ∀ tree : SumTree α σ, Balanced treeBase leafMin tree.height tree →
      Fits treeBase (tree.toList ++ other.toList) → ∃ result, pushTree treeBase tree other = some result ∧
        Built treeBase leafMin (tree.toList ++ other.toList) result)
    (h : Balanced treeBase leafMin tree.height tree)
    (hfits : Fits treeBase (tree.toList ++ trees.flatMap toList)) :
    ∃ result, pushTrees treeBase tree trees = some result ∧
      Built treeBase leafMin (tree.toList ++ trees.flatMap toList) result := by
  induction trees generalizing tree with
  | nil => exact ⟨tree, rfl, h, by simp⟩
  | cons other trees ih =>
    rw [List.flatMap_cons, ← List.append_assoc] at hfits ⊢
    obtain ⟨next, hnext, hbuilt⟩ := hpush other (by simp) tree h hfits.append_left
    rw [← hbuilt.toList] at hfits ⊢
    obtain ⟨result, hresult, hbuilt'⟩ :=
      ih (fun t ht => hpush t (List.mem_cons_of_mem _ ht)) hbuilt.balanced hfits
    exact ⟨result, by rw [pushTrees, hnext, Option.bind_some, hresult], hbuilt'⟩

omit [Item α σ] in
theorem pushTree_nodeOf (trees : List (SumTree α σ)) :
    pushTree treeBase tree (nodeOf height trees) =
      if tree.height < height then pushTrees treeBase tree trees
      else pushLower treeBase tree (nodeOf height trees) := by
  rw [nodeOf, pushTree]

theorem pushTree_leafOf (items : List α) :
    pushTree treeBase tree (leafOf items) =
      if items.isEmpty then some tree else pushLower treeBase tree (leafOf items) := by
  rw [leafOf, pushTree]

theorem pushTree_spec (hmin : leafMin ≤ treeBase) (hpos : 0 < leafMin) (hbase : 0 < treeBase)
    (h : Balanced treeBase leafMin tree.height tree) (h' : Balanced treeBase leafMin height' other)
    (hfits : Fits treeBase (tree.toList ++ other.toList)) :
    ∃ result, pushTree treeBase tree other = some result ∧
      Built treeBase leafMin (tree.toList ++ other.toList) result := by
  induction height' generalizing tree other with
  | zero =>
    obtain ⟨items, hother, -⟩ := balanced_zero.mp h'
    rw [hother, pushTree_leafOf, ← hother]
    by_cases hempty : items.isEmpty
    · rw [if_pos hempty]
      refine ⟨tree, rfl, h, ?_⟩
      rw [hother, toList_leafOf, List.isEmpty_iff.mp hempty, List.append_nil]
    · rw [if_neg hempty]
      exact pushLower_spec hmin hpos hbase h h' (Nat.zero_le _) hfits
  | succ height' ih =>
    obtain ⟨trees, hother, -, -, hchildren⟩ := balanced_succ.mp h'
    rw [hother, pushTree_nodeOf, ← hother]
    by_cases hheight : tree.height < height' + 1
    · rw [if_pos hheight]
      rw [hother, toList_nodeOf] at hfits ⊢
      exact pushTrees_spec (fun t ht tree' htree' hfits' => ih htree' (hchildren t ht).1 hfits') h hfits
    · rw [if_neg hheight]
      exact pushLower_spec hmin hpos hbase h h' (by omega) hfits

theorem new_balanced : Balanced treeBase leafMin 0 (new : SumTree α σ) :=
  balanced_zero.mpr ⟨[], rfl, Nat.zero_le _⟩

omit [Item α σ] in
@[simp] theorem toList_new : (new : SumTree α σ).toList = [] := toList_leaf ..

theorem leafOf_balanced (h : items.length ≤ 2 * treeBase) :
    Balanced treeBase leafMin 0 (leafOf items : SumTree α σ) :=
  balanced_zero.mpr ⟨items, rfl, h⟩

theorem push_eq (item : α) :
    push treeBase tree item = pushTree treeBase tree (nodeOf 1 [leafOf [item]]) := by
  rw [push, fromChildTrees, if_pos (by simp [SumTree.height])]
  simp [nodeOf, leafOf, itemsSummary, SumTree.height, SumTree.summary]

theorem push_spec (hbase : 0 < treeBase) (h : Balanced treeBase 1 tree.height tree) (item : α)
    (hfits : Fits treeBase (tree.toList ++ [item])) :
    ∃ result, push treeBase tree item = some result ∧ Built treeBase 1 (tree.toList ++ [item]) result := by
  have hleaf : Balanced treeBase 1 0 (leafOf [item] : SumTree α σ) := leafOf_balanced (by simp; omega)
  have hnode : Balanced treeBase 1 1 (nodeOf 1 [leafOf [item]] : SumTree α σ) :=
    balanced_succ.mpr ⟨_, rfl, by simp, by simp; omega, by simpa [Children, minSize] using hleaf⟩
  have hspec := pushTree_spec hbase (by omega) hbase h hnode (by simpa using hfits)
  rw [push_eq]
  simpa using hspec

theorem push_leaf_spec (hmin : leafMin ≤ treeBase) (hpos : 0 < leafMin) (hbase : 0 < treeBase)
    (h : Balanced treeBase leafMin 0 tree) (item : α) (hfits : Fits treeBase (tree.toList ++ [item])) :
    ∃ result, push treeBase tree item = some result ∧
      Built treeBase leafMin (tree.toList ++ [item]) result := by
  have hleaf : Balanced treeBase leafMin 0 (leafOf [item] : SumTree α σ) := leafOf_balanced (by simp; omega)
  rw [push_eq, pushTree_nodeOf, if_pos (by rw [h.height_eq]; omega), pushTrees]
  obtain ⟨result, hresult, hbuilt⟩ :=
    pushTree_spec hmin hpos hbase (h.height_eq.symm ▸ h) hleaf (by simpa using hfits)
  exact ⟨result, by rw [hresult, Option.bind_some, pushTrees], by simpa using hbuilt⟩

theorem extendFrom_spec (hmin : leafMin ≤ treeBase) (hpos : 0 < leafMin) (hbase : 0 < treeBase)
    (h : Balanced treeBase leafMin tree.height tree) {held : List α} (hlen : held.length ≤ 2 * treeBase)
    (rest : List α) (hfits : Fits treeBase (tree.toList ++ held ++ rest)) :
    ∃ result, extendFrom treeBase tree (itemsSummary held) held (held.map Item.summary) rest = some result ∧
      Built treeBase leafMin (tree.toList ++ held ++ rest) result := by
  induction rest generalizing tree held with
  | nil =>
    rw [List.append_nil] at hfits ⊢
    obtain ⟨result, hresult, hbuilt⟩ :=
      pushTree_spec hmin hpos hbase h (leafOf_balanced hlen) (by simpa using hfits)
    rw [toList_leafOf] at hbuilt
    refine ⟨result, ?_, hbuilt⟩
    rw [extendFrom, ← hresult]
    by_cases hempty : held.isEmpty
    · rw [if_pos hempty, pushTree_leafOf, if_pos hempty]
    · rw [if_neg hempty, leafOf]
  | cons item rest ih =>
    rw [extendFrom]
    by_cases hfull : held.length = 2 * treeBase
    · rw [if_pos hfull]
      obtain ⟨next, hnext, hbuilt⟩ :=
        pushTree_spec hmin hpos hbase h (leafOf_balanced hlen) (by simpa using hfits.append_left)
      rw [toList_leafOf] at hbuilt
      have hone : [item].length ≤ 2 * treeBase := by simp; omega
      obtain ⟨result, hresult, hbuilt'⟩ := ih hbuilt.balanced hone
        (by simpa [hbuilt.toList] using hfits)
      refine ⟨result, ?_, by simpa [hbuilt.toList] using hbuilt'⟩
      rw [leafOf] at hnext
      simpa [hnext] using hresult
    · rw [if_neg hfull]
      have hlen' : (held ++ [item]).length ≤ 2 * treeBase := by simp; omega
      obtain ⟨result, hresult, hbuilt⟩ := ih h hlen' (by simpa using hfits)
      exact ⟨result, by simpa using hresult, by simpa using hbuilt⟩

theorem extend_spec (hmin : leafMin ≤ treeBase) (hpos : 0 < leafMin) (hbase : 0 < treeBase)
    (h : Balanced treeBase leafMin tree.height tree) (items : List α)
    (hfits : Fits treeBase (tree.toList ++ items)) :
    ∃ result, extend treeBase tree items = some result ∧
      Built treeBase leafMin (tree.toList ++ items) result := by
  have hnil : ([] : List α).length ≤ 2 * treeBase := Nat.zero_le _
  have hspec := extendFrom_spec hmin hpos hbase h hnil items (by simpa using hfits)
  simpa [extend] using hspec

omit [Item α σ] [AddMonoid σ] in
theorem setLast_append (summaries : List σ) (s s' : σ) : setLast (summaries ++ [s]) s' = some (summaries ++ [s']) := by
  simp [setLast]

theorem updateLastChild_append (f : α → α) (trees : List (SumTree α σ)) :
    updateLastChild f (trees ++ [tree]) =
      (updateLastLeafRecursive f tree).map fun updated => (trees ++ [updated.1], updated.2) := by
  induction trees with
  | nil => rfl
  | cons t trees ih =>
    cases trees with
    | nil =>
      rw [List.singleton_append, updateLastChild, updateLastChild]
      cases updateLastLeafRecursive f tree <;> rfl
    | cons t' trees =>
      rw [List.cons_append, List.cons_append, updateLastChild, ← List.cons_append, ih]
      cases updateLastLeafRecursive f tree <;> rfl

theorem updateLastLeafRecursive_spec (hpos : 0 < leafMin) (hbase : 0 < treeBase) (f : α → α)
    (h : Balanced treeBase leafMin height tree) (hne : tree.toList ≠ []) :
    ∃ updated, updateLastLeafRecursive f tree = some (updated, updated.summary) ∧
      Balanced treeBase leafMin height updated ∧ updated.size = tree.size ∧
      updated.toList = tree.toList.modifyLast f := by
  induction height generalizing tree with
  | zero =>
    obtain ⟨items, rfl, hlen⟩ := balanced_zero.mp h
    rw [toList_leafOf] at hne ⊢
    obtain ⟨init, item, rfl⟩ : ∃ init item, items = init ++ [item] :=
      ⟨_, _, (List.dropLast_append_getLast hne).symm⟩
    refine ⟨leafOf (init ++ [f item]), ?_, leafOf_balanced (by simpa using hlen), by simp, ?_⟩
    · rw [leafOf, updateLastLeafRecursive]
      simp [setLast_append, leafOf, SumTree.summary, itemsSummary]
    · rw [toList_leafOf, List.modifyLast_concat]
  | succ height ih =>
    obtain ⟨trees, rfl, hnil, hlen, hchildren⟩ := balanced_succ.mp h
    obtain ⟨left, child, rfl⟩ : ∃ left child, trees = left ++ [child] :=
      ⟨_, _, (List.dropLast_append_getLast hnil).symm⟩
    have hchild := hchildren child (by simp)
    have hne' : child.toList ≠ [] := hchildren.ne_nil hpos hbase (by simp)
    obtain ⟨updated, hupdated, hbalanced, hsize, hitems⟩ := ih hchild.1 hne'
    have hnew : Children treeBase leafMin height (left ++ [updated]) := by
      refine Children.append (hchildren.sublist (by simp)) ?_
      intro t ht
      rw [List.mem_singleton.mp ht]
      exact ⟨hbalanced, hsize ▸ hchild.2⟩
    refine ⟨nodeOf (height + 1) (left ++ [updated]), ?_, balanced_succ.mpr ⟨_, rfl, by simp, by simpa using hlen, hnew⟩,
      by simp, ?_⟩
    · rw [nodeOf, updateLastLeafRecursive, updateLastChild_append, hupdated, List.map_append, List.map_singleton]
      simp [setLast_append, nodeOf, SumTree.summary]
    · obtain ⟨init, item, hinit⟩ : ∃ init item, child.toList = init ++ [item] :=
        ⟨_, _, (List.dropLast_append_getLast hne').symm⟩
      rw [hinit, List.modifyLast_concat] at hitems
      rw [toList_nodeOf, toList_nodeOf, List.flatMap_append, List.flatMap_append, List.flatMap_singleton,
        List.flatMap_singleton, hitems, hinit, ← List.append_assoc, ← List.append_assoc, List.modifyLast_concat]

theorem Balanced.eq_empty_of_toList (h : Balanced treeBase leafMin height tree) (hpos : 0 < leafMin)
    (hnil : tree.toList = []) : tree = leafOf [] := by
  cases height with
  | zero =>
    obtain ⟨items, rfl, -⟩ := balanced_zero.mp h
    rw [← hnil, toList_leafOf]
  | succ height =>
    obtain ⟨trees, rfl, hne, -⟩ := balanced_succ.mp h
    exact absurd hnil (h.ne_nil hpos (List.length_pos_of_ne_nil hne))

theorem Balanced.eq_empty (h : Balanced treeBase leafMin height tree) (hempty : tree.isEmpty = true) :
    tree = leafOf [] := by
  cases height with
  | zero =>
    obtain ⟨items, rfl, -⟩ := balanced_zero.mp h
    rw [List.isEmpty_iff.mp hempty]
  | succ height =>
    obtain ⟨trees, rfl, -⟩ := balanced_succ.mp h
    exact absurd hempty Bool.false_ne_true

theorem updateLast_spec (hpos : 0 < leafMin) (hbase : 0 < treeBase) (f : α → α)
    (h : Balanced treeBase leafMin tree.height tree) :
    ∃ updated, updateLast f tree = some updated ∧ Built treeBase leafMin (tree.toList.modifyLast f) updated := by
  rw [updateLast]
  by_cases hempty : tree.isEmpty = true
  · refine ⟨tree, by rw [if_pos hempty], h, ?_⟩
    rw [h.eq_empty hempty, toList_leafOf]
    rfl
  · rw [if_neg hempty]
    have hne : tree.toList ≠ [] := by
      intro hnil
      rw [h.eq_empty_of_toList hpos hnil] at hempty
      exact hempty rfl
    obtain ⟨updated, hupdated, hbalanced, -, hitems⟩ := updateLastLeafRecursive_spec hpos hbase f h hne
    exact ⟨updated, by rw [hupdated, Option.map_some], hbalanced.height_eq.symm ▸ hbalanced, hitems⟩

end InfiniShell.SumTree
