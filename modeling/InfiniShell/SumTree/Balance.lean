import InfiniShell.SumTree.Tree
import Mathlib.Tactic.Ring

namespace InfiniShell.SumTree

variable {α σ : Type}

mutual
/-- The items in order. -/
def toList : SumTree α σ → List α
  | internal _ _ _ childTrees => toLists childTrees
  | leaf _ items _ => items

def toLists : List (SumTree α σ) → List α
  | [] => []
  | tree :: trees => toList tree ++ toLists trees
end

@[simp] theorem toLists_eq (trees : List (SumTree α σ)) : toLists trees = trees.flatMap toList := by
  induction trees with
  | nil => rfl
  | cons tree trees ih => rw [toLists, ih, List.flatMap_cons]

@[simp] theorem toList_internal (height : Nat) (summary : σ) (childSummaries : List σ)
    (childTrees : List (SumTree α σ)) :
    toList (internal height summary childSummaries childTrees) = childTrees.flatMap toList := by
  rw [toList, toLists_eq]

@[simp] theorem toList_leaf (summary : σ) (items : List α) (itemSummaries : List σ) :
    toList (leaf summary items itemSummaries) = items := by
  rw [toList]

variable [AddMonoid σ]

@[simp] theorem sum_eq (summaries : List σ) : sum summaries = summaries.sum :=
  List.sum_eq_foldl.symm

def nodeOf (height : Nat) (trees : List (SumTree α σ)) : SumTree α σ :=
  internal height (trees.map summary).sum (trees.map summary) trees

@[simp] theorem toList_nodeOf (height : Nat) (trees : List (SumTree α σ)) :
    (nodeOf height trees).toList = trees.flatMap toList := toList_internal ..

@[simp] theorem size_nodeOf (height : Nat) (trees : List (SumTree α σ)) :
    (nodeOf height trees).size = trees.length := rfl

@[simp] theorem summary_nodeOf (height : Nat) (trees : List (SumTree α σ)) :
    (nodeOf height trees).summary = (trees.map summary).sum := rfl

@[simp] theorem height_nodeOf (height : Nat) (trees : List (SumTree α σ)) :
    (nodeOf height trees).height = height := rfl

variable [Item α σ]

def itemsSummary (items : List α) : σ := (items.map Item.summary).sum

@[simp] theorem itemsSummary_nil : itemsSummary ([] : List α) = (0 : σ) := rfl

@[simp] theorem itemsSummary_cons (item : α) (items : List α) :
    itemsSummary (item :: items) = Item.summary item + itemsSummary items := by
  simp [itemsSummary]

@[simp] theorem itemsSummary_append (items items' : List α) :
    itemsSummary (items ++ items') = itemsSummary items + itemsSummary items' := by
  simp [itemsSummary]

def minSize (treeBase leafMin : Nat) : Nat → Nat
  | 0 => leafMin
  | _ + 1 => treeBase

/-- All leaves are `height` levels down, nodes below the root have their least size, and summaries are sums. -/
def Balanced (treeBase leafMin : Nat) : Nat → SumTree α σ → Prop
  | 0, leaf summary items itemSummaries =>
    summary = itemSummaries.sum ∧ itemSummaries = items.map Item.summary ∧ items.length ≤ 2 * treeBase
  | height + 1, internal height' summary childSummaries childTrees =>
    height' = height + 1 ∧ summary = childSummaries.sum ∧ childSummaries = childTrees.map SumTree.summary ∧
      childTrees ≠ [] ∧ childTrees.length ≤ 2 * treeBase ∧
      ∀ tree ∈ childTrees, Balanced treeBase leafMin height tree ∧ minSize treeBase leafMin height ≤ tree.size
  | _, _ => False

def decideBalanced [DecidableEq σ] (treeBase leafMin : Nat) :
    (height : Nat) → (tree : SumTree α σ) → Decidable (Balanced treeBase leafMin height tree)
  | 0, leaf .. => inferInstanceAs (Decidable (_ ∧ _))
  | 0, internal .. => inferInstanceAs (Decidable False)
  | _ + 1, leaf .. => inferInstanceAs (Decidable False)
  | height + 1, internal .. =>
    have : ∀ tree : SumTree α σ, Decidable (Balanced treeBase leafMin height tree) :=
      decideBalanced treeBase leafMin height
    inferInstanceAs (Decidable (_ ∧ _))

instance [DecidableEq σ] (treeBase leafMin height : Nat) (tree : SumTree α σ) :
    Decidable (Balanced treeBase leafMin height tree) :=
  decideBalanced treeBase leafMin height tree

/-- The representation invariant of the source. -/
def WellFormed (treeBase : Nat) (tree : SumTree α σ) : Prop :=
  Balanced treeBase treeBase tree.height tree

instance [DecidableEq σ] (treeBase : Nat) (tree : SumTree α σ) : Decidable (WellFormed treeBase tree) :=
  inferInstanceAs (Decidable (Balanced ..))

def leafOf (items : List α) : SumTree α σ :=
  leaf (itemsSummary items) items (items.map Item.summary)

@[simp] theorem toList_leafOf (items : List α) : (leafOf items : SumTree α σ).toList = items := toList_leaf ..

@[simp] theorem size_leafOf (items : List α) : (leafOf items : SumTree α σ).size = items.length := rfl

@[simp] theorem summary_leafOf (items : List α) : (leafOf items : SumTree α σ).summary = itemsSummary items := rfl

@[simp] theorem height_leafOf (items : List α) : (leafOf items : SumTree α σ).height = 0 := rfl

variable {treeBase leafMin height : Nat} {tree other : SumTree α σ}

/-- What a node `height` levels up asks of its children. -/
def Children (treeBase leafMin height : Nat) (trees : List (SumTree α σ)) : Prop :=
  ∀ tree ∈ trees, Balanced treeBase leafMin height tree ∧ minSize treeBase leafMin height ≤ tree.size

theorem balanced_zero :
    Balanced treeBase leafMin 0 tree ↔ ∃ items, tree = leafOf items ∧ items.length ≤ 2 * treeBase := by
  constructor
  · intro h
    cases tree with
    | internal => exact absurd h (by simp [Balanced])
    | leaf summary items itemSummaries =>
      obtain ⟨hsum, hsummaries, hlen⟩ := h
      exact ⟨items, by rw [leafOf, itemsSummary, hsum, hsummaries], hlen⟩
  · intro h
    obtain ⟨items, htree, hlen⟩ := h
    rw [htree]
    exact ⟨rfl, rfl, hlen⟩

theorem balanced_succ :
    Balanced treeBase leafMin (height + 1) tree ↔ ∃ trees, tree = nodeOf (height + 1) trees ∧
      trees ≠ [] ∧ trees.length ≤ 2 * treeBase ∧ Children treeBase leafMin height trees := by
  constructor
  · intro h
    cases tree with
    | leaf => exact absurd h (by simp [Balanced])
    | internal height' summary childSummaries childTrees =>
      obtain ⟨hheight, hsum, hsummaries, hne, hlen, hchildren⟩ := h
      exact ⟨childTrees, by rw [nodeOf, hheight, hsum, hsummaries], hne, hlen, hchildren⟩
  · intro h
    obtain ⟨trees, htree, hne, hlen, hchildren⟩ := h
    rw [htree]
    exact ⟨rfl, rfl, rfl, hne, hlen, hchildren⟩

theorem Balanced.height_eq (h : Balanced treeBase leafMin height tree) : tree.height = height := by
  cases height with
  | zero =>
    obtain ⟨items, htree, -⟩ := balanced_zero.mp h
    rw [htree, height_leafOf]
  | succ height =>
    obtain ⟨trees, htree, -⟩ := balanced_succ.mp h
    rw [htree, height_nodeOf]

theorem Balanced.size_le (h : Balanced treeBase leafMin height tree) : tree.size ≤ 2 * treeBase := by
  cases height with
  | zero =>
    obtain ⟨items, htree, hlen⟩ := balanced_zero.mp h
    rwa [htree, size_leafOf]
  | succ height =>
    obtain ⟨trees, htree, -, hlen, -⟩ := balanced_succ.mp h
    rwa [htree, size_nodeOf]

variable {trees : List (SumTree α σ)}

theorem sum_summaries (h : ∀ tree ∈ trees, tree.summary = itemsSummary tree.toList) :
    (trees.map summary).sum = itemsSummary (trees.flatMap toList) := by
  induction trees with
  | nil => rfl
  | cons tree trees ih =>
    rw [List.map_cons, List.sum_cons, List.flatMap_cons, itemsSummary_append, h tree (by simp),
      ih fun t ht => h t (List.mem_cons_of_mem _ ht)]

theorem Balanced.summary_eq (h : Balanced treeBase leafMin height tree) :
    tree.summary = itemsSummary tree.toList := by
  induction height generalizing tree with
  | zero =>
    obtain ⟨items, htree, -⟩ := balanced_zero.mp h
    rw [htree, summary_leafOf, toList_leafOf]
  | succ height ih =>
    obtain ⟨trees, htree, -, -, hchildren⟩ := balanced_succ.mp h
    rw [htree, summary_nodeOf, toList_nodeOf]
    exact sum_summaries fun t ht => ih (hchildren t ht).1

theorem Children.summary_eq (h : Children treeBase leafMin height trees) :
    (trees.map summary).sum = itemsSummary (trees.flatMap toList) :=
  sum_summaries fun t ht => (h t ht).1.summary_eq

variable {trees trees' : List (SumTree α σ)}

theorem Children.append (h : Children treeBase leafMin height trees)
    (h' : Children treeBase leafMin height trees') : Children treeBase leafMin height (trees ++ trees') := by
  intro t ht
  cases List.mem_append.mp ht with
  | inl ht => exact h t ht
  | inr ht => exact h' t ht

theorem Children.sublist (h : Children treeBase leafMin height trees)
    (hsub : trees'.Sublist trees) : Children treeBase leafMin height trees' :=
  fun t ht => h t (hsub.subset ht)

/-- A tree at least as full as before or as a node below the root, and perhaps a split beside it. -/
structure Pushed (treeBase leafMin height size : Nat) (items : List α)
    (pushed : SumTree α σ × Option (SumTree α σ)) : Prop where
  balanced : Balanced treeBase leafMin height pushed.1
  grown : size ≤ pushed.1.size ∨ treeBase ≤ pushed.1.size
  split : ∀ splitTree, pushed.2 = some splitTree →
    Balanced treeBase leafMin height splitTree ∧ treeBase ≤ splitTree.size ∧ treeBase ≤ pushed.1.size
  toList : pushed.1.toList ++ pushed.2.toList.flatMap toList = items

theorem midpoint_bounds {count : Nat} (h : 2 * treeBase < count) (h' : count ≤ 4 * treeBase) :
    treeBase ≤ midpoint count ∧ midpoint count ≤ 2 * treeBase ∧
      treeBase ≤ count - midpoint count ∧ count - midpoint count ≤ 2 * treeBase := by
  unfold midpoint
  omega

theorem appendItems_spec {items items' : List α} (h : items.length ≤ 2 * treeBase)
    (h' : items'.length ≤ 2 * treeBase) :
    ∃ pushed : SumTree α σ × Option (SumTree α σ),
      appendItems treeBase (itemsSummary items) items (items.map Item.summary) (leafOf items') = some pushed ∧
      Pushed treeBase leafMin 0 items.length (items ++ items') pushed := by
  have hlen : (items ++ items').length = items.length + items'.length := List.length_append
  by_cases hsplit : items.length + items'.length > 2 * treeBase
  · obtain ⟨hleft, hleft', hright, hright'⟩ := midpoint_bounds hsplit (by omega)
    refine ⟨(leafOf ((items ++ items').take (midpoint (items.length + items'.length))),
      some (leafOf ((items ++ items').drop (midpoint (items.length + items'.length))))), ?_, ?_⟩
    · simp only [appendItems, leafOf, SumTree.items, SumTree.childSummaries, Option.map_some, if_pos hsplit,
        itemsSummary, List.map_append, List.map_take, List.map_drop, sum_eq]
    · have htake : ((items ++ items').take (midpoint (items.length + items'.length))).length =
          midpoint (items.length + items'.length) := by
        rw [List.length_take, hlen]
        omega
      have hdrop : ((items ++ items').drop (midpoint (items.length + items'.length))).length =
          items.length + items'.length - midpoint (items.length + items'.length) := by
        rw [List.length_drop, hlen]
      refine ⟨balanced_zero.mpr ⟨_, rfl, htake.trans_le hleft'⟩, .inr (hleft.trans_eq htake.symm), ?_, by simp⟩
      intro splitTree heq
      cases heq
      exact ⟨balanced_zero.mpr ⟨_, rfl, hdrop.trans_le hright'⟩, hright.trans_eq hdrop.symm,
        hleft.trans_eq htake.symm⟩
  · refine ⟨(leafOf (items ++ items'), none), ?_, ?_⟩
    · simp [appendItems, leafOf, SumTree.items, SumTree.childSummaries, SumTree.summary, hsplit]
    · refine ⟨balanced_zero.mpr ⟨_, rfl, by omega⟩, .inl ?_, by simp, by simp⟩
      rw [size_leafOf, hlen]
      omega

theorem appendChildren_spec {summary : σ} (hne : trees ≠ [])
    (h : Children treeBase leafMin height trees) (h' : Children treeBase leafMin height trees')
    (hcount : trees.length ≤ 2 * treeBase) (hcount' : trees'.length ≤ 2 * treeBase) (hbase : 0 < treeBase)
    (hsummary : summary = ((trees ++ trees').map SumTree.summary).sum) :
    Pushed treeBase leafMin (height + 1) trees.length ((trees ++ trees').flatMap SumTree.toList)
      (appendChildren treeBase (height + 1) summary (trees.map SumTree.summary) trees
        (trees'.map SumTree.summary) trees') := by
  have hlen : (trees ++ trees').length = trees.length + trees'.length := List.length_append
  have hall : Children treeBase leafMin height (trees ++ trees') := h.append h'
  have hmap : trees.map SumTree.summary ++ trees'.map SumTree.summary = (trees ++ trees').map SumTree.summary :=
    List.map_append.symm
  by_cases hsplit : trees.length + trees'.length > 2 * treeBase
  · obtain ⟨hleft, hleft', hright, hright'⟩ := midpoint_bounds hsplit (by omega)
    have hpair : appendChildren treeBase (height + 1) summary (trees.map SumTree.summary) trees
        (trees'.map SumTree.summary) trees' =
        (nodeOf (height + 1) ((trees ++ trees').take (midpoint (trees.length + trees'.length))),
          some (nodeOf (height + 1) ((trees ++ trees').drop (midpoint (trees.length + trees'.length))))) := by
      simp only [appendChildren, nodeOf, if_pos hsplit, hmap, List.map_take, List.map_drop, sum_eq]
    have htake : ((trees ++ trees').take (midpoint (trees.length + trees'.length))).length =
        midpoint (trees.length + trees'.length) := by
      rw [List.length_take, hlen]
      omega
    have hdrop : ((trees ++ trees').drop (midpoint (trees.length + trees'.length))).length =
        trees.length + trees'.length - midpoint (trees.length + trees'.length) := by
      rw [List.length_drop, hlen]
    rw [hpair]
    refine ⟨balanced_succ.mpr ⟨_, rfl, List.ne_nil_of_length_pos (by omega), htake.trans_le hleft',
      hall.sublist (List.take_sublist _ _)⟩, .inr (hleft.trans_eq htake.symm), ?_, ?_⟩
    · intro splitTree heq
      cases heq
      exact ⟨balanced_succ.mpr ⟨_, rfl, List.ne_nil_of_length_pos (by omega), hdrop.trans_le hright',
        hall.sublist (List.drop_sublist _ _)⟩, hright.trans_eq hdrop.symm, hleft.trans_eq htake.symm⟩
    · simp only [toList_nodeOf, Option.toList_some, List.flatMap_singleton, ← List.flatMap_append,
        List.take_append_drop]
  · have hpair : appendChildren treeBase (height + 1) summary (trees.map SumTree.summary) trees
        (trees'.map SumTree.summary) trees' = (nodeOf (height + 1) (trees ++ trees'), none) := by
      simp only [appendChildren, nodeOf, if_neg hsplit, hmap, hsummary]
    rw [hpair]
    refine ⟨balanced_succ.mpr ⟨_, rfl, by simp [hne], by omega, hall⟩, .inl ?_, by simp, by simp⟩
    rw [size_nodeOf, hlen]
    omega

omit [Item α σ] in
theorem pushTreeToLast_append (trees : List (SumTree α σ)) :
    pushTreeToLast treeBase other (trees ++ [tree]) =
      (pushTreeRecursive treeBase other tree).map fun pushed => (trees ++ [pushed.1], pushed.2) := by
  induction trees with
  | nil => rfl
  | cons t trees ih =>
    cases trees with
    | nil =>
      rw [List.singleton_append, pushTreeToLast, pushTreeToLast]
      cases pushTreeRecursive treeBase other tree <;> rfl
    | cons t' trees =>
      rw [List.cons_append, List.cons_append, pushTreeToLast, ← List.cons_append, ih]
      cases pushTreeRecursive treeBase other tree <;> rfl

omit [Item α σ] in
theorem appendSplit_append (trees : List (SumTree α σ)) (summary : σ)
    (pushed : SumTree α σ × Option (SumTree α σ)) :
    appendSplit treeBase height summary ((trees ++ [tree]).map SumTree.summary) (trees ++ [pushed.1], pushed.2) =
      some (appendChildren treeBase height summary ((trees ++ [pushed.1]).map SumTree.summary)
        (trees ++ [pushed.1]) (pushed.2.toList.map SumTree.summary) pushed.2.toList) := by
  simp [appendSplit, setLast]

end InfiniShell.SumTree
