import InfiniShell.SumTree.Push

namespace InfiniShell

/-- Adding summaries one by one is adding their sum. Nothing is asked of the zero: the last key seen is
such a dimension, too. -/
class ExactDimension (σ δ : Type) [AddMonoid σ] [Dimension σ δ] : Prop where
  addSummary_add : ∀ (d : δ) (a b : σ),
    Dimension.addSummary (Dimension.addSummary d a) b = Dimension.addSummary d (a + b)

instance (σ : Type) [AddMonoid σ] : ExactDimension σ Unit := ⟨fun _ _ _ => rfl⟩

namespace SumTree

section Measure

variable {α σ δ : Type} [Item α σ] [Dimension σ δ]

def addItem (d : δ) (item : α) : δ := Dimension.addSummary d (Item.summary item : σ)

/-- The sum of a dimension over these items, from `d` on. -/
def measure (d : δ) (items : List α) : δ := items.foldl addItem d

@[simp] theorem measure_nil (d : δ) : measure d ([] : List α) = d := rfl

@[simp] theorem measure_cons (d : δ) (item : α) (items : List α) :
    measure d (item :: items) = measure (addItem d item) items := rfl

@[simp] theorem measure_append (d : δ) (items items' : List α) :
    measure d (items ++ items') = measure (measure d items) items' := List.foldl_append

variable [AddMonoid σ] [ExactDimension σ δ]

theorem addSummary_itemsSummary (d : δ) {items : List α} (h : items ≠ []) :
    Dimension.addSummary d (itemsSummary items) = measure d items := by
  induction items generalizing d with
  | nil => exact absurd rfl h
  | cons item items ih =>
    cases items with
    | nil => rw [itemsSummary_cons, itemsSummary_nil, add_zero, measure_cons, measure_nil, addItem]
    | cons item' items =>
      rw [itemsSummary_cons, ← ExactDimension.addSummary_add, ih _ (by simp)]
      rfl

theorem Balanced.addSummary {treeBase leafMin height : Nat} {tree : SumTree α σ}
    (h : Balanced treeBase leafMin height tree) (hne : tree.toList ≠ []) (d : δ) :
    Dimension.addSummary d tree.summary = measure d tree.toList := by
  rw [h.summary_eq, addSummary_itemsSummary d hne]

end Measure

variable {α σ S U : Type} [AddMonoid σ] [Item α σ] {treeBase leafMin height : Nat}

/-- The entries, from the deepest one up, lead from the root to this subtree, past the items before it and
short of those after it. -/
inductive Leads (root : SumTree α σ) :
    List (StackEntry α σ S U) → SumTree α σ → List α → List α → Prop
  | root : Leads root [] root [] []
  | child {rest e height l tree r before after} (h : Leads root rest e.tree before after)
      (hnode : e.tree = nodeOf height (l ++ tree :: r)) (hindex : e.index = l.length) :
      Leads root (e :: rest) tree (before ++ l.flatMap toList) (r.flatMap toList ++ after)

/-- The stack stands at the first of the items `post`, behind the items `pre`. -/
inductive At (root : SumTree α σ) : List (StackEntry α σ S U) → List α → List α → Prop
  | item {rest e l x r before after} (h : Leads root rest e.tree before after)
      (hleaf : e.tree = leafOf (l ++ x :: r)) (hindex : e.index = l.length) :
      At root (e :: rest) (before ++ l) (x :: r ++ after)

section Leads

variable {root tree : SumTree α σ} {stack : List (StackEntry α σ S U)} {before after : List α}

section

variable (h : Leads root stack tree before after)
include h

omit [Item α σ] in
theorem Leads.toList : root.toList = before ++ tree.toList ++ after := by
  induction h with
  | root => simp
  | child _ hnode _ ih =>
    rw [ih, hnode]
    simp

theorem Leads.balanced (hroot : Balanced treeBase leafMin height root) :
    ∃ level, Balanced treeBase leafMin level tree ∧ level + stack.length = height := by
  induction h with
  | root => exact ⟨height, hroot, rfl⟩
  | child _ hnode _ ih =>
    obtain ⟨level, hbalanced, hlevel⟩ := ih
    rw [hnode] at hbalanced
    cases level with
    | zero => exact absurd hbalanced (by simp [nodeOf, Balanced])
    | succ level =>
      obtain ⟨trees, htrees, -, -, hchildren⟩ := balanced_succ.mp hbalanced
      obtain ⟨-, -, -, htrees⟩ := SumTree.internal.inj htrees
      refine ⟨level, (hchildren _ (htrees ▸ by simp)).1, ?_⟩
      rw [List.length_cons]
      omega

theorem Leads.children
    (hroot : Balanced treeBase leafMin height root) {level : Nat} {trees : List (SumTree α σ)}
    (hnode : tree = nodeOf level trees) :
    ∃ level, Children treeBase leafMin level trees ∧ level + 1 + stack.length = height := by
  obtain ⟨level', hbalanced, hlevel⟩ := h.balanced hroot
  rw [hnode] at hbalanced
  cases level' with
  | zero => exact absurd hbalanced (by simp [nodeOf, Balanced])
  | succ level' =>
    obtain ⟨trees', htrees, -, -, hchildren⟩ := balanced_succ.mp hbalanced
    obtain ⟨-, -, -, rfl⟩ := SumTree.internal.inj htrees
    exact ⟨level', hchildren, hlevel⟩

end

variable {pre post : List α}

theorem At.stack_ne_nil (h : At root stack pre post) : stack ≠ [] := by
  cases h with
  | item => exact List.cons_ne_nil _ _

theorem At.post_ne_nil (h : At root stack pre post) : post ≠ [] := by
  cases h with
  | item => exact List.cons_ne_nil _ _

theorem At.toList (h : At root stack pre post) : root.toList = pre ++ post := by
  cases h with
  | item h hleaf _ =>
    rw [h.toList, hleaf]
    simp

end Leads

namespace Cursor

variable [Dimension σ S] [Dimension σ U]

section Enter

omit [AddMonoid σ] [Item α σ] [Dimension σ S] [Dimension σ U]

def entered (c : Cursor α σ S U) (tree : SumTree α σ) (index : Nat) : Cursor α σ S U :=
  { c with stack := ⟨tree, index, c.seekDimension, c.sumDimension⟩ :: c.stack }

@[simp] theorem entered_stack (c : Cursor α σ S U) (tree : SumTree α σ) (index : Nat) :
    (c.entered tree index).stack = ⟨tree, index, c.seekDimension, c.sumDimension⟩ :: c.stack := rfl

theorem enter_eq {c : Cursor α σ S U} (h : c.stack.length < 16) (tree : SumTree α σ) (index : Nat) :
    c.enter tree index = some (c.entered tree index) := by
  rw [enter, if_pos h, entered]

def withStack (c : Cursor α σ S U) (stack : List (StackEntry α σ S U)) : Cursor α σ S U :=
  { c with stack := stack, didSeek := true }

end Enter

section Pass

omit [AddMonoid σ]

def pass (c : Cursor α σ S U) (items : List α) : Cursor α σ S U :=
  { c with seekDimension := measure c.seekDimension items, sumDimension := measure c.sumDimension items }

variable (c : Cursor α σ S U)
include c

@[simp] theorem pass_nil : c.pass [] = c := rfl

@[simp] theorem pass_pass (items items' : List α) :
    (c.pass items).pass items' = c.pass (items ++ items') := by
  simp [pass]

section

variable (items : List α)
include items

@[simp] theorem pass_tree : (c.pass items).tree = c.tree := rfl

@[simp] theorem pass_stack : (c.pass items).stack = c.stack := rfl

@[simp] theorem pass_didSeek : (c.pass items).didSeek = c.didSeek := rfl

@[simp] theorem pass_atEnd : (c.pass items).atEnd = c.atEnd := rfl

@[simp] theorem pass_seekDimension : (c.pass items).seekDimension = measure c.seekDimension items := rfl

@[simp] theorem pass_sumDimension : (c.pass items).sumDimension = measure c.sumDimension items := rfl

end

theorem advance_item (item : α) : c.advance (Item.summary item) = c.pass [item] := rfl

theorem advanceAll_items (items : List α) : c.advanceAll (items.map Item.summary) = c.pass items := by
  induction items generalizing c with
  | nil => rfl
  | cons item items ih =>
    have h := ih (c.pass [item])
    rwa [pass_pass] at h

end Pass

variable [ExactDimension σ S] [ExactDimension σ U] {tree : SumTree α σ}

theorem advance_tree (c : Cursor α σ S U) (h : Balanced treeBase leafMin height tree) (hne : tree.toList ≠ []) :
    c.advance tree.summary = c.pass tree.toList := by
  rw [advance, pass, h.addSummary hne, h.addSummary hne]

theorem advanceAll_trees (c : Cursor α σ S U) {trees : List (SumTree α σ)}
    (h : Children treeBase leafMin height trees) (hne : ∀ tree ∈ trees, tree.toList ≠ []) :
    c.advanceAll (trees.map SumTree.summary) = c.pass (trees.flatMap toList) := by
  induction trees generalizing c with
  | nil => rfl
  | cons tree trees ih =>
    rw [List.map_cons, advanceAll, List.foldl_cons, c.advance_tree (h tree (by simp)).1 (hne tree (by simp))]
    have hrest := ih (c.pass tree.toList) (h.sublist (by simp)) fun t ht => hne t (by simp [ht])
    rwa [pass_pass, ← List.flatMap_cons] at hrest

section Descend

omit [Item α σ] [ExactDimension σ S] [ExactDimension σ U]

theorem descendToFirstItem_nodeOf (filterNode : σ → Bool) (c : Cursor α σ S U) (trees : List (SumTree α σ)) :
    descendToFirstItem filterNode c (nodeOf height trees) =
      descendToFirstChild filterNode { c with didSeek := true } (nodeOf height trees) 0
        (trees.map SumTree.summary) trees := by
  rw [nodeOf, descendToFirstItem]

theorem descendToLastItem_nodeOf (c : Cursor α σ S U) (trees : List (SumTree α σ)) (hne : trees ≠ []) :
    descendToLastItem c (nodeOf height trees) =
      (({ c with didSeek := true }.advanceAll (trees.dropLast.map SumTree.summary)).enter (nodeOf height trees)
        (trees.length - 1)).bind fun c => descendToLastChild c trees := by
  rw [nodeOf, descendToLastItem, if_neg (by simpa using hne), List.map_dropLast]

omit [AddMonoid σ] in
theorem descendToLastChild_append (c : Cursor α σ S U) (trees : List (SumTree α σ)) :
    descendToLastChild c (trees ++ [tree]) = descendToLastItem c tree := by
  induction trees with
  | nil => rw [List.nil_append, descendToLastChild]
  | cons t trees ih =>
    cases trees with
    | nil => rw [List.singleton_append, descendToLastChild, descendToLastChild]
    | cons t' trees => rw [List.cons_append, List.cons_append, descendToLastChild, ← List.cons_append, ih]

variable [Item α σ]

theorem descendToFirstItem_leafOf (filterNode : σ → Bool) (c : Cursor α σ S U) (items : List α) :
    descendToFirstItem filterNode c (leafOf items) =
      firstItem filterNode { c with didSeek := true } (leafOf items) 0 (items.map Item.summary) := by
  rw [leafOf, descendToFirstItem]

theorem descendToLastItem_leafOf (c : Cursor α σ S U) (items : List α) :
    descendToLastItem c (leafOf items) =
      ({ c with didSeek := true }.advanceAll (items.dropLast.map Item.summary)).enter (leafOf items)
        (items.length - 1) := by
  rw [leafOf, descendToLastItem, List.length_map, List.map_dropLast]

end Descend

variable {root : SumTree α σ} {before after : List α}

omit [ExactDimension σ S] [ExactDimension σ U] in
theorem descendToFirstItem_spec (hpos : 0 < leafMin) (hbase : 0 < treeBase)
    (h : Balanced treeBase leafMin height tree) (hne : tree.toList ≠ []) (c : Cursor α σ S U)
    (hleads : Leads root c.stack tree before after) (hroom : height + c.stack.length < 16) :
    ∃ stack, descendToFirstItem (fun _ => true) c tree = some (c.withStack stack) ∧
      At root stack before (tree.toList ++ after) := by
  induction height generalizing tree c before after with
  | zero =>
    obtain ⟨items, rfl, -⟩ := balanced_zero.mp h
    cases items with
    | nil => exact absurd (toList_leafOf _) hne
    | cons item items =>
      refine ⟨⟨leafOf (item :: items), 0, c.seekDimension, c.sumDimension⟩ :: c.stack, ?_, ?_⟩
      · rw [descendToFirstItem_leafOf, List.map_cons, firstItem, if_pos rfl, enter_eq (by simp only; omega)]
        rfl
      · have hat := At.item (e := ⟨leafOf (item :: items), 0, c.seekDimension, c.sumDimension⟩)
          (l := []) hleads rfl rfl
        rwa [List.append_nil] at hat
  | succ height ih =>
    obtain ⟨trees, rfl, hnil, hlen, hchildren⟩ := balanced_succ.mp h
    cases trees with
    | nil => exact absurd rfl hnil
    | cons child trees =>
      have hchild := Leads.child
        (e := ⟨nodeOf (height + 1) (child :: trees), 0, c.seekDimension, c.sumDimension⟩) (l := [])
        hleads rfl rfl
      rw [List.flatMap_nil, List.append_nil] at hchild
      obtain ⟨stack, hstack, hat⟩ := ih (hchildren child (by simp)).1 (hchildren.ne_nil hpos hbase (by simp))
        ({ c with didSeek := true }.entered (nodeOf (height + 1) (child :: trees)) 0) hchild
        (by simp only [entered_stack, List.length_cons]; omega)
      refine ⟨stack, ?_, ?_⟩
      · rw [descendToFirstItem_nodeOf, List.map_cons, descendToFirstChild, if_pos rfl,
          enter_eq (by simp only; omega), Option.bind_some, hstack]
        rfl
      · rw [toList_nodeOf, List.flatMap_cons, List.append_assoc]
        exact hat

theorem descendToLastItem_spec (hpos : 0 < leafMin) (hbase : 0 < treeBase)
    (h : Balanced treeBase leafMin height tree) {items : List α} {item : α}
    (hitems : tree.toList = items ++ [item]) (c : Cursor α σ S U)
    (hleads : Leads root c.stack tree before after) (hroom : height + c.stack.length < 16) :
    ∃ stack, descendToLastItem c tree = some ((c.pass items).withStack stack) ∧
      At root stack (before ++ items) (item :: after) := by
  induction height generalizing tree c before after items with
  | zero =>
    obtain ⟨items', rfl, -⟩ := balanced_zero.mp h
    rw [toList_leafOf] at hitems
    rw [hitems] at hleads ⊢
    have hat := At.item (e := ⟨leafOf (items ++ [item]), items.length, measure c.seekDimension items,
      measure c.sumDimension items⟩) (r := []) hleads rfl rfl
    refine ⟨_, ?_, hat⟩
    rw [descendToLastItem_leafOf, List.dropLast_concat, advanceAll_items, enter_eq (by simp only [pass_stack]; omega),
      List.length_append]
    rfl
  | succ height ih =>
    obtain ⟨trees, rfl, hnil, hlen, hchildren⟩ := balanced_succ.mp h
    obtain ⟨left, child, htrees⟩ : ∃ left child, trees = left ++ [child] :=
      ⟨_, _, (List.dropLast_append_getLast hnil).symm⟩
    have hne : child.toList ≠ [] := hchildren.ne_nil hpos hbase (by simp [htrees])
    obtain ⟨inner, item', hinner⟩ : ∃ inner item', child.toList = inner ++ [item'] :=
      ⟨_, _, (List.dropLast_append_getLast hne).symm⟩
    have hsplit : left.flatMap SumTree.toList ++ inner = items ∧ item' = item := by
      rw [toList_nodeOf, htrees, List.flatMap_append, List.flatMap_singleton, hinner, ← List.append_assoc] at hitems
      have := List.append_inj' hitems rfl
      simpa using this
    obtain ⟨hpass, rfl⟩ := hsplit
    rw [htrees] at hleads hchildren ⊢
    have hleft : Children treeBase leafMin height left := hchildren.sublist (by simp)
    have hchild := Leads.child (e := ⟨nodeOf (height + 1) (left ++ [child]), left.length,
        measure c.seekDimension (left.flatMap SumTree.toList), measure c.sumDimension (left.flatMap SumTree.toList)⟩)
      (r := []) hleads rfl rfl
    obtain ⟨stack, hstack, hat⟩ := ih (hchildren child (by simp)).1 hinner
      (({ c with didSeek := true }.pass (left.flatMap SumTree.toList)).entered
        (nodeOf (height + 1) (left ++ [child])) left.length) hchild
      (by simp only [entered_stack, pass_stack, List.length_cons]; omega)
    refine ⟨stack, ?_, ?_⟩
    · rw [descendToLastItem_nodeOf _ _ (by simp), List.dropLast_concat,
        advanceAll_trees _ hleft fun t ht => hleft.ne_nil hpos hbase ht,
        enter_eq (by simp only [pass_stack]; omega), Option.bind_some, descendToLastChild_append,
        List.length_append, List.length_singleton, Nat.add_sub_cancel, hstack, ← hpass, ← pass_pass]
      rfl
    · rw [← hpass, ← List.append_assoc]
      exact hat

end Cursor

end SumTree

end InfiniShell
