import InfiniShell.SumTree.Partition

namespace InfiniShell.SumTree

variable {α σ S U : Type}

/-- A predicate that holds of a sum exactly when it holds of a summand. -/
def Splits [Add σ] (filterNode : σ → Bool) : Prop := ∀ a b, filterNode (a + b) = (filterNode a || filterNode b)

/-- The cursor of a `FilterCursor` seeks along no dimension. -/
structure FilterCursor (α σ U : Type) where
  cursor : Cursor α σ Unit U
  filterNode : σ → Bool

namespace FilterCursor

variable [Dimension σ U]

def new (tree : SumTree α σ) (filterNode : σ → Bool) : Option (FilterCursor α σ U) :=
  if filterNode tree.summary then
    (Cursor.descendToFirstItem filterNode (Cursor.new tree) tree).map fun c => ⟨c, filterNode⟩
  else some ⟨{ (Cursor.new tree) with didSeek := true, atEnd := true }, filterNode⟩

def start (c : FilterCursor α σ U) : U := c.cursor.sumDimension

def item (c : FilterCursor α σ U) : Option (Option α) := c.cursor.item

def next (c : FilterCursor α σ U) : Option (FilterCursor α σ U) :=
  (c.cursor.nextInternal c.filterNode).map fun cursor => { c with cursor := cursor }

/-- The items that an iteration yields, each with `start()` at it; `none` also when
more than `fuel` steps are needed. -/
def iterate (fuel : Nat) (c : FilterCursor α σ U) : Option (List (α × U)) :=
  match fuel with
  | 0 => none
  | fuel + 1 => c.item.bind fun
    | none => some []
    | some item => c.next.bind fun c' => (iterate fuel c').map ((item, c.start) :: ·)

end FilterCursor

section Match

variable [Item α σ] {filterNode : σ → Bool} {items l post : List α}

/-- The items that match, each with the dimension summed over all items before it. -/
def matching [Dimension σ U] (filterNode : σ → Bool) (d : U) : List α → List (α × U)
  | [] => []
  | x :: items =>
    if filterNode (Item.summary x) then (x, d) :: matching filterNode (addItem d x) items
    else matching filterNode (addItem d x) items

theorem matching_fst [Dimension σ U] (d : U) (items : List α) :
    (matching filterNode d items).map Prod.fst = items.filter fun x => filterNode (Item.summary x) := by
  induction items generalizing d with
  | nil => rfl
  | cons x items ih =>
    rw [matching, List.filter_cons]
    split
    · rw [List.map_cons, ih]
    · exact ih _

def NoMatch (filterNode : σ → Bool) (items : List α) : Prop := ∀ x ∈ items, filterNode (Item.summary x) = false

theorem matching_append [Dimension σ U] {d : U} (h : NoMatch filterNode l) :
    matching filterNode d (l ++ items) = matching filterNode (measure d l) items := by
  induction l generalizing d with
  | nil => rfl
  | cons x l ih =>
    have hx : ¬filterNode (Item.summary x) = true := Bool.eq_false_iff.mp (h x List.mem_cons_self)
    rw [List.cons_append, matching, if_neg hx, measure_cons]
    exact ih fun y hy => h y (List.mem_cons_of_mem _ hy)

theorem matching_noMatch [Dimension σ U] {d : U} (h : NoMatch filterNode items) : matching filterNode d items = [] := by
  have happend : matching filterNode d (items ++ []) = matching filterNode (measure d items) [] := matching_append h
  rwa [List.append_nil] at happend

theorem firstMatch (filterNode : σ → Bool) (items : List α) :
    NoMatch filterNode items ∨ ∃ l x r, items = l ++ x :: r ∧ NoMatch filterNode l ∧
      filterNode (Item.summary x) = true := by
  induction items with
  | nil => exact .inl nofun
  | cons x items ih =>
    by_cases hx : filterNode (Item.summary x) = true
    · exact .inr ⟨[], x, items, rfl, nofun, hx⟩
    · have hx' : filterNode (Item.summary x) = false := Bool.eq_false_iff.mpr hx
      cases ih with
      | inl hnone => exact .inl (List.forall_mem_cons.mpr ⟨hx', hnone⟩)
      | inr hfirst =>
        obtain ⟨l, y, r, hitems, hl, hy⟩ := hfirst
        exact .inr ⟨x :: l, y, r, by rw [hitems]; rfl, List.forall_mem_cons.mpr ⟨hx', hl⟩, hy⟩

variable [AddMonoid σ]

theorem filterNode_itemsSummary (hsplits : Splits filterNode) (hne : items ≠ []) :
    filterNode (itemsSummary items) = items.any fun x => filterNode (Item.summary x) := by
  induction items with
  | nil => exact absurd rfl hne
  | cons x items ih =>
    rw [itemsSummary_cons, List.any_cons]
    cases items with
    | nil => rw [itemsSummary_nil, add_zero, List.any_nil, Bool.or_false]
    | cons y items => rw [hsplits, ih (List.cons_ne_nil _ _)]

variable {treeBase leafMin height : Nat} {tree : SumTree α σ}

section

variable (h : Balanced treeBase leafMin height tree)
include h

theorem Balanced.filterNode_summary (hsplits : Splits filterNode)
    (hne : tree.toList ≠ []) : filterNode tree.summary = tree.toList.any fun x => filterNode (Item.summary x) := by
  rw [h.summary_eq, filterNode_itemsSummary hsplits hne]

theorem Balanced.noMatch (hsplits : Splits filterNode)
    (hne : tree.toList ≠ []) (hnone : NoMatch filterNode tree.toList) : filterNode tree.summary = false := by
  rw [h.filterNode_summary hsplits hne, List.any_eq_false]
  exact fun x hx => Bool.eq_false_iff.mp (hnone x hx)

theorem Balanced.matches (hsplits : Splits filterNode) {x : α}
    (hmem : x ∈ tree.toList) (hx : filterNode (Item.summary x) = true) : filterNode tree.summary = true := by
  rw [h.filterNode_summary hsplits (List.ne_nil_of_mem hmem), List.any_eq_true]
  exact ⟨x, hmem, hx⟩

end

omit [AddMonoid σ] [Item α σ] in
theorem flatMap_split {trees : List (SumTree α σ)} {l r : List α} {x : α} (h : trees.flatMap toList = l ++ x :: r) :
    ∃ left t right l' r', trees = left ++ t :: right ∧ l = left.flatMap toList ++ l' ∧
      t.toList = l' ++ x :: r' ∧ r = r' ++ right.flatMap toList := by
  induction trees generalizing l with
  | nil => exact absurd h.symm (by simp)
  | cons t trees ih =>
    rw [List.flatMap_cons, List.append_eq_append_iff] at h
    obtain ⟨m, hl, hrest⟩ | ⟨m, ht, hrest⟩ := h
    · obtain ⟨left, t', right, l', r', htrees, hm, ht', hr⟩ := ih hrest
      exact ⟨t :: left, t', right, l', r', by rw [htrees]; rfl, by rw [hl, hm, List.flatMap_cons, List.append_assoc], ht',
        hr⟩
    · cases m with
      | nil =>
        obtain ⟨left, t', right, l', r', htrees, hm, ht', hr⟩ := ih (l := []) hrest.symm
        obtain ⟨hleft, rfl⟩ := List.append_eq_nil_iff.mp hm.symm
        refine ⟨t :: left, t', right, [], r', by rw [htrees]; rfl, ?_, ht', hr⟩
        rw [List.flatMap_cons, hleft, ht]
        simp
      | cons y m =>
        obtain ⟨rfl, hr⟩ := List.cons.inj hrest
        exact ⟨[], t, trees, l, m, rfl, rfl, ht, hr⟩

end Match

namespace Cursor

variable [AddMonoid σ] [Item α σ] [Dimension σ S] [Dimension σ U] [ExactDimension σ S] [ExactDimension σ U]
variable {treeBase leafMin height : Nat} {root tree : SumTree α σ} {before after pre post l r : List α}
variable {filterNode : σ → Bool} {c : Cursor α σ S U} {x : α}

omit [AddMonoid σ] [ExactDimension σ S] [ExactDimension σ U] in
theorem firstItem_spec (hl : NoMatch filterNode l) (hx : filterNode (Item.summary x) = true) (c : Cursor α σ S U)
    (tree : SumTree α σ) (index : Nat) :
    firstItem filterNode c tree index ((l ++ x :: r).map Item.summary) = (c.pass l).enter tree (index + l.length) := by
  induction l generalizing c index with
  | nil => rw [List.nil_append, List.map_cons, firstItem, if_pos hx, pass_nil, List.length_nil, Nat.add_zero]
  | cons y l ih =>
    have hy : ¬filterNode (Item.summary y) = true := Bool.eq_false_iff.mp (hl y List.mem_cons_self)
    rw [List.cons_append, List.map_cons, firstItem, if_neg hy, advance_item,
      ih fun z hz => hl z (List.mem_cons_of_mem _ hz), pass_pass, List.length_cons]
    congr 1
    omega

variable {left right : List (SumTree α σ)}

theorem descendToFirstChild_spec (hpos : 0 < leafMin) (hbase : 0 < treeBase) (hsplits : Splits filterNode) (hchildren : Children treeBase leafMin height (left ++ tree :: right))
    (hleft : NoMatch filterNode (left.flatMap toList)) (htree : filterNode tree.summary = true) (c : Cursor α σ S U)
    (parent : SumTree α σ) (index : Nat) :
    descendToFirstChild filterNode c parent index ((left ++ tree :: right).map SumTree.summary) (left ++ tree :: right) =
      ((c.pass (left.flatMap toList)).enter parent (index + left.length)).bind fun c =>
        descendToFirstItem filterNode c tree := by
  induction left generalizing c index with
  | nil =>
    rw [List.nil_append, List.map_cons, descendToFirstChild, if_pos htree]
    rfl
  | cons t left ih =>
    have hne : t.toList ≠ [] := hchildren.ne_nil hpos hbase (by simp)
    have hbalanced := (hchildren t (by simp)).1
    have hnone : NoMatch filterNode t.toList := fun y hy => hleft y (by simp [hy])
    have hsummary : ¬filterNode t.summary = true := Bool.eq_false_iff.mp (hbalanced.noMatch hsplits hne hnone)
    rw [List.cons_append, List.map_cons, descendToFirstChild, if_neg hsummary, c.advance_tree hbalanced hne,
      ih (hchildren.sublist (by simp)) fun y hy => hleft y (by rw [List.flatMap_cons]; exact List.mem_append_right _ hy),
      pass_pass, List.flatMap_cons, List.length_cons]
    congr 2
    omega

theorem descendToFirstMatch (hpos : 0 < leafMin) (hbase : 0 < treeBase) (hsplits : Splits filterNode)
    (h : Balanced treeBase leafMin height tree) (hitems : tree.toList = l ++ x :: r) (hl : NoMatch filterNode l)
    (hx : filterNode (Item.summary x) = true) (c : Cursor α σ S U) (hleads : Leads root c.stack tree before after)
    (hroom : height + c.stack.length < 16) :
    ∃ stack, descendToFirstItem filterNode c tree = some ((c.pass l).withStack stack) ∧
      At root stack (before ++ l) (x :: r ++ after) := by
  induction height generalizing tree c before after l r with
  | zero =>
    obtain ⟨items, rfl, -⟩ := balanced_zero.mp h
    rw [toList_leafOf] at hitems
    subst hitems
    refine ⟨⟨leafOf (l ++ x :: r), l.length, measure c.seekDimension l, measure c.sumDimension l⟩ :: c.stack, ?_, ?_⟩
    · rw [descendToFirstItem_leafOf, firstItem_spec hl hx, enter_eq (by simp only [pass_stack]; omega), Nat.zero_add]
      rfl
    · exact At.item (e := ⟨leafOf (l ++ x :: r), l.length, measure c.seekDimension l, measure c.sumDimension l⟩) hleads
        rfl rfl
  | succ height ih =>
    obtain ⟨trees, rfl, hnil, hlen, hchildren⟩ := balanced_succ.mp h
    rw [toList_nodeOf] at hitems
    obtain ⟨left, child, right, l', r', rfl, rfl, hchild, rfl⟩ := flatMap_split hitems
    have hleft : NoMatch filterNode (left.flatMap toList) := fun y hy => hl y (List.mem_append_left _ hy)
    have hl' : NoMatch filterNode l' := fun y hy => hl y (List.mem_append_right _ hy)
    have hbalanced := (hchildren child (by simp)).1
    have hmatches := hbalanced.matches hsplits (by rw [hchild]; simp) hx
    let c' := ({ c with didSeek := true }.pass (left.flatMap toList)).entered
      (nodeOf (height + 1) (left ++ child :: right)) left.length
    have hchild' : Leads root c'.stack child (before ++ left.flatMap toList) (right.flatMap toList ++ after) :=
      Leads.child hleads rfl rfl
    obtain ⟨stack, hstack, hat⟩ := ih hbalanced hchild hl' c' hchild'
      (by simp only [c', entered_stack, pass_stack, List.length_cons]; omega)
    refine ⟨stack, ?_, ?_⟩
    · rw [descendToFirstItem_nodeOf, descendToFirstChild_spec hpos hbase hsplits hchildren hleft hmatches,
        enter_eq (by simp only [pass_stack]; omega), Option.bind_some, Nat.zero_add, ← pass_pass]
      exact hstack
    · have hsame : x :: (r' ++ right.flatMap toList) ++ after = x :: r' ++ (right.flatMap toList ++ after) := by simp
      rw [← List.append_assoc, hsame]
      exact hat

theorem nextChild_spec (hpos : 0 < leafMin) (hbase : 0 < treeBase) (hsplits : Splits filterNode)
    (child : SumTree α σ) {skipped right : List (SumTree α σ)} (hchildren : Children treeBase leafMin height (skipped ++ right))
    (hskipped : NoMatch filterNode (skipped.flatMap toList))
    (hright : ∀ sibling ∈ right.head?, filterNode sibling.summary = true) (c : Cursor α σ S U) (entry : StackEntry α σ S U) :
    ∃ entry', nextChild filterNode c entry ((child :: (skipped ++ right)).map SumTree.summary) =
        (c.pass (skipped.flatMap toList), entry') ∧
      entry'.tree = entry.tree ∧ entry'.index = entry.index + 1 + skipped.length := by
  induction skipped generalizing child c entry with
  | nil =>
    cases right with
    | nil => exact ⟨entry.advance child.summary, rfl, rfl, rfl⟩
    | cons sibling right =>
      have hsibling := hright sibling rfl
      refine ⟨entry.advance child.summary, ?_, rfl, rfl⟩
      rw [List.nil_append, List.map_cons, List.map_cons, nextChild, if_pos hsibling]
      rfl
  | cons t skipped ih =>
    have hne : t.toList ≠ [] := hchildren.ne_nil hpos hbase (by simp)
    have hbalanced := (hchildren t (by simp)).1
    have hnone : NoMatch filterNode t.toList := fun y hy => hskipped y (by simp [hy])
    have hsummary : ¬filterNode t.summary = true := Bool.eq_false_iff.mp (hbalanced.noMatch hsplits hne hnone)
    obtain ⟨entry', hnext, htree, hindex⟩ := ih t (hchildren.sublist (by simp))
      (fun y hy => hskipped y (by rw [List.flatMap_cons]; exact List.mem_append_right _ hy)) (c.pass t.toList)
      (entry.advance child.summary)
    refine ⟨entry', ?_, htree, ?_⟩
    · rw [List.cons_append, List.map_cons, List.map_cons, nextChild, if_neg hsummary, c.advance_tree hbalanced hne,
        ← List.map_cons, hnext, pass_pass, List.flatMap_cons]
    · rw [hindex, List.length_cons]
      show entry.index + 1 + 1 + skipped.length = _
      omega

omit [AddMonoid σ] [ExactDimension σ S] [ExactDimension σ U] in
theorem nextItem_spec {skipped right : List α} (hskipped : NoMatch filterNode skipped)
    (hright : ∀ y ∈ right.head?, filterNode (Item.summary y) = true) (c : Cursor α σ S U) (entry : StackEntry α σ S U) :
    ∃ entry', nextItem filterNode c entry ((x :: (skipped ++ right)).map Item.summary) =
        some (c.pass (x :: skipped), entry', !right.isEmpty) ∧
      entry'.tree = entry.tree ∧ entry'.index = entry.index + 1 + skipped.length := by
  induction skipped generalizing x c entry with
  | nil =>
    cases right with
    | nil => exact ⟨entry.advance (Item.summary x), rfl, rfl, rfl⟩
    | cons y right =>
      have hy := hright y rfl
      refine ⟨entry.advance (Item.summary x), ?_, rfl, rfl⟩
      rw [List.nil_append, List.map_cons, List.map_cons, nextItem, if_pos hy]
      rfl
  | cons y skipped ih =>
    have hy : ¬filterNode (Item.summary y) = true := Bool.eq_false_iff.mp (hskipped y List.mem_cons_self)
    obtain ⟨entry', hnext, htree, hindex⟩ := ih (x := y) (fun z hz => hskipped z (List.mem_cons_of_mem _ hz))
      (c.pass [x]) (entry.advance (Item.summary x))
    refine ⟨entry', ?_, htree, ?_⟩
    · rw [List.cons_append, List.map_cons, List.map_cons, nextItem, if_neg hy, advance_item, ← List.map_cons, hnext,
        pass_pass]
      rfl
    · rw [hindex, List.length_cons]
      show entry.index + 1 + 1 + skipped.length = _
      omega

theorem siblings_cases (hsplits : Splits filterNode) (hchildren : Children treeBase leafMin height right) :
    NoMatch filterNode (right.flatMap toList) ∨ ∃ skipped sibling rest l x r, right = skipped ++ sibling :: rest ∧
      NoMatch filterNode (skipped.flatMap toList) ∧ filterNode sibling.summary = true ∧ sibling.toList = l ++ x :: r ∧
      NoMatch filterNode l ∧ filterNode (Item.summary x) = true := by
  obtain hnone | ⟨l, x, r, hitems, hl, hx⟩ := firstMatch filterNode (right.flatMap toList)
  · exact .inl hnone
  · obtain ⟨skipped, sibling, rest, l', r', hright, rfl, hsibling, -⟩ := flatMap_split hitems
    refine .inr ⟨skipped, sibling, rest, l', x, r', hright, fun y hy => hl y (List.mem_append_left _ hy), ?_, hsibling,
      fun y hy => hl y (List.mem_append_right _ hy), hx⟩
    have hbalanced := (hchildren sibling (by simp [hright])).1
    exact hbalanced.matches hsplits (by rw [hsibling]; simp) hx

/-- Where a cursor goes that looks for the next matching item among `after`. -/
structure FindsNext (filterNode : σ → Bool) (root : SumTree α σ) (c : Cursor α σ S U) (pre after : List α)
    (result : Option (Cursor α σ S U)) (l post : List α) (stack : List (StackEntry α σ S U)) : Prop where
  items : after = l ++ post
  skipped : NoMatch filterNode l
  found : ∀ x ∈ post.head?, filterNode (Item.summary x) = true
  result : result = some ((c.pass l).landed stack)
  lands : Lands root stack (pre ++ l) post

omit [Item α σ] [ExactDimension σ S] [ExactDimension σ U] in
theorem nextFrom_nodeOf {entry entry' : StackEntry α σ S U} {rest : List (StackEntry α σ S U)} {c' : Cursor α σ S U} {child : SumTree α σ} (hnode : entry.tree = nodeOf height (left ++ child :: right))
    (hindex : entry.index = left.length)
    (hnext : nextChild filterNode c entry ((child :: right).map SumTree.summary) = (c', entry')) :
    nextFrom filterNode c (entry :: rest) = match (left ++ child :: right)[entry'.index]? with
      | some subtree => (descendToFirstItem filterNode { c' with stack := entry' :: rest } subtree).map fun c =>
          { c with atEnd := c.stack.isEmpty }
      | none => nextFrom filterNode c' rest := by
  have hdrop : ((left ++ child :: right).map SumTree.summary).drop entry.index = (child :: right).map SumTree.summary := by
    rw [hindex, ← List.map_drop, List.drop_left]
  rw [nextFrom, hnode, nodeOf]
  simp only [hdrop, hnext] <;> cases (left ++ child :: right)[entry'.index]? <;> rfl

variable {stack : List (StackEntry α σ S U)}

theorem nextFrom_leads_match (hpos : 0 < leafMin) (hbase : 0 < treeBase) (hsplits : Splits filterNode)
    (hroot : Balanced treeBase leafMin height root) (hheight : height < 16) (hseek : c.didSeek = true) (h : Leads root stack tree before after) :
    ∃ l post stack', FindsNext filterNode root c (before ++ tree.toList) after (nextFrom filterNode c stack) l post stack' := by
  induction h generalizing c with
  | root => exact ⟨[], [], [], rfl, nofun, nofun, rfl, .inl ⟨rfl, rfl⟩⟩
  | @child rest entry level left child right before after hleads hnode hindex ih =>
    obtain ⟨level', hchildren, hlevel⟩ := hleads.children hroot hnode
    have hright : Children treeBase leafMin level' right := hchildren.sublist (by simp)
    have hall : entry.tree.toList = left.flatMap toList ++ child.toList ++ right.flatMap toList := by
      rw [hnode, toList_nodeOf]
      simp
    cases siblings_cases hsplits hright with
    | inl hnone =>
      have hchildren' : Children treeBase leafMin level' (right ++ []) := by rwa [List.append_nil]
      obtain ⟨entry', hnext, -, hindex'⟩ := nextChild_spec hpos hbase hsplits child hchildren' hnone nofun c entry
      rw [List.append_nil] at hnext
      have hpast : (left ++ child :: right)[entry'.index]? = none := by
        rw [List.getElem?_eq_none_iff, hindex', hindex]
        simp only [List.length_append, List.length_cons]
        omega
      obtain ⟨l, post, stack', hitems, hskipped, hfound, hresult, hlands⟩ := ih (c := c.pass (right.flatMap toList)) hseek
      refine ⟨right.flatMap toList ++ l, post, stack', by rw [hitems, List.append_assoc], ?_, hfound, ?_, ?_⟩
      · intro y hy
        exact (List.mem_append.mp hy).elim (hnone y) (hskipped y)
      · rw [nextFrom_nodeOf hnode hindex hnext, hpast]
        rw [← pass_pass]
        exact hresult
      · rw [hall] at hlands
        simpa using hlands
    | inr hmatch =>
      obtain ⟨skipped, sibling, others, l, x, r, rfl, hskipped, hsibling, hitems, hl, hx⟩ := hmatch
      obtain ⟨entry', hnext, htree, hindex'⟩ := nextChild_spec hpos hbase hsplits child hright hskipped
        (fun t ht => by rw [← Option.some.inj ht]; exact hsibling) c entry
      have hsub : (left ++ child :: (skipped ++ sibling :: others))[entry'.index]? = some sibling := by
        have hsame : left ++ child :: (skipped ++ sibling :: others) = (left ++ child :: skipped) ++ sibling :: others := by
          simp
        have hlength : entry'.index = (left ++ child :: skipped).length := by
          rw [hindex', hindex]
          simp only [List.length_append, List.length_cons]
          omega
        rw [hsame, hlength, List.getElem?_append_right (Nat.le_refl _), Nat.sub_self]
        rfl
      have hnode' : entry'.tree = nodeOf level ((left ++ child :: skipped) ++ sibling :: others) := by
        rw [htree, hnode]
        simp
      have hleads' := Leads.child (e := entry') (htree ▸ hleads) hnode' (by rw [hindex', hindex]; simp; omega)
      obtain ⟨stack', hstack, hat⟩ := descendToFirstMatch hpos hbase hsplits (hright sibling (by simp)).1 hitems hl hx
        { c.pass (skipped.flatMap toList) with stack := entry' :: rest } hleads'
        (by simp only [List.length_cons]; omega)
      refine ⟨skipped.flatMap toList ++ l, x :: r ++ (others.flatMap toList ++ after), stack', ?_, ?_, ?_, ?_, .inr ?_⟩
      · rw [List.flatMap_append, List.flatMap_cons, hitems]
        simp
      · intro y hy
        exact (List.mem_append.mp hy).elim (hskipped y) (hl y)
      · rintro y ⟨⟩
        exact hx
      · rw [nextFrom_nodeOf hnode hindex hnext, hsub]
        dsimp only
        rw [hstack, ← pass_pass]
        simp [withStack, landed, hseek]
      · simpa using hat

theorem nextFrom_at_match (hpos : 0 < leafMin) (hbase : 0 < treeBase) (hsplits : Splits filterNode)
    (hroot : Balanced treeBase leafMin height root) (hheight : height < 16) (hseek : c.didSeek = true)
    (hend : c.atEnd = false) (h : At root stack pre (x :: post)) :
    ∃ l post' stack', FindsNext filterNode root (c.pass [x]) (pre ++ [x]) post (nextFrom filterNode c stack) l post' stack' := by
  generalize hpost : x :: post = items at h
  cases h with
  | @item rest entry left x' right before after hleads hleaf hindex =>
    obtain ⟨rfl, rfl⟩ := List.cons.inj hpost
    have hdrop : ((left ++ x :: right).map Item.summary).drop entry.index = ((x :: right).map Item.summary : List σ) := by
      rw [hindex, ← List.map_drop, List.drop_left]
    obtain hnone | ⟨l, y, r, rfl, hl, hy⟩ := firstMatch filterNode right
    · have hend : ∀ y ∈ ([] : List α).head?, filterNode (Item.summary y) = true := nofun
      obtain ⟨entry', hnext, -, -⟩ := nextItem_spec (x := x) hnone hend c entry
      rw [List.append_nil] at hnext
      obtain ⟨l, post', stack', hitems, hskipped, hfound, hresult, hlands⟩ :=
        nextFrom_leads_match hpos hbase hsplits hroot hheight (c := c.pass (x :: right)) hseek hleads
      refine ⟨right ++ l, post', stack', ?_, ?_, hfound, ?_, ?_⟩
      · rw [hitems]
        exact (List.append_assoc right l post').symm
      · intro z hz
        exact (List.mem_append.mp hz).elim (hnone z) (hskipped z)
      · rw [nextFrom, hleaf, leafOf]
        simp only [hdrop, hnext, Option.bind_some]
        rw [pass_pass, ← List.append_assoc, ← pass_pass]
        exact hresult
      · rw [hleaf, toList_leafOf] at hlands
        simpa using hlands
    · have hfirst : ∀ z ∈ (y :: r).head?, filterNode (Item.summary z) = true := fun z hz => by
        rw [← Option.some.inj hz]
        exact hy
      obtain ⟨entry', hnext, htree, hindex'⟩ := nextItem_spec (x := x) hl hfirst c entry
      refine ⟨l, y :: r ++ after, entry' :: rest, ?_, hl, ?_, ?_, .inr ?_⟩
      · simp
      · rintro z ⟨⟩
        exact hy
      · rw [nextFrom, hleaf, leafOf]
        simp only [hdrop, hnext, Option.bind_some]
        simp [landed, hend]
      · have hleaf' : entry'.tree = leafOf ((left ++ x :: l) ++ y :: r) := by
          rw [htree, hleaf]
          simp
        have hat := At.item (htree ▸ hleads) hleaf' (by rw [hindex', hindex]; simp; omega)
        simpa using hat

end Cursor

namespace FilterCursor

variable [AddMonoid σ] [Item α σ] [Dimension σ U] [ExactDimension σ U]
variable {treeBase leafMin height : Nat} {tree : SumTree α σ} {pre post : List α} {filterNode : σ → Bool}
variable {c : FilterCursor α σ U}

/-- A filter cursor of `tree` that has passed `pre` and stands at a matching item, the first of `post`, if
any item is left. -/
structure StandsAt (matchesSum : σ → Bool) (tree : SumTree α σ) (c : FilterCursor α σ U) (pre post : List α) : Prop where
  filterNode : c.filterNode = matchesSum
  didSeek : c.cursor.didSeek = true
  open_ : c.cursor.stack ≠ [] → c.cursor.atEnd = false
  start : c.start = measure (Dimension.default σ) pre
  lands : Cursor.Lands tree c.cursor.stack pre post
  found : ∀ x ∈ post.head?, matchesSum (Item.summary x) = true

omit [ExactDimension σ U] in
theorem StandsAt.item (h : StandsAt filterNode tree c pre post) : c.item = some post.head? := by
  obtain ⟨hstack, rfl⟩ | hat := h.lands
  · rw [FilterCursor.item, Cursor.item, if_pos h.didSeek, hstack]
    rfl
  · exact Cursor.item_at h.didSeek hat

section Runs

variable (hpos : 0 < leafMin) (hbase : 0 < treeBase) (hsplits : Splits filterNode)
  (htree : Balanced treeBase leafMin height tree) (hheight : height < 16)

include hpos hbase hsplits htree hheight

theorem StandsAt.next {x : α} (h : StandsAt filterNode tree c pre (x :: post)) :
    ∃ c' l post', c.next = some c' ∧ post = l ++ post' ∧ NoMatch filterNode l ∧
      StandsAt filterNode tree c' (pre ++ [x] ++ l) post' := by
  obtain ⟨-, hnil⟩ | hat := h.lands
  · exact absurd hnil (List.cons_ne_nil _ _)
  obtain ⟨l, post', stack', hitems, hskipped, hfound, hresult, hlands⟩ :=
    Cursor.nextFrom_at_match hpos hbase hsplits htree hheight h.didSeek (h.open_ hat.stack_ne_nil) hat
  refine ⟨{ c with cursor := ((c.cursor.pass [x]).pass l).landed stack' }, l, post', ?_, hitems, hskipped,
    h.filterNode, h.didSeek, ?_, ?_, hlands, hfound⟩
  · have hnext : c.cursor.nextInternal filterNode = some (((c.cursor.pass [x]).pass l).landed stack') := by
      rw [Cursor.nextInternal, if_pos h.didSeek, ← hresult]
      cases hentries : c.cursor.stack with
      | nil => exact absurd hentries hat.stack_ne_nil
      | cons entry rest => rfl
    rw [FilterCursor.next, h.filterNode, hnext]
    rfl
  · intro hne
    exact List.isEmpty_eq_false_iff.mpr hne
  · rw [measure_append, measure_append, ← h.start]
    rfl

theorem StandsAt.iterate (h : StandsAt filterNode tree c pre post) {fuel : Nat} (hfuel : post.length < fuel) :
    c.iterate fuel = some (matching filterNode c.start post) := by
  induction fuel generalizing c pre post with
  | zero => omega
  | succ fuel ih =>
    rw [FilterCursor.iterate, h.item, Option.bind_some]
    cases post with
    | nil => rfl
    | cons x post =>
      obtain ⟨c', l, post', hnext, rfl, hl, hstands⟩ := h.next hpos hbase hsplits htree hheight
      rw [List.length_cons, List.length_append] at hfuel
      have hrest := ih hstands (by omega)
      have hstart : c'.start = measure (addItem c.start x) l := by
        rw [hstands.start, h.start, measure_append, measure_append]
        rfl
      have hmatching : matching filterNode c.start (x :: (l ++ post')) = (x, c.start) :: matching filterNode c'.start post' := by
        rw [matching, if_pos (h.found x rfl), matching_append hl, hstart]
      show c.next.bind _ = _
      rw [hnext, Option.bind_some, hrest, hmatching]
      rfl

theorem new_standsAt : ∃ c : FilterCursor α σ U, FilterCursor.new tree filterNode = some c ∧
    ((c.item = some none ∧ NoMatch filterNode tree.toList) ∨
      ∃ l post, tree.toList = l ++ post ∧ NoMatch filterNode l ∧ StandsAt filterNode tree c l post) := by
  obtain hnone | ⟨l, x, r, hitems, hl, hx⟩ := firstMatch filterNode tree.toList
  · cases hmatches : filterNode tree.summary with
    | false =>
      exact ⟨_, by rw [FilterCursor.new, if_neg (Bool.eq_false_iff.mp hmatches)], .inl ⟨rfl, hnone⟩⟩
    | true =>
      have hempty : tree.toList = [] := by
        by_contra hne
        rw [htree.noMatch hsplits hne hnone] at hmatches
        exact absurd hmatches Bool.false_ne_true
      have hnew : tree = leafOf [] := htree.eq_empty_of_toList hpos hempty
      subst hnew
      exact ⟨_, by rw [FilterCursor.new, if_pos hmatches]; rfl, .inl ⟨rfl, hnone⟩⟩
  · have hmatches : filterNode tree.summary = true := htree.matches hsplits (by rw [hitems]; simp) hx
    obtain ⟨stack, hdescend, hat⟩ := Cursor.descendToFirstMatch hpos hbase hsplits htree hitems hl hx
      (Cursor.new tree : Cursor α σ Unit U) Leads.root (by simpa [Cursor.new] using hheight)
    refine ⟨⟨((Cursor.new tree).pass l).withStack stack, filterNode⟩,
      by rw [FilterCursor.new, if_pos hmatches, hdescend]; rfl, .inr ⟨l, x :: r, hitems, hl, rfl, rfl, fun _ => rfl,
        rfl, .inr ?_, ?_⟩⟩
    · rw [List.nil_append, List.append_nil] at hat
      exact hat
    · rintro y ⟨⟩
      exact hx

end Runs

/-- Iterating over the matching items of a tree that a cursor has room for is filtering the list of its items. -/
theorem filter_yields_matching (hsplits : Splits filterNode) (hbase : 2 ≤ treeBase) (htree : Balanced treeBase 1 tree.height tree)
    (hheight : tree.height < 16) :
    ∃ c : FilterCursor α σ U, FilterCursor.new tree filterNode = some c ∧
      ∀ fuel, tree.toList.length < fuel →
        ∃ yielded, c.iterate fuel = some yielded ∧ yielded = matching filterNode (Dimension.default σ) tree.toList ∧
          yielded.map Prod.fst = tree.toList.filter fun x => filterNode (Item.summary x) := by
  have hbase' : 0 < treeBase := by omega
  obtain ⟨c, hnew, ⟨hitem, hnone⟩ | ⟨l, post, hitems, hl, hstands⟩⟩ :=
    new_standsAt (U := U) Nat.one_pos hbase' hsplits htree hheight
  · refine ⟨c, hnew, fun fuel hfuel => ⟨_, ?_, rfl, matching_fst _ _⟩⟩
    cases fuel with
    | zero => omega
    | succ fuel =>
      rw [FilterCursor.iterate, hitem, matching_noMatch hnone]
      rfl
  · refine ⟨c, hnew, fun fuel hfuel => ⟨_, ?_, rfl, matching_fst _ _⟩⟩
    rw [hitems, List.length_append] at hfuel
    rw [hstands.iterate Nat.one_pos hbase' hsplits htree hheight (by omega), hstands.start, hitems, matching_append hl]

section Examples

/-- An even number counts for one and an odd one for none. -/
local instance : Item Nat Nat := ⟨fun n => if n % 2 = 0 then 1 else 0⟩

local instance : Dimension Nat Nat := ⟨0, (· + ·)⟩

local instance : ExactDimension Nat Nat := ⟨Nat.add_assoc⟩

theorem filter_yields_matching_sample :
    ∃ tree : SumTree Nat Nat, (Build.extend .new (List.range 13)).eval 6 = some tree ∧
      ∃ c : FilterCursor Nat Nat Nat, FilterCursor.new tree (fun n => 0 < n) = some c ∧
        c.iterate 20 = some [(0, 0), (2, 1), (4, 2), (6, 3), (8, 4), (10, 5), (12, 6)] := by
  have hmeets : (Build.extend .new (List.range 13) : Build Nat Nat).Meets 6 1 :=
    ⟨trivial, by unfold Fits; decide +kernel⟩
  obtain ⟨tree, heval, hbuilt⟩ := Build.eval_built (by decide) (by decide) (by decide) _ hmeets
  have hheight : ((Build.extend .new (List.range 13)).eval 6).all (fun t : SumTree Nat Nat => t.height < 16) = true := by
    decide +kernel
  rw [heval] at hheight
  have hitems : ((Build.extend .new (List.range 13)).eval 6).map (fun t : SumTree Nat Nat => t.toList) =
      some (List.range 13) := by
    decide +kernel
  rw [heval] at hitems
  have hsplits : Splits (fun n : Nat => decide (0 < n)) := fun a b => by
    rw [Bool.eq_iff_iff]
    simp only [decide_eq_true_eq, Bool.or_eq_true]
    omega
  obtain ⟨c, hnew, hiterate⟩ := filter_yields_matching (U := Nat) hsplits (by decide) hbuilt.balanced
    (by simpa using hheight)
  have hlist : tree.toList = List.range 13 := Option.some.inj hitems
  rw [hlist] at hiterate
  obtain ⟨yielded, hyielded, rfl, -⟩ := hiterate 20 (by decide)
  exact ⟨tree, heval, c, hnew, hyielded⟩

end Examples

section Tall

/-- Items that count as one each. -/
local instance : Item Nat Nat := ⟨fun _ => 1⟩

local instance : Dimension Nat Nat := ⟨0, (· + ·)⟩

/-- On a tall tree the seventeenth entry has no room on the stack. -/
theorem not_all_filtered :
    ¬∀ (tree : SumTree Nat Nat) (filterNode : Nat → Bool), Splits filterNode → Balanced 6 6 tree.height tree →
      ∃ c : FilterCursor Nat Nat Nat, FilterCursor.new tree filterNode = some c := by
  intro h
  obtain ⟨c, hnew⟩ := h (Cursor.fullTree 16) (fun _ => true) (fun _ _ => rfl) (Cursor.fullTree_balanced 16)
  have hnone : (FilterCursor.new (Cursor.fullTree 16) (fun _ => true) : Option (FilterCursor Nat Nat Nat)).isNone = true := by
    decide +kernel
  rw [hnew] at hnone
  exact absurd hnone Bool.false_ne_true

end Tall

end FilterCursor

end InfiniShell.SumTree
