import InfiniShell.SumTree.Position

namespace InfiniShell.SumTree

variable {α σ S U : Type} [AddMonoid σ] [Item α σ]
variable {treeBase leafMin height : Nat} {tree root : SumTree α σ} {before after pre post : List α}

section Last

omit [AddMonoid σ] [Item α σ] in
theorem rightmostLeafOf_append (trees : List (SumTree α σ)) :
    rightmostLeafOf (trees ++ [tree]) = rightmostLeaf tree := by
  induction trees with
  | nil => rw [List.nil_append, rightmostLeafOf]
  | cons t trees ih =>
    cases trees with
    | nil => rw [List.singleton_append, rightmostLeafOf, rightmostLeafOf]
    | cons t' trees => rw [List.cons_append, List.cons_append, rightmostLeafOf, ← List.cons_append, ih]

theorem rightmostLeaf_spec (hpos : 0 < leafMin) (hbase : 0 < treeBase)
    (h : Balanced treeBase leafMin height tree) :
    ∃ items, rightmostLeaf tree = some (leafOf items) ∧ items.getLast? = tree.toList.getLast? := by
  induction height generalizing tree with
  | zero =>
    obtain ⟨items, rfl, -⟩ := balanced_zero.mp h
    exact ⟨items, by rw [leafOf, rightmostLeaf], by rw [toList_leafOf]⟩
  | succ height ih =>
    obtain ⟨trees, rfl, hnil, -, hchildren⟩ := balanced_succ.mp h
    obtain ⟨left, child, rfl⟩ : ∃ left child, trees = left ++ [child] :=
      ⟨_, _, (List.dropLast_append_getLast hnil).symm⟩
    have hne : child.toList ≠ [] := hchildren.ne_nil hpos hbase (by simp)
    obtain ⟨items, hitems, hlast⟩ := ih (hchildren child (by simp)).1
    refine ⟨items, ?_, ?_⟩
    · rw [nodeOf, rightmostLeaf, rightmostLeafOf_append, hitems]
    · rw [toList_nodeOf, List.flatMap_append, List.flatMap_singleton, List.getLast?_append_of_ne_nil _ hne, hlast]

theorem last_spec (hpos : 0 < leafMin) (hbase : 0 < treeBase) (h : Balanced treeBase leafMin height tree) :
    last tree = some tree.toList.getLast? := by
  obtain ⟨items, hitems, hlast⟩ := rightmostLeaf_spec hpos hbase h
  rw [last, hitems, ← hlast]
  rfl

end Last

namespace Cursor

section Accessors

variable {c : Cursor α σ S U} {stack : List (StackEntry α σ S U)}

theorem item_at (hseek : c.didSeek = true) (h : At root c.stack pre post) : c.item = some post.head? := by
  cases hstack : c.stack with
  | nil =>
    rw [hstack] at h
    cases h
  | cons entry rest =>
    rw [hstack] at h
    cases h with
    | item hleads hleaf hindex =>
      rw [item, if_pos hseek, hstack]
      simp [hleaf, leafOf, hindex]

theorem itemSummary_at (hseek : c.didSeek = true) (h : At root c.stack pre post) :
    c.itemSummary = some (post.head?.map Item.summary) := by
  cases hstack : c.stack with
  | nil =>
    rw [hstack] at h
    cases h
  | cons entry rest =>
    rw [hstack] at h
    cases h with
    | item hleads hleaf hindex =>
      rw [itemSummary, if_pos hseek, hstack]
      simp [hleaf, leafOf, hindex]

theorem prevLeaf_spec (hpos : 0 < leafMin) (hbase : 0 < treeBase) (hroot : Balanced treeBase leafMin height root)
    (h : Leads root stack tree before after) :
    (before = [] ∧ prevLeaf stack = some none) ∨
      ∃ items, prevLeaf stack = some (some (leafOf items)) ∧ items ≠ [] ∧ items.getLast? = before.getLast? := by
  induction h with
  | root => exact .inl ⟨rfl, rfl⟩
  | @child rest entry level left child right before after hleads hnode hindex ih =>
    obtain ⟨level', hchildren, -⟩ := hleads.children hroot hnode
    rw [prevLeaf]
    cases left.eq_nil_or_concat' with
    | inl hnil =>
      rw [hnil] at hindex ⊢
      rw [if_neg (by simp [hindex]), List.flatMap_nil, List.append_nil]
      exact ih
    | inr hconcat =>
      obtain ⟨inner, sibling, rfl⟩ := hconcat
      have hne : sibling.toList ≠ [] := hchildren.ne_nil hpos hbase (by simp)
      obtain ⟨items, hitems, hlast⟩ := rightmostLeaf_spec hpos hbase (hchildren sibling (by simp)).1
      have hlast' : items.getLast? = (before ++ (inner ++ [sibling]).flatMap toList).getLast? := by
        rw [List.flatMap_append, List.flatMap_singleton, ← List.append_assoc,
          List.getLast?_append_of_ne_nil _ hne, hlast]
      refine .inr ⟨items, ?_, ?_, hlast'⟩
      · rw [if_pos (by simp [hindex])]
        simp [hnode, nodeOf, hindex, hitems]
      · intro hnil
        rw [hnil] at hlast
        exact hne (List.getLast?_eq_none_iff.mp hlast.symm)

theorem prevItem_at (hpos : 0 < leafMin) (hbase : 0 < treeBase) (hroot : Balanced treeBase leafMin height root)
    (hseek : c.didSeek = true) (h : At root c.stack pre post) : c.prevItem = some pre.getLast? := by
  cases hstack : c.stack with
  | nil =>
    rw [hstack] at h
    cases h
  | cons entry rest =>
    rw [hstack] at h
    rw [prevItem, if_pos hseek, hstack]
    cases h with
    | @item _ _ left x right before after hleads hleaf hindex =>
      cases left.eq_nil_or_concat' with
      | inl hnil =>
        rw [hnil] at hindex ⊢
        rw [List.append_nil]
        simp only [hindex, List.length_nil, if_pos]
        cases prevLeaf_spec hpos hbase hroot hleads with
        | inl hfirst => rw [hfirst.1, hfirst.2]; rfl
        | inr hleaf' =>
          obtain ⟨items, hprev, hne, hlast⟩ := hleaf'
          rw [hprev, ← hlast, Option.bind_some]
          simp [leafOf, SumTree.items, List.getLast?_eq_some_getLast hne]
      | inr hconcat =>
        obtain ⟨inner, y, rfl⟩ := hconcat
        simp [hindex, hleaf, leafOf]

end Accessors

variable [Dimension σ S] [Dimension σ U]

/-- The stack stands at the first of the items `post`, or is empty behind the last item. -/
def Lands (root : SumTree α σ) (stack : List (StackEntry α σ S U)) (pre post : List α) : Prop :=
  (stack = [] ∧ post = []) ∨ At root stack pre post

def landed (c : Cursor α σ S U) (stack : List (StackEntry α σ S U)) : Cursor α σ S U :=
  { c with stack := stack, atEnd := stack.isEmpty }

section Next

variable {c : Cursor α σ S U} {entry : StackEntry α σ S U} {rest : List (StackEntry α σ S U)}

omit [Item α σ] in
theorem nextFrom_lastChild {left : List (SumTree α σ)} (hnode : entry.tree = nodeOf height (left ++ [tree]))
    (hindex : entry.index = left.length) :
    nextFrom (fun _ => true) c (entry :: rest) = nextFrom (fun _ => true) c rest := by
  rw [nextFrom, hnode, nodeOf]
  simp [hindex, nextChild, StackEntry.advance]

omit [Item α σ] in
theorem nextFrom_nextChild {left right : List (SumTree α σ)} {sibling : SumTree α σ}
    (hnode : entry.tree = nodeOf height (left ++ tree :: sibling :: right)) (hindex : entry.index = left.length) :
    nextFrom (fun _ => true) c (entry :: rest) =
      (descendToFirstItem (fun _ => true) { c with stack := entry.advance tree.summary :: rest } sibling).map
        fun c => { c with atEnd := c.stack.isEmpty } := by
  rw [nextFrom, hnode, nodeOf]
  simp [hindex, nextChild, StackEntry.advance]

variable {stack : List (StackEntry α σ S U)}

theorem nextFrom_leads (hpos : 0 < leafMin) (hbase : 0 < treeBase) (hroot : Balanced treeBase leafMin height root)
    (hheight : height < 16) (hseek : c.didSeek = true)
    (h : Leads root stack tree before after) :
    ∃ stack', nextFrom (fun _ => true) c stack = some (c.landed stack') ∧
      Lands root stack' (before ++ tree.toList) after := by
  induction h with
  | root => exact ⟨[], rfl, .inl ⟨rfl, rfl⟩⟩
  | @child rest entry level left child right before after hleads hnode hindex ih =>
    cases right with
    | nil =>
      obtain ⟨stack', hstack, hlands⟩ := ih
      refine ⟨stack', by rw [nextFrom_lastChild hnode hindex, hstack], ?_⟩
      rw [hnode, toList_nodeOf] at hlands
      simpa using hlands
    | cons sibling right =>
      have hnode' : (entry.advance child.summary).tree = nodeOf level ((left ++ [child]) ++ sibling :: right) := by
        rw [List.append_assoc]
        exact hnode
      have hsibling := Leads.child (e := entry.advance child.summary) hleads hnode'
        (by simp [StackEntry.advance, hindex])
      obtain ⟨level', hchildren, hlevel⟩ := hleads.children hroot hnode
      obtain ⟨stack', hstack, hat⟩ := descendToFirstItem_spec hpos hbase (hchildren sibling (by simp)).1
        (hchildren.ne_nil hpos hbase (by simp)) { c with stack := entry.advance child.summary :: rest } hsibling
        (by simp only [List.length_cons]; omega)
      refine ⟨stack', ?_, .inr ?_⟩
      · rw [nextFrom_nextChild hnode hindex, hstack]
        simp [withStack, landed, hseek]
      · simpa using hat

theorem nextFrom_at (hpos : 0 < leafMin) (hbase : 0 < treeBase) (hroot : Balanced treeBase leafMin height root)
    (hheight : height < 16) (hseek : c.didSeek = true) (hend : c.atEnd = false) {x : α} (h : At root stack pre (x :: post)) :
    ∃ stack', nextFrom (fun _ => true) c stack = some ((c.pass [x]).landed stack') ∧
      Lands root stack' (pre ++ [x]) post := by
  generalize hpost : x :: post = items at h
  cases h with
  | @item rest entry left x' right before after hleads hleaf hindex =>
    obtain ⟨rfl, rfl⟩ := List.cons.inj hpost
    cases right with
    | nil =>
      obtain ⟨stack', hstack, hlands⟩ := nextFrom_leads hpos hbase hroot hheight (c := c.pass [x]) hseek hleads
      refine ⟨stack', ?_, ?_⟩
      · rw [← hstack, nextFrom, hleaf, leafOf]
        simp [hindex, nextItem, advance_item]
      · rw [hleaf, toList_leafOf, ← List.append_assoc] at hlands
        simpa using hlands
    | cons y right =>
      have hleaf' : (entry.advance (Item.summary x)).tree = leafOf ((left ++ [x]) ++ y :: right) := by
        rw [List.append_assoc]
        exact hleaf
      refine ⟨entry.advance (Item.summary x) :: rest, ?_, .inr ?_⟩
      · rw [nextFrom, hleaf, leafOf]
        simp [hindex, nextItem, advance_item, landed, hend]
      · rw [List.append_assoc]
        exact At.item hleads hleaf' (by simp [StackEntry.advance, hindex])

theorem next_at (hpos : 0 < leafMin) (hbase : 0 < treeBase) (hroot : Balanced treeBase leafMin height root)
    (hheight : height < 16) (hseek : c.didSeek = true) (hend : c.atEnd = false) {x : α}
    (h : At root c.stack pre (x :: post)) :
    ∃ stack', c.next = some ((c.pass [x]).landed stack') ∧ Lands root stack' (pre ++ [x]) post := by
  obtain ⟨stack', hstack, hlands⟩ := nextFrom_at hpos hbase hroot hheight hseek hend h
  refine ⟨stack', ?_, hlands⟩
  rw [next, nextInternal, if_pos hseek, ← hstack]
  cases hentries : c.stack with
  | nil => exact absurd hentries h.stack_ne_nil
  | cons entry rest => rfl

end Next

section Prev

variable {c : Cursor α σ S U} {entry : StackEntry α σ S U} {stack rest : List (StackEntry α σ S U)}

omit [AddMonoid σ] [Item α σ] [Dimension σ S] [Dimension σ U] in
def preceding : List (StackEntry α σ S U) → List α
  | [] => []
  | entry :: rest => preceding rest ++ ((entry.tree.childTrees.getD []).take entry.index).flatMap toList

/-- The dimensions stored on top of this stack, which `prev` restores, are those of the child the entry
points to. -/
def Current : List (StackEntry α σ S U) → Prop
  | [] => True
  | entry :: rest =>
    entry.seekDimension = measure (Dimension.default σ) (preceding (entry :: rest)) ∧
      entry.sumDimension = measure (Dimension.default σ) (preceding (entry :: rest))

def RestoresCurrent : List (StackEntry α σ S U) → Prop
  | [] => True
  | entry :: rest => if entry.index = 0 then RestoresCurrent rest else Current rest

instance [DecidableEq S] [DecidableEq U] (stack : List (StackEntry α σ S U)) : Decidable (Current stack) :=
  match stack with
  | [] => inferInstanceAs (Decidable True)
  | entry :: rest =>
    inferInstanceAs (Decidable (entry.seekDimension = measure (Dimension.default σ) (preceding (entry :: rest)) ∧
      entry.sumDimension = measure (Dimension.default σ) (preceding (entry :: rest))))

def decideRestoresCurrent [DecidableEq S] [DecidableEq U] :
    (stack : List (StackEntry α σ S U)) → Decidable (RestoresCurrent stack)
  | [] => inferInstanceAs (Decidable True)
  | entry :: rest =>
    have := decideRestoresCurrent rest
    inferInstanceAs (Decidable (if entry.index = 0 then RestoresCurrent rest else Current rest))

instance [DecidableEq S] [DecidableEq U] (stack : List (StackEntry α σ S U)) :
    Decidable (RestoresCurrent stack) :=
  decideRestoresCurrent stack

omit [Item α σ] [Dimension σ S] [Dimension σ U] in
theorem preceding_of_leads (h : Leads root stack tree before after) : preceding stack = before := by
  induction h with
  | root => rfl
  | child _ hnode hindex ih =>
    rw [preceding, ih, hnode, hindex]
    simp [nodeOf, childTrees]

theorem restore_current (h : Leads root rest tree before after) (hcurrent : Current rest) :
    c.restore rest = { c with
      stack := rest
      seekDimension := measure (Dimension.default σ) before
      sumDimension := measure (Dimension.default σ) before } := by
  cases rest with
  | nil =>
    cases h
    rfl
  | cons below rest =>
    obtain ⟨hseek, hsum⟩ := hcurrent
    rw [preceding_of_leads h] at hseek hsum
    rw [restore, hseek, hsum]

omit [AddMonoid σ] [Item α σ] in
theorem prevFrom_zero (h : entry.index = 0) : c.prevFrom (entry :: rest) = c.prevFrom rest := by
  rw [prevFrom, if_pos h]

omit [Item α σ] in
theorem prevFrom_nodeOf {left right : List (SumTree α σ)} {sibling : SumTree α σ}
    (hnode : entry.tree = nodeOf height (left ++ sibling :: right)) (hindex : entry.index = left.length + 1) :
    c.prevFrom (entry :: rest) =
      (((c.restore rest).advanceAll (left.map SumTree.summary)).enter entry.tree left.length).bind fun c =>
        descendToLastItem c sibling := by
  rw [prevFrom, if_neg (by omega), hnode, nodeOf]
  simp [hindex]

theorem prevFrom_leafOf {left right : List α} {x : α} (hleaf : entry.tree = leafOf (left ++ x :: right))
    (hindex : entry.index = left.length + 1) :
    c.prevFrom (entry :: rest) = ((c.restore rest).pass left).enter entry.tree left.length := by
  rw [prevFrom, if_neg (by omega), hleaf, leafOf, ← advanceAll_items]
  simp [hindex]

def atStartOf (c : Cursor α σ S U) (stack : List (StackEntry α σ S U)) (pre : List α) : Cursor α σ S U :=
  { c with
    stack := stack
    seekDimension := measure (Dimension.default σ) pre
    sumDimension := measure (Dimension.default σ) pre }

variable [ExactDimension σ S] [ExactDimension σ U]

theorem prevFrom_leads (hpos : 0 < leafMin) (hbase : 0 < treeBase) (hroot : Balanced treeBase leafMin height root)
    (hheight : height < 16) (hseek : c.didSeek = true) (h : Leads root stack tree before after)
    (hcurrent : RestoresCurrent stack) :
    (before = [] ∧ prevFrom c stack = some { c with stack := [] }) ∨
      ∃ pre y stack', before = pre ++ [y] ∧ prevFrom c stack = some (c.atStartOf stack' pre) ∧
        At root stack' pre (y :: tree.toList ++ after) := by
  induction h with
  | root => exact .inl ⟨rfl, rfl⟩
  | @child rest entry level left child right before after hleads hnode hindex ih =>
    cases left.eq_nil_or_concat' with
    | inl hnil =>
      rw [hnil] at hindex hnode ⊢
      have hzero : entry.index = 0 := hindex
      rw [RestoresCurrent, if_pos hzero] at hcurrent
      rw [prevFrom_zero hzero, List.flatMap_nil, List.append_nil]
      have hrest := ih hcurrent
      rw [hnode, toList_nodeOf, List.nil_append, List.flatMap_cons] at hrest
      simpa using hrest
    | inr hconcat =>
      obtain ⟨inner, sibling, rfl⟩ := hconcat
      obtain ⟨level', hchildren, hlevel⟩ := hleads.children hroot hnode
      have hindex' : entry.index = inner.length + 1 := by simp [hindex]
      rw [RestoresCurrent, if_neg (by omega)] at hcurrent
      have hne : sibling.toList ≠ [] := hchildren.ne_nil hpos hbase (by simp)
      obtain ⟨items, y, hitems⟩ : ∃ items y, sibling.toList = items ++ [y] :=
        ⟨_, _, (List.dropLast_append_getLast hne).symm⟩
      have hinner : Children treeBase leafMin level' inner := hchildren.sublist (by simp)
      rw [List.append_assoc, List.singleton_append] at hnode
      have hsibling := Leads.child (e := ⟨entry.tree, inner.length,
          measure (measure (Dimension.default σ) before) (inner.flatMap toList),
          measure (measure (Dimension.default σ) before) (inner.flatMap toList)⟩) hleads hnode rfl
      obtain ⟨stack', hstack, hat⟩ := descendToLastItem_spec hpos hbase (hchildren sibling (by simp)).1 hitems
        (((c.atStartOf rest before).pass (inner.flatMap toList)).entered entry.tree inner.length) hsibling
        (by simp only [entered_stack, pass_stack, atStartOf, List.length_cons]; omega)
      refine .inr ⟨before ++ inner.flatMap toList ++ items, y, stack', ?_, ?_, ?_⟩
      · simp [hitems]
      · rw [prevFrom_nodeOf hnode hindex', restore_current hleads hcurrent,
          advanceAll_trees _ hinner fun t ht => hinner.ne_nil hpos hbase ht, enter_eq, Option.bind_some]
        · refine hstack.trans ?_
          simp [atStartOf, pass, entered, withStack, hseek]
        · simp only [pass_stack]
          omega
      · simpa using hat

theorem prevFrom_at (hpos : 0 < leafMin) (hbase : 0 < treeBase) (hroot : Balanced treeBase leafMin height root)
    (hheight : height < 16) (hseek : c.didSeek = true) (h : At root stack pre post)
    (hcurrent : RestoresCurrent stack) :
    (pre = [] ∧ prevFrom c stack = some { c with stack := [] }) ∨
      ∃ pre' y stack', pre = pre' ++ [y] ∧ prevFrom c stack = some (c.atStartOf stack' pre') ∧
        At root stack' pre' (y :: post) := by
  cases h with
  | @item rest entry left x right before after hleads hleaf hindex =>
    cases left.eq_nil_or_concat' with
    | inl hnil =>
      rw [hnil] at hindex hleaf ⊢
      have hzero : entry.index = 0 := hindex
      rw [RestoresCurrent, if_pos hzero] at hcurrent
      rw [prevFrom_zero hzero, List.append_nil]
      have hrest := prevFrom_leads hpos hbase hroot hheight hseek hleads hcurrent
      rwa [hleaf, toList_leafOf, List.nil_append] at hrest
    | inr hconcat =>
      obtain ⟨inner, y, rfl⟩ := hconcat
      obtain ⟨level, -, hlevel⟩ := hleads.balanced hroot
      have hindex' : entry.index = inner.length + 1 := by simp [hindex]
      rw [RestoresCurrent, if_neg (by omega)] at hcurrent
      rw [List.append_assoc, List.singleton_append] at hleaf
      have hat := At.item (e := ⟨entry.tree, inner.length,
        measure (measure (Dimension.default σ) before) inner,
        measure (measure (Dimension.default σ) before) inner⟩) hleads hleaf rfl
      refine .inr ⟨before ++ inner, y, _, by simp, ?_, by simpa using hat⟩
      rw [prevFrom_leafOf hleaf hindex', restore_current hleads hcurrent, enter_eq]
      · simp [atStartOf, pass, entered]
      · simp only [pass_stack]
        omega

theorem prev_atEnd (hpos : 0 < leafMin) (hbase : 0 < treeBase) (hroot : Balanced treeBase leafMin height c.tree)
    (hheight : height < 16) (hseek : c.didSeek = true) (hend : c.atEnd = true) (hstack : c.stack = [])
    {y : α} (hitems : c.tree.toList = pre ++ [y]) :
    ∃ stack', c.prev = some { c.atStartOf stack' pre with atEnd := false } ∧ At c.tree stack' pre [y] := by
  have hleads : Leads c.tree (c.atStartOf [] []).stack c.tree [] [] := Leads.root
  obtain ⟨stack', hdescend, hat⟩ := descendToLastItem_spec hpos hbase hroot hitems (c.atStartOf [] []) hleads
    (by simpa [atStartOf] using hheight)
  refine ⟨stack', ?_, hat⟩
  have hc : { c with seekDimension := Dimension.default σ, sumDimension := Dimension.default σ } =
      c.atStartOf [] [] := by
    rw [atStartOf, ← hstack]
    rfl
  rw [prev, if_pos hseek, if_pos hend, hc, hdescend]
  simp [withStack, pass, atStartOf, hseek]

end Prev

end Cursor

end InfiniShell.SumTree
