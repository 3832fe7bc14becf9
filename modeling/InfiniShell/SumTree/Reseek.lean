import InfiniShell.SumTree.SeekSpec

namespace InfiniShell.SumTree.Cursor

variable {α σ S U D : Type} [AddMonoid σ] [Item α σ] [Dimension σ S] [Dimension σ U] [Dimension σ D]
variable {treeBase leafMin height : Nat} {tree root : SumTree α σ} {before after pre post : List α}
variable [LinearOrder S] {q : SeekTarget S} {kind : AggregateKind} {taken : List α}
  {aggregate : SeekAggregate α σ D}

theorem reseekItems_spec (items left held : List α) (count : Nat) (c : Cursor α σ S U) (entry : StackEntry α σ S U)
    (sliceItems : SliceItems α σ) (hindex : entry.index = left.length)
    (hpending : Pending treeBase leafMin kind taken held sliceItems aggregate) :
    ∃ l r aggregate' sliceItems', items = l ++ r ∧
      reseekItems q count (c, aggregate) entry sliceItems items (items.map Item.summary) =
        ((c.pass l, aggregate'), { entry with index := (left ++ l).length }, sliceItems', !r.isEmpty) ∧
      Pending treeBase leafMin kind taken (held ++ l) sliceItems' aggregate' ∧
      Halts q c.seekDimension l r := by
  induction items generalizing left held c entry sliceItems aggregate with
  | nil =>
    refine ⟨[], [], aggregate, sliceItems, rfl, ?_, by simpa using hpending, fun _ _ => ⟨trivial, trivial⟩⟩
    rw [List.append_nil, ← hindex]
    simp [reseekItems]
  | cons item items ih =>
    rw [List.map_cons, reseekItems]
    by_cases hbeyond : q.isBeyond (entry.index == count - 1) (addItem c.seekDimension item) = true
    · obtain ⟨l, r, aggregate', sliceItems', hitems, hrun, hpending', hhalts⟩ :=
        ih (left ++ [item]) (held ++ [item]) (c.pass [item]) { entry with index := entry.index + 1 }
          (aggregate.pushItem item (Item.summary item) sliceItems).2 (by simp [hindex]) (hpending.push item)
      refine ⟨item :: l, r, aggregate', sliceItems', by rw [hitems]; rfl, ?_, by simpa using hpending', ?_⟩
      · rw [addItem] at hbeyond
        rw [if_pos hbeyond, advance_item]
        simpa using hrun
      · intro hclamp hordered
        obtain ⟨hall, hhalted⟩ := hhalts hclamp hordered.2
        exact ⟨⟨isBeyond_of_clamped hbeyond, hall⟩, hhalted⟩
    · refine ⟨[], item :: items, aggregate, sliceItems, rfl, ?_, by simpa using hpending, ?_⟩
      · rw [addItem] at hbeyond
        rw [if_neg hbeyond, List.append_nil, ← hindex]
        rfl
      · intro hclamp _
        rw [Bool.not_eq_true, isBeyond_unclamped hclamp] at hbeyond
        exact ⟨trivial, hbeyond⟩

variable [ExactDimension σ S] [ExactDimension σ U] [ExactDimension σ D]

theorem reseekChildren_spec (hmin : leafMin ≤ treeBase) (hpos : 0 < leafMin) (trees left : List (SumTree α σ))
    (count : Nat) (c : Cursor α σ S U) (entry : StackEntry α σ S U) (hindex : entry.index = left.length)
    (hchildren : Children treeBase leafMin height trees)
    (hcollected : Collected treeBase leafMin kind taken aggregate)
    (hfits : Fits treeBase (taken ++ trees.flatMap toList)) :
    ∃ skipped rest aggregate', trees = skipped ++ rest ∧
      reseekChildren treeBase q count (c, aggregate) entry (trees.map SumTree.summary) trees =
        some ((c.pass (skipped.flatMap toList), aggregate'),
          { entry with index := (left ++ skipped).length }, rest.head?) ∧
      Collected treeBase leafMin kind (taken ++ skipped.flatMap toList) aggregate' ∧
      (q.clampMax = false → Ordered c.seekDimension (skipped.flatMap toList) →
        AllBeyond q c.seekDimension (skipped.flatMap toList)) ∧
      ∀ tree, rest.head? = some tree →
        q.isBeyond true (measure (measure c.seekDimension (skipped.flatMap toList)) tree.toList) = false := by
  induction trees generalizing left c entry aggregate taken with
  | nil =>
    refine ⟨[], [], aggregate, rfl, ?_, by simpa using hcollected, fun _ _ => trivial, by simp⟩
    rw [List.append_nil, ← hindex]
    simp [reseekChildren]
  | cons tree trees ih =>
    have hbalanced := (hchildren tree (by simp)).1
    have hne : tree.toList ≠ [] := hchildren.ne_nil hpos (hpos.trans_le hmin) (by simp)
    have hsum := hbalanced.addSummary hne c.seekDimension
    rw [List.flatMap_cons, ← List.append_assoc] at hfits
    rw [List.map_cons, reseekChildren, hsum]
    by_cases hbeyond : q.isBeyond (entry.index == count - 1) (measure c.seekDimension tree.toList) = true
    · obtain ⟨aggregate', hpush, hcollected'⟩ := hcollected.pushChild hmin hpos hbalanced hne hfits.append_left
      obtain ⟨skipped, rest, aggregate'', htrees, hrun, hcollected'', hall, hhead⟩ :=
        ih (left ++ [tree]) (c.pass tree.toList) { entry with index := entry.index + 1 } (by simp [hindex])
          (hchildren.sublist (by simp)) hcollected' hfits
      refine ⟨tree :: skipped, rest, aggregate'', by rw [htrees]; rfl, ?_, by simpa using hcollected'', ?_, ?_⟩
      · rw [if_pos hbeyond, hpush, Option.bind_some, c.advance_tree hbalanced hne]
        simpa using hrun
      · intro hclamp hordered
        rw [List.flatMap_cons, ordered_append] at hordered
        rw [List.flatMap_cons, allBeyond_append]
        exact ⟨hordered.1.allBeyond (isBeyond_of_clamped hbeyond), hall hclamp hordered.2⟩
      · simpa using hhead
    · refine ⟨[], tree :: trees, aggregate, rfl, ?_, by simpa using hcollected, fun _ _ => trivial, ?_⟩
      · rw [if_neg hbeyond, List.append_nil, ← hindex]
        rfl
      · intro tree' htree
        rw [← Option.some.inj htree]
        exact not_isBeyond_clamped (Bool.not_eq_true _ ▸ hbeyond)

/-- Where the walk up the stack ends: in a subtree that holds the target, or past all items. -/
inductive Reseeks (treeBase leafMin : Nat) (kind : AggregateKind) (q : SeekTarget S) (root : SumTree α σ)
    (pre post taken : List α) (c : Cursor α σ S U) :
    Seeking α σ S U D × Option (SumTree α σ) → Prop
  | past {aggregate : SeekAggregate α σ D} (hcollected : Collected treeBase leafMin kind (taken ++ post) aggregate)
      (hbeyond : q.clampMax = false → Ordered c.seekDimension post → AllBeyond q c.seekDimension post) :
      Reseeks treeBase leafMin kind q root pre post taken c (((c.pass post).onStack [], aggregate), none)
  | inside {l : List α} {tree : SumTree α σ} {after : List α} {stack : List (StackEntry α σ S U)}
      {aggregate : SeekAggregate α σ D} (hpost : post = l ++ tree.toList ++ after)
      (hstack : stack ≠ []) (hleads : Leads root stack tree (pre ++ l) after) (hne : tree.toList ≠ [])
      (hcollected : Collected treeBase leafMin kind (taken ++ l) aggregate)
      (hbeyond : q.clampMax = false → Ordered c.seekDimension l → AllBeyond q c.seekDimension l)
      (hinside : q.isBeyond true (measure (measure c.seekDimension l) tree.toList) = false) :
      Reseeks treeBase leafMin kind q root pre post taken c
        (((c.pass l).onStack stack, aggregate), some tree)

variable {c : Cursor α σ S U} {l : List α}

omit [ExactDimension σ S] [ExactDimension σ U] [ExactDimension σ D] in
theorem Reseeks.prepend {found : Seeking α σ S U D × Option (SumTree α σ)}
    (h : Reseeks treeBase leafMin kind q root (pre ++ l) post (taken ++ l) (c.pass l) found)
    (hbeyond : q.clampMax = false → Ordered c.seekDimension l → AllBeyond q c.seekDimension l) :
    Reseeks treeBase leafMin kind q root pre (l ++ post) taken c found := by
  cases h with
  | past hcollected hpast =>
    rw [pass_pass]
    refine .past (by rwa [← List.append_assoc]) ?_
    intro hclamp hordered
    rw [ordered_append] at hordered
    exact allBeyond_append.mpr ⟨hbeyond hclamp hordered.1, hpast hclamp hordered.2⟩
  | @inside l' tree after stack aggregate hpost hstack hleads hne hcollected hpast hinside =>
    rw [pass_pass]
    have hpost' : l ++ post = l ++ l' ++ tree.toList ++ after := by
      rw [hpost]
      simp
    refine .inside hpost' hstack (by rwa [← List.append_assoc]) hne
      (by rwa [← List.append_assoc]) ?_ (by rwa [measure_append])
    intro hclamp hordered
    rw [ordered_append] at hordered
    exact allBeyond_append.mpr ⟨hbeyond hclamp hordered.1, hpast hclamp hordered.2⟩

omit [Item α σ] [ExactDimension σ S] [ExactDimension σ U] [ExactDimension σ D] in
theorem reseek_nodeOf {entry : StackEntry α σ S U} {rest : List (StackEntry α σ S U)}
    {left right : List (SumTree α σ)} (hnode : entry.tree = nodeOf height (left ++ tree :: right))
    (hindex : entry.index = left.length) :
    reseek treeBase q (c, aggregate) (entry :: rest) =
      (reseekChildren treeBase q (left ++ tree :: right).length (c, aggregate)
        { entry with index := entry.index + 1 } (right.map SumTree.summary) right).bind fun found =>
          match found.2.2 with
          | some tree => some (({ found.1.1 with stack := found.2.1 :: rest }, found.1.2), some tree)
          | none => reseek treeBase q found.1 rest := by
  have hdrop : (left ++ tree :: right).drop (left.length + 1) = right := by
    rw [← List.singleton_append, ← List.append_assoc]
    exact List.drop_left' (by simp)
  have hdrop' : ((left ++ tree :: right).map SumTree.summary).drop (left.length + 1) =
      right.map SumTree.summary := by
    rw [← List.map_drop, hdrop]
  obtain ⟨entryTree, index, seekDimension, sumDimension⟩ := entry
  cases hnode
  cases hindex
  rw [reseek]
  simp only [hdrop, hdrop'] <;> rfl

variable {stack : List (StackEntry α σ S U)}

theorem reseek_leads (hmin : leafMin ≤ treeBase) (hpos : 0 < leafMin) (hroot : Balanced treeBase leafMin height root) (h : Leads root stack tree before after) (c : Cursor α σ S U)
    (hcollected : Collected treeBase leafMin kind taken aggregate) (hfits : Fits treeBase (taken ++ after)) :
    ∃ found, reseek treeBase q (c, aggregate) stack = some found ∧
      Reseeks treeBase leafMin kind q root (before ++ tree.toList) after taken c found := by
  induction h generalizing c aggregate taken with
  | root =>
    have hpast : Reseeks treeBase leafMin kind q root ([] ++ root.toList) [] taken c
        (((c.pass []).onStack [], aggregate), none) :=
      .past (by simpa using hcollected) fun _ _ => trivial
    exact ⟨_, rfl, hpast⟩
  | @child rest entry level left child right before after hleads hnode hindex ih =>
    obtain ⟨level', hchildren, -⟩ := hleads.children hroot hnode
    have hright : Children treeBase leafMin level' right := hchildren.sublist (by simp)
    rw [← List.append_assoc] at hfits
    obtain ⟨skipped, remaining, aggregate', htrees, hrun, hcollected', hall, hhead⟩ :=
      reseekChildren_spec (q := q) hmin hpos right (left ++ [child]) (left ++ child :: right).length c
        { entry with index := entry.index + 1 } (by simp [hindex]) hright hcollected hfits.append_left
    rw [reseek_nodeOf hnode hindex, hrun, Option.bind_some]
    cases remaining with
    | nil =>
      rw [List.append_nil] at htrees
      rw [← htrees] at hcollected' hall
      obtain ⟨found, hfound, hreseeks⟩ := ih (c.pass (right.flatMap toList)) hcollected' hfits
      refine ⟨found, by rw [← hfound, htrees]; rfl, ?_⟩
      rw [hnode, toList_nodeOf] at hreseeks
      have hreseeks' : Reseeks treeBase leafMin kind q root
          (before ++ left.flatMap toList ++ child.toList ++ right.flatMap toList) after
          (taken ++ right.flatMap toList) (c.pass (right.flatMap toList)) found := by
        simpa using hreseeks
      exact hreseeks'.prepend hall
    | cons sibling right' =>
      have hnode' : entry.tree = nodeOf level ((left ++ [child] ++ skipped) ++ sibling :: right') := by
        rw [hnode, htrees]
        simp
      have hsibling := Leads.child (e := { entry with index := (left ++ [child] ++ skipped).length }) hleads
        hnode' rfl
      refine ⟨_, rfl, ?_⟩
      have hpost : right.flatMap toList ++ after =
          skipped.flatMap toList ++ sibling.toList ++ (right'.flatMap toList ++ after) := by
        simp [htrees]
      refine .inside hpost (List.cons_ne_nil _ _)
        ?_ (hright.ne_nil hpos (hpos.trans_le hmin) (by simp [htrees])) hcollected' hall (hhead sibling rfl)
      simpa using hsibling

theorem reseek_at (hmin : leafMin ≤ treeBase) (hpos : 0 < leafMin) (hroot : Balanced treeBase leafMin height root) (h : At root stack pre post) (c : Cursor α σ S U)
    (hcollected : Collected treeBase leafMin kind taken aggregate) (hfits : Fits treeBase (taken ++ post)) :
    ∃ found, reseek treeBase q (c, aggregate) stack = some found ∧
      (Reseeks treeBase leafMin kind q root pre post taken c found ∨
        ∃ l r stack' aggregate', post = l ++ r ∧ found = (((c.pass l).onStack stack', aggregate'), none) ∧
          At root stack' (pre ++ l) r ∧ Collected treeBase leafMin kind (taken ++ l) aggregate' ∧
          Halts q c.seekDimension l r) := by
  cases h with
  | @item rest entry left x right before after hleads hleaf hindex =>
    obtain ⟨l, r, aggregate', sliceItems', hitems, hrun, hpending, hhalts⟩ :=
      reseekItems_spec (q := q) (x :: right) left [] (left ++ x :: right).length c entry SliceItems.empty
        hindex hcollected.pending
    have hfits' : Fits treeBase (taken ++ l) := by
      rw [hitems, List.append_assoc, ← List.append_assoc] at hfits
      exact hfits.append_left
    have hlen : ([] ++ l).length ≤ 2 * treeBase := by
      obtain ⟨level, hbalanced, -⟩ := hleads.balanced hroot
      have hsize := hbalanced.size_le
      rw [hleaf, size_leafOf, hitems, List.length_append, List.length_append] at hsize
      rw [List.nil_append]
      omega
    obtain ⟨aggregate'', hflush, hcollected'⟩ := hpending.flush hmin hpos hlen hfits'
    have hstep : reseek treeBase q (c, aggregate) (entry :: rest) =
        if !r.isEmpty then
          some ((((c.pass l).onStack ({ entry with index := (left ++ l).length } :: rest)), aggregate''), none)
        else reseek treeBase q (c.pass l, aggregate'') rest := by
      rw [reseek, hleaf, leafOf, hindex]
      simp only [List.drop_left, ← List.map_drop]
      simp only [hrun, hflush, Option.bind_some]
      rw [hleaf]
      rfl
    rw [hstep]
    cases r with
    | nil =>
      rw [List.append_nil] at hitems
      subst hitems
      obtain ⟨found, hfound, hreseeks⟩ := reseek_leads (q := q) hmin hpos hroot hleads (c.pass (x :: right))
        hcollected' (by simpa using hfits)
      refine ⟨found, by rw [← hfound]; rfl, .inl ?_⟩
      rw [hleaf, toList_leafOf, ← List.append_assoc] at hreseeks
      apply hreseeks.prepend
      intro hclamp hordered
      exact (hhalts hclamp (by rwa [List.append_nil])).1
    | cons y r =>
      refine ⟨_, rfl, .inr ⟨l, y :: r ++ after, _, aggregate'', by rw [hitems]; simp, rfl, ?_, hcollected', ?_⟩⟩
      · have hleaf' : entry.tree = leafOf ((left ++ l) ++ y :: r) := by
          rw [hleaf, hitems, List.append_assoc]
        have hat := At.item (e := { entry with index := (left ++ l).length }) hleads hleaf' rfl
        simpa using hat
      · intro hclamp hordered
        rw [← List.append_assoc, ordered_append] at hordered
        exact hhalts hclamp hordered.1

def Moves (treeBase leafMin : Nat) (kind : AggregateKind) (q : SeekTarget S) (root : SumTree α σ)
    (pre post taken : List α) (c : Cursor α σ S U) (result : Option (Seeking α σ S U D × Bool)) : Prop :=
  ∃ l r stack aggregate found, post = l ++ r ∧ result = some (((c.pass l).landed stack, aggregate), found) ∧
    Lands root stack (pre ++ l) r ∧ Collected treeBase leafMin kind (taken ++ l) aggregate ∧
    Halts q c.seekDimension l r

omit [ExactDimension σ S] [ExactDimension σ U] [ExactDimension σ D] in
theorem Moves.prepend {result : Option (Seeking α σ S U D × Bool)}
    (h : Moves treeBase leafMin kind q root (pre ++ l) post (taken ++ l) ((c.pass l).onStack stack) result)
    (hbeyond : q.clampMax = false → Ordered c.seekDimension l → AllBeyond q c.seekDimension l) :
    Moves treeBase leafMin kind q root pre (l ++ post) taken c result := by
  obtain ⟨l', r, stack', aggregate, found, hpost, hresult, hlands, hcollected, hhalts⟩ := h
  refine ⟨l ++ l', r, stack', aggregate, found, by rw [hpost, List.append_assoc], ?_, by rwa [← List.append_assoc],
    by rwa [← List.append_assoc], ?_⟩
  · rw [hresult, ← pass_pass]
    rfl
  · intro hclamp hordered
    rw [List.append_assoc, ordered_append] at hordered
    obtain ⟨hall, hhalted⟩ := hhalts hclamp hordered.2
    exact ⟨allBeyond_append.mpr ⟨hbeyond hclamp hordered.1, hall⟩, by rwa [measure_append]⟩

omit [ExactDimension σ S] [ExactDimension σ U] [ExactDimension σ D] [Dimension σ D] [Dimension σ U] in
theorem finish_spec {g : SeekAggregate α σ D} (hseek : c.didSeek = true)
    (hlands : Lands root c.stack pre post) :
    ∃ found, finish q (c, g) = some ((c.landed c.stack, g), found) := by
  have hsummary : ∃ summary, (c.landed c.stack).itemSummary = some summary := by
    cases hlands with
    | inl hnil => exact ⟨none, by rw [itemSummary, landed, if_pos hseek, hnil.1]⟩
    | inr hat => exact ⟨_, itemSummary_at hseek hat⟩
  obtain ⟨summary, hsummary⟩ := hsummary
  rw [landed] at hsummary
  rw [finish]
  cases q.bias with
  | left =>
    refine ⟨q.target == summary.elim c.seekDimension (Dimension.addSummary c.seekDimension), ?_⟩
    simp only [hsummary, Option.map_some]
    rfl
  | right => exact ⟨_, rfl⟩

theorem seekInto_some (hmin : leafMin ≤ treeBase) (hpos : 0 < leafMin) (c : Cursor α σ S U)
    (hseek : c.didSeek = true) (h : Balanced treeBase leafMin height tree)
    (hleads : Leads root c.stack tree before after)
    (hcollected : Collected treeBase leafMin kind taken aggregate) (hfits : Fits treeBase (taken ++ tree.toList))
    (hinside : c.stack ≠ [] → tree.toList ≠ [] ∧ q.isBeyond true (measure c.seekDimension tree.toList) = false)
    (hroom : height + c.stack.length < 16) :
    Moves treeBase leafMin kind q root before (tree.toList ++ after) taken c
      (seekInto treeBase q (c, aggregate) (some tree)) := by
  obtain ⟨l, r, stack, aggregate', hitems, hrun, hcollected', hsought⟩ :=
    descend_spec hmin hpos c h hleads hcollected hfits hinside hroom
  have hlands : Lands root stack (before ++ l) (r ++ after) := by
    cases hsought.lands with
    | inl hroot =>
      obtain ⟨hnil, hstack, hr⟩ := hroot
      rw [hnil] at hleads
      cases hleads
      exact .inl ⟨hstack, by rw [hr]; rfl⟩
    | inr hat => exact .inr hat.2
  obtain ⟨found, hfinish⟩ := finish_spec (q := q) (g := aggregate')
    (c := (c.pass l).onStack stack) hseek hlands
  refine ⟨l, r ++ after, stack, aggregate', found, by rw [hitems, List.append_assoc], ?_, hlands, hcollected', ?_⟩
  · rw [seekInto, hrun, Option.bind_some, if_neg Bool.false_ne_true, hfinish]
    rfl
  · intro hclamp hordered
    rw [← List.append_assoc, ordered_append] at hordered
    obtain ⟨hall, hhalted⟩ := hsought.halts hclamp hordered.1
    refine ⟨hall, ?_⟩
    cases r with
    | cons x r => exact hhalted
    | nil =>
      cases hsought.lands with
      | inl hroot =>
        rw [hroot.1] at hleads
        cases hleads
        trivial
      | inr hat => exact absurd rfl hat.1

theorem seekInternal_at (hmin : leafMin ≤ treeBase) (hpos : 0 < leafMin) (hroot : Balanced treeBase leafMin height root)
    (hheight : height < 16) (c : Cursor α σ S U) (hseek : c.didSeek = true) (hat : At root c.stack pre post)
    (htarget : c.seekDimension ≤ q.target) (hcollected : Collected treeBase leafMin kind [] aggregate)
    (hfits : Fits treeBase post) :
    Moves treeBase leafMin kind q root pre post [] c (seekInternal treeBase q c aggregate) := by
  obtain ⟨found, hfound, hcases⟩ := reseek_at (q := q) hmin hpos hroot hat c hcollected hfits
  rw [seekInternal, if_neg htarget.not_gt, if_pos hseek, hfound, Option.bind_some]
  cases hcases with
  | inl hreseeks =>
    cases hreseeks with
    | past hcollected' hbeyond =>
      have hlands : Lands root ((c.pass post).onStack []).stack (pre ++ post) [] := .inl ⟨rfl, rfl⟩
      obtain ⟨b, hfinish⟩ := finish_spec (q := q) (c := (c.pass post).onStack []) hseek hlands
      refine ⟨post, [], [], _, b, by simp, hfinish, hlands, hcollected', ?_⟩
      intro hclamp hordered
      rw [List.append_nil] at hordered
      exact ⟨hbeyond hclamp hordered, trivial⟩
    | @inside l tree after stack aggregate' hpost hstack hleads hne hcollected' hbeyond hinside =>
      obtain ⟨level, hbalanced, hlevel⟩ := hleads.balanced hroot
      rw [hpost, List.append_assoc] at hfits ⊢
      have hmoves := seekInto_some hmin hpos ((c.pass l).onStack stack) hseek hbalanced hleads hcollected' ?_
        (fun _ => ⟨hne, hinside⟩) ?_
      · exact hmoves.prepend hbeyond
      · rw [← List.append_assoc] at hfits
        simpa using hfits.append_left
      · exact hlevel.trans_lt hheight
  | inr hleaf =>
    obtain ⟨l, r, stack, aggregate', hpost, rfl, hat', hcollected', hhalts⟩ := hleaf
    obtain ⟨b, hfinish⟩ := finish_spec (q := q) (g := aggregate')
      (c := (c.pass l).onStack stack) hseek (.inr hat')
    exact ⟨l, r, stack, aggregate', b, hpost, hfinish, .inr hat', hcollected', hhalts⟩

theorem seekInternal_new (hmin : leafMin ≤ treeBase) (hpos : 0 < leafMin) (hroot : Balanced treeBase leafMin height root)
    (hheight : height < 16) (htarget : Dimension.default σ ≤ q.target)
    (hcollected : Collected treeBase leafMin kind [] aggregate) (hfits : Fits treeBase root.toList) :
    Moves treeBase leafMin kind q root [] root.toList []
      ({ (Cursor.new root : Cursor α σ S U) with didSeek := true })
      (seekInternal treeBase q (Cursor.new root : Cursor α σ S U) aggregate) := by
  have hmoves := seekInto_some (q := q) hmin hpos
    { (Cursor.new root : Cursor α σ S U) with didSeek := true } rfl hroot Leads.root hcollected
    (by simpa using hfits) (fun hne => absurd rfl hne) (by simpa [Cursor.new] using hheight)
  rw [List.append_nil] at hmoves
  have hstart : ¬ q.target < (Cursor.new root : Cursor α σ S U).seekDimension := htarget.not_gt
  have hnew : ¬ (Cursor.new root : Cursor α σ S U).didSeek = true := Bool.false_ne_true
  rw [seekInternal, if_neg hstart, if_neg hnew]
  exact hmoves

end InfiniShell.SumTree.Cursor
