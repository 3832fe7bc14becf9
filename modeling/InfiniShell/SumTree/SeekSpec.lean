import InfiniShell.SumTree.Seek
import InfiniShell.SumTree.Step

namespace InfiniShell.SumTree

variable {α σ S U D : Type} [AddMonoid σ] [Item α σ] [Dimension σ S] [Dimension σ U] [Dimension σ D]
variable {treeBase leafMin height : Nat} {tree root : SumTree α σ} {before after : List α}

section Beyond

omit [AddMonoid σ]

variable [LinearOrder S] {seek : SeekTarget S} {d e e' : S} {items items' : List α}

omit [Item α σ] [Dimension σ S] in
theorem isBeyond_iff : seek.isBeyond false e = true ↔ e < seek.target ∨ seek.target = e ∧ seek.bias = .right := by
  simp [SeekTarget.isBeyond, compare_gt_iff_gt]

variable {atLastItem : Bool}

omit [Item α σ] [Dimension σ S] in
theorem isBeyond_of_clamped (h : seek.isBeyond atLastItem e = true) : seek.isBeyond false e = true := by
  by_cases hclamp : (atLastItem && seek.clampMax) = true
  · rw [isBeyond_iff]
    simp only [SeekTarget.isBeyond, hclamp, if_true] at h
    cases lt_trichotomy seek.target e with
    | inl hlt =>
      rw [min_eq_left hlt.le] at h
      simp [compare_lt_iff_lt.mpr hlt] at h
    | inr hge =>
      cases hge with
      | inl heq => exact .inr ⟨heq, by simpa [heq] using h⟩
      | inr hgt => exact .inl hgt
  · simp only [SeekTarget.isBeyond, hclamp] at h ⊢
    simpa using h

omit [Item α σ] [Dimension σ S] in
theorem not_isBeyond_clamped (h : seek.isBeyond atLastItem e = false) : seek.isBeyond true e = false := by
  cases atLastItem with
  | true => exact h
  | false =>
    by_contra hbeyond
    rw [Bool.not_eq_false] at hbeyond
    rw [isBeyond_of_clamped hbeyond] at h
    exact absurd h (by decide)

omit [Item α σ] [Dimension σ S] in
theorem isBeyond_unclamped (h : seek.clampMax = false) :
    seek.isBeyond atLastItem e = seek.isBeyond false e := by
  simp [SeekTarget.isBeyond, h]

omit [Item α σ] [Dimension σ S] in
theorem isBeyond_mono (h : seek.isBeyond false e = true) (hle : e' ≤ e) : seek.isBeyond false e' = true := by
  rw [isBeyond_iff] at h ⊢
  cases h with
  | inl hlt => exact .inl (hle.trans_lt hlt)
  | inr heq =>
    cases hle.lt_or_eq with
    | inl hlt => exact .inl (hlt.trans_eq heq.1.symm)
    | inr heq' => exact .inr ⟨heq.1.trans heq'.symm, heq.2⟩

/-- The dimension never decreases along these items. -/
def Ordered (d : S) : List α → Prop
  | [] => True
  | item :: items => d ≤ addItem d item ∧ Ordered (addItem d item) items

def AllBeyond (seek : SeekTarget S) (d : S) : List α → Prop
  | [] => True
  | item :: items => seek.isBeyond false (addItem d item) = true ∧ AllBeyond seek (addItem d item) items

def Halted (seek : SeekTarget S) (d : S) : List α → Prop
  | [] => True
  | item :: _ => seek.isBeyond false (addItem d item) = false

omit [LinearOrder S] in
theorem ordered_append [LinearOrder S] :
    Ordered d (items ++ items') ↔ Ordered d items ∧ Ordered (measure d items) items' := by
  induction items generalizing d with
  | nil => simp [Ordered]
  | cons item items ih => simp [Ordered, ih, and_assoc]

theorem allBeyond_append :
    AllBeyond seek d (items ++ items') ↔ AllBeyond seek d items ∧ AllBeyond seek (measure d items) items' := by
  induction items generalizing d with
  | nil => simp [AllBeyond]
  | cons item items ih => simp [AllBeyond, ih, and_assoc]

theorem Ordered.le_measure (h : Ordered d items) : d ≤ measure d items := by
  induction items generalizing d with
  | nil => exact le_rfl
  | cons item items ih => exact h.1.trans (ih h.2)

theorem Ordered.allBeyond (h : Ordered d items) (hbeyond : seek.isBeyond false (measure d items) = true) :
    AllBeyond seek d items := by
  induction items generalizing d with
  | nil => trivial
  | cons item items ih => exact ⟨isBeyond_mono hbeyond h.2.le_measure, ih h.2 hbeyond⟩

/-- Where an unclamped seek along an ordered dimension stops. -/
def Halts (seek : SeekTarget S) (d : S) (items items' : List α) : Prop :=
  seek.clampMax = false → Ordered d (items ++ items') →
    AllBeyond seek d items ∧ Halted seek (measure d items) items'

end Beyond

section Aggregate

inductive AggregateKind where
  | none
  | slice
  | summary

def Collected (treeBase leafMin : Nat) (kind : AggregateKind) (taken : List α) : SeekAggregate α σ D → Prop
  | .none => kind = .none
  | .slice s => kind = .slice ∧ Built treeBase leafMin taken s
  | .summary d => kind = .summary ∧ d = measure (Dimension.default σ) taken

def Pending (treeBase leafMin : Nat) (kind : AggregateKind) (taken items : List α) (sliceItems : SliceItems α σ) :
    SeekAggregate α σ D → Prop
  | .none => kind = .none
  | .slice s => kind = .slice ∧ Built treeBase leafMin taken s ∧
      sliceItems = ⟨itemsSummary items, items, items.map Item.summary⟩
  | .summary d => kind = .summary ∧ d = measure (Dimension.default σ) (taken ++ items)

variable {kind : AggregateKind} {taken items : List α} {sliceItems : SliceItems α σ}
  {aggregate : SeekAggregate α σ D}

theorem Collected.pending (h : Collected treeBase leafMin kind taken aggregate) :
    Pending treeBase leafMin kind taken [] SliceItems.empty aggregate := by
  cases aggregate with
  | none => exact h
  | slice s => exact ⟨h.1, h.2, rfl⟩
  | summary d => exact ⟨h.1, by simpa using h.2⟩

theorem Pending.push (h : Pending treeBase leafMin kind taken items sliceItems aggregate) (item : α) :
    Pending treeBase leafMin kind taken (items ++ [item])
      (aggregate.pushItem item (Item.summary item) sliceItems).2
      (aggregate.pushItem item (Item.summary item) sliceItems).1 := by
  cases aggregate with
  | none => exact h
  | slice s =>
    obtain ⟨hkind, hbuilt, hitems⟩ := h
    refine ⟨hkind, hbuilt, ?_⟩
    rw [hitems]
    simp [SeekAggregate.pushItem, SliceItems.push]
  | summary d =>
    obtain ⟨hkind, hd⟩ := h
    refine ⟨hkind, ?_⟩
    rw [hd, ← List.append_assoc, measure_append _ (taken ++ items)]
    rfl

theorem Pending.flush (h : Pending treeBase leafMin kind taken items sliceItems aggregate)
    (hmin : leafMin ≤ treeBase) (hpos : 0 < leafMin) (hlen : items.length ≤ 2 * treeBase)
    (hfits : Fits treeBase (taken ++ items)) :
    ∃ aggregate', aggregate.flush treeBase sliceItems = some aggregate' ∧
      Collected treeBase leafMin kind (taken ++ items) aggregate' := by
  cases aggregate with
  | none => exact ⟨_, rfl, h⟩
  | slice s =>
    obtain ⟨hkind, hbuilt, rfl⟩ := h
    obtain ⟨result, hresult, hbuilt'⟩ := pushTree_spec hmin hpos (hpos.trans_le hmin) hbuilt.balanced
      (leafOf_balanced hlen) (by simpa [hbuilt.toList] using hfits)
    rw [hbuilt.toList, toList_leafOf] at hbuilt'
    refine ⟨.slice result, ?_, hkind, hbuilt'⟩
    by_cases hempty : items.isEmpty
    · rw [pushTree_leafOf, if_pos hempty] at hresult
      rw [SeekAggregate.flush, if_pos hempty, Option.some.inj hresult]
    · rw [leafOf] at hresult
      rw [SeekAggregate.flush, if_neg hempty, hresult, Option.map_some]
  | summary d => exact ⟨_, rfl, h⟩

theorem Collected.pushChild [ExactDimension σ D] (h : Collected treeBase leafMin kind taken aggregate)
    (hmin : leafMin ≤ treeBase) (hpos : 0 < leafMin) (htree : Balanced treeBase leafMin height tree)
    (hne : tree.toList ≠ []) (hfits : Fits treeBase (taken ++ tree.toList)) :
    ∃ aggregate', aggregate.pushChild treeBase tree tree.summary = some aggregate' ∧
      Collected treeBase leafMin kind (taken ++ tree.toList) aggregate' := by
  cases aggregate with
  | none => exact ⟨_, rfl, h⟩
  | slice s =>
    obtain ⟨hkind, hbuilt⟩ := h
    obtain ⟨result, hresult, hbuilt'⟩ := pushTree_spec hmin hpos (hpos.trans_le hmin) hbuilt.balanced htree
      (by rwa [hbuilt.toList])
    rw [hbuilt.toList] at hbuilt'
    exact ⟨.slice result, by rw [SeekAggregate.pushChild, hresult, Option.map_some], hkind, hbuilt'⟩
  | summary d =>
    obtain ⟨hkind, hd⟩ := h
    refine ⟨_, rfl, hkind, ?_⟩
    rw [htree.addSummary hne, hd, measure_append]

end Aggregate

namespace Cursor

def onStack (c : Cursor α σ S U) (stack : List (StackEntry α σ S U)) : Cursor α σ S U := { c with stack := stack }

section Descend

variable [LinearOrder S] {seek : SeekTarget S}

/-- A seek over the items `l ++ r` behind `before` leaves the cursor at the first item of `r`; it passes them
all only from the root. -/
structure Sought (seek : SeekTarget S) (root : SumTree α σ) (c : Cursor α σ S U) (before after l r : List α)
    (stack : List (StackEntry α σ S U)) : Prop where
  lands : (c.stack = [] ∧ stack = [] ∧ r = []) ∨ (r ≠ [] ∧ At root stack (before ++ l) (r ++ after))
  halts : Halts seek c.seekDimension l r

variable {c : Cursor α σ S U}

theorem Sought.prepend {l l' r : List α} {stack : List (StackEntry α σ S U)}
    (h : Sought seek root (c.pass l) (before ++ l) after l' r stack)
    (hbeyond : seek.clampMax = false → Ordered c.seekDimension l → AllBeyond seek c.seekDimension l) :
    Sought seek root c before after (l ++ l') r stack := by
  refine ⟨?_, ?_⟩
  · rw [← List.append_assoc]
    exact h.lands
  · intro hclamp hordered
    rw [List.append_assoc, ordered_append] at hordered
    obtain ⟨hall, hhalted⟩ := h.halts hclamp hordered.2
    exact ⟨allBeyond_append.mpr ⟨hbeyond hclamp hordered.1, hall⟩, by rwa [measure_append]⟩

variable {kind : AggregateKind} {taken : List α} {aggregate : SeekAggregate α σ D} {maxEnd : S}

omit [AddMonoid σ] [Item α σ] [Dimension σ U] in
theorem childEnd_of_last {atLastItem : Bool} {summary : σ}
    (h : atLastItem = true → maxEnd = Dimension.addSummary c.seekDimension summary) :
    c.childEnd atLastItem maxEnd summary = Dimension.addSummary c.seekDimension summary := by
  cases atLastItem with
  | false => rfl
  | true => rw [childEnd, h rfl, if_pos rfl, max_self]

omit [Dimension σ S] [AddMonoid σ] [Item α σ] in
theorem not_isBeyond_of_stays {atRoot atLastItem : Bool} {childEnd : S}
    (h : ¬ ((atRoot || !atLastItem) && seek.isBeyond atLastItem childEnd) = true)
    (hinside : atRoot = false → atLastItem = true → seek.isBeyond true childEnd = false) :
    seek.isBeyond atLastItem childEnd = false := by
  cases atRoot with
  | true => simpa using h
  | false =>
    cases atLastItem with
    | true => exact hinside rfl rfl
    | false => simpa using h

theorem descendItems_spec (items left : List α) (c : Cursor α σ S U) (sliceItems : SliceItems α σ)
    (hleads : Leads root c.stack (leafOf (left ++ items)) before after)
    (hend : items ≠ [] → maxEnd = measure c.seekDimension items)
    (hpending : Pending treeBase leafMin kind taken left sliceItems aggregate)
    (hinside : c.stack ≠ [] → items ≠ [] ∧ seek.isBeyond true maxEnd = false) (hroom : c.stack.length < 16) :
    ∃ l r stack aggregate' sliceItems', items = l ++ r ∧
      descendItems seek (leafOf (left ++ items)) maxEnd (left ++ items).length left.length (c, aggregate)
        sliceItems items (items.map Item.summary) =
          some (((c.pass l).onStack stack, aggregate'), sliceItems', false) ∧
      Pending treeBase leafMin kind taken (left ++ l) sliceItems' aggregate' ∧
      Sought seek root c (before ++ left) after l r stack := by
  induction items generalizing left c sliceItems aggregate with
  | nil =>
    have hstack : c.stack = [] := by
      by_contra hne
      exact (hinside hne).1 rfl
    refine ⟨[], [], [], aggregate, sliceItems, rfl, ?_, ?_, .inl ⟨hstack, rfl, rfl⟩, fun _ _ => ⟨trivial, trivial⟩⟩
    · rw [pass_nil, onStack, ← hstack]
      simp [descendItems]
    · rwa [List.append_nil]
  | cons item items ih =>
    have hlast : (left.length == (left ++ item :: items).length - 1) = items.isEmpty := by
      cases items with
      | nil => simp
      | cons => simp
    have hchild : c.childEnd items.isEmpty maxEnd (Item.summary item) = addItem c.seekDimension item := by
      apply childEnd_of_last
      intro hempty
      rw [hend (by simp), List.isEmpty_iff.mp hempty]
      rfl
    rw [List.map_cons, descendItems, hlast, hchild]
    by_cases hskip : ((c.stack.isEmpty || !items.isEmpty) && seek.isBeyond items.isEmpty (addItem c.seekDimension item)) = true
    · rw [if_pos hskip]
      rw [Bool.and_eq_true, Bool.or_eq_true] at hskip
      obtain ⟨hstep, hbeyond⟩ := hskip
      have hinside' : c.stack ≠ [] → items ≠ [] ∧ seek.isBeyond true maxEnd = false := by
        intro hne
        refine ⟨?_, (hinside hne).2⟩
        intro hnil
        rw [hnil] at hstep
        simp [hne] at hstep
      obtain ⟨l, r, stack, aggregate', sliceItems', hitems, hrun, hpending', hsought⟩ :=
        ih (left ++ [item]) (c.pass [item]) (aggregate.pushItem item (Item.summary item) sliceItems).2
          (by simpa using hleads) (by intro hne; rw [hend (by simp)]; rfl) (hpending.push item) hinside' hroom
      refine ⟨item :: l, r, stack, aggregate', sliceItems', by rw [hitems]; rfl, ?_, by simpa using hpending', ?_⟩
      · rw [advance_item]
        simpa using hrun
      · rw [← List.append_assoc] at hsought
        exact hsought.prepend fun _ _ => ⟨isBeyond_of_clamped hbeyond, trivial⟩
    · rw [if_neg hskip]
      have hbeyond : seek.isBeyond items.isEmpty (addItem c.seekDimension item) = false := by
        apply not_isBeyond_of_stays hskip
        intro hstack hempty
        have hlast := (hinside (by simpa using hstack)).2
        rwa [hend (by simp), List.isEmpty_iff.mp hempty] at hlast
      have hat := At.item (e := ⟨leafOf (left ++ item :: items), left.length, c.seekDimension, c.sumDimension⟩)
        hleads rfl rfl
      refine ⟨[], item :: items, _, aggregate, sliceItems, rfl, ?_, by simpa using hpending,
        .inr ⟨by simp, by simpa using hat⟩, ?_⟩
      · rw [hbeyond, if_neg (by decide), enter_eq hroom]
        rfl
      · intro hclamp _
        refine ⟨trivial, ?_⟩
        rwa [isBeyond_unclamped hclamp] at hbeyond

variable [ExactDimension σ S] [ExactDimension σ U] [ExactDimension σ D]

def Descends (treeBase leafMin : Nat) (kind : AggregateKind) (seek : SeekTarget S) (root : SumTree α σ)
    (before after : List α) (taken items : List α) (c : Cursor α σ S U)
    (found : Option (Seeking α σ S U D × Bool)) : Prop :=
  ∃ l r stack aggregate, items = l ++ r ∧ found = some (((c.pass l).onStack stack, aggregate), false) ∧
    Collected treeBase leafMin kind (taken ++ l) aggregate ∧ Sought seek root c before after l r stack

omit [ExactDimension σ U] [ExactDimension σ D] in
theorem descend_leaf (hmin : leafMin ≤ treeBase) (hpos : 0 < leafMin) {items : List α}
    (hlen : items.length ≤ 2 * treeBase) (c : Cursor α σ S U)
    (hleads : Leads root c.stack (leafOf items) before after)
    (hcollected : Collected treeBase leafMin kind taken aggregate) (hfits : Fits treeBase (taken ++ items))
    (hinside : c.stack ≠ [] → items ≠ [] ∧ seek.isBeyond true (measure c.seekDimension items) = false)
    (hroom : c.stack.length < 16) :
    Descends treeBase leafMin kind seek root before after taken items c
      (descend treeBase seek (c, aggregate) (leafOf items)) := by
  have hend : items ≠ [] →
      Dimension.addSummary c.seekDimension (itemsSummary items : σ) = measure c.seekDimension items :=
    addSummary_itemsSummary _
  obtain ⟨l, r, stack, aggregate', sliceItems', hitems, hrun, hpending, hsought⟩ :=
    descendItems_spec items [] c SliceItems.empty hleads hend hcollected.pending
      (fun hne => ⟨(hinside hne).1, by rw [hend (hinside hne).1]; exact (hinside hne).2⟩) hroom
  have hsub : l.length ≤ items.length := by
    rw [hitems, List.length_append]
    omega
  rw [hitems, ← List.append_assoc] at hfits
  obtain ⟨aggregate'', hflush, hcollected'⟩ := hpending.flush hmin hpos (by simp; omega) hfits.append_left
  refine ⟨l, r, stack, aggregate'', hitems, ?_, hcollected', by simpa using hsought⟩
  rw [leafOf, descend]
  rw [leafOf] at hrun
  simp only [List.nil_append, List.length_nil] at hrun
  rw [hrun, Option.bind_some, hflush]
  rfl

theorem descendChildren_spec (hmin : leafMin ≤ treeBase) (hpos : 0 < leafMin)
    (ih : ∀ (tree : SumTree α σ) (c : Cursor α σ S U) (aggregate : SeekAggregate α σ D) (before after taken : List α),
      Balanced treeBase leafMin height tree → Leads root c.stack tree before after →
      Collected treeBase leafMin kind taken aggregate → Fits treeBase (taken ++ tree.toList) →
      (c.stack ≠ [] → tree.toList ≠ [] ∧ seek.isBeyond true (measure c.seekDimension tree.toList) = false) →
      height + c.stack.length < 16 →
      Descends treeBase leafMin kind seek root before after taken tree.toList c
        (descend treeBase seek (c, aggregate) tree))
    (trees left : List (SumTree α σ)) (c : Cursor α σ S U) {level : Nat}
    (hchildren : Children treeBase leafMin height trees)
    (hleads : Leads root c.stack (nodeOf level (left ++ trees)) before after)
    (hend : trees ≠ [] → maxEnd = measure c.seekDimension (trees.flatMap toList))
    (hcollected : Collected treeBase leafMin kind taken aggregate)
    (hfits : Fits treeBase (taken ++ trees.flatMap toList))
    (hinside : c.stack ≠ [] → trees ≠ [] ∧ seek.isBeyond true maxEnd = false)
    (hroom : height + 1 + c.stack.length < 16) :
    Descends treeBase leafMin kind seek root (before ++ left.flatMap toList) after taken (trees.flatMap toList) c
      (descendChildren treeBase seek (nodeOf level (left ++ trees)) maxEnd (left ++ trees).length left.length
        (c, aggregate) (trees.map SumTree.summary) trees) := by
  have hbase : 0 < treeBase := hpos.trans_le hmin
  induction trees generalizing left c aggregate taken with
  | nil =>
    have hstack : c.stack = [] := by
      by_contra hne
      exact (hinside hne).1 rfl
    refine ⟨[], [], [], aggregate, rfl, ?_, by simpa using hcollected, .inl ⟨hstack, rfl, rfl⟩,
      fun _ _ => ⟨trivial, trivial⟩⟩
    rw [pass_nil, onStack, ← hstack]
    simp [descendChildren]
  | cons tree trees iht =>
    have hbalanced := (hchildren tree (by simp)).1
    have hne : tree.toList ≠ [] := hchildren.ne_nil hpos hbase (by simp)
    have hlast : (left.length == (left ++ tree :: trees).length - 1) = trees.isEmpty := by
      cases trees with
      | nil => simp
      | cons => simp
    have hchild : c.childEnd trees.isEmpty maxEnd tree.summary = measure c.seekDimension tree.toList := by
      rw [← hbalanced.addSummary hne]
      apply childEnd_of_last
      intro hempty
      rw [hend (by simp), List.isEmpty_iff.mp hempty, hbalanced.addSummary hne]
      simp
    rw [List.flatMap_cons, ← List.append_assoc] at hfits
    rw [List.map_cons, descendChildren, hlast, hchild]
    by_cases hskip : ((c.stack.isEmpty || !trees.isEmpty) &&
        seek.isBeyond trees.isEmpty (measure c.seekDimension tree.toList)) = true
    · obtain ⟨aggregate', hpush, hcollected'⟩ := hcollected.pushChild hmin hpos hbalanced hne hfits.append_left
      rw [if_pos hskip, hpush, Option.bind_some, c.advance_tree hbalanced hne]
      rw [Bool.and_eq_true, Bool.or_eq_true] at hskip
      obtain ⟨hstep, hbeyond⟩ := hskip
      have hinside' : c.stack ≠ [] → trees ≠ [] ∧ seek.isBeyond true maxEnd = false := by
        intro hne
        refine ⟨?_, (hinside hne).2⟩
        intro hnil
        rw [hnil] at hstep
        simp [hne] at hstep
      obtain ⟨l, r, stack, aggregate'', hitems, hrun, hcollected'', hsought⟩ :=
        iht (left ++ [tree]) (c.pass tree.toList) (hchildren.sublist (by simp)) (by simpa using hleads)
          (by intro hne; rw [hend (by simp), List.flatMap_cons, measure_append]; rfl) hcollected' hfits
          hinside' hroom
      refine ⟨tree.toList ++ l, r, stack, aggregate'', by rw [List.flatMap_cons, hitems, List.append_assoc],
        by simpa using hrun, by simpa using hcollected'', ?_⟩
      simp only [List.flatMap_append, List.flatMap_singleton, ← List.append_assoc] at hsought
      apply hsought.prepend
      intro _ hordered
      exact hordered.allBeyond (isBeyond_of_clamped hbeyond)
    · have hbeyond : seek.isBeyond trees.isEmpty (measure c.seekDimension tree.toList) = false := by
        apply not_isBeyond_of_stays hskip
        intro hstack hempty
        have hlast := (hinside (by simpa using hstack)).2
        rw [hend (by simp), List.isEmpty_iff.mp hempty] at hlast
        simpa using hlast
      have hentry := Leads.child (e := ⟨nodeOf level (left ++ tree :: trees), left.length, c.seekDimension,
        c.sumDimension⟩) hleads rfl rfl
      obtain ⟨l, r, stack, aggregate', hitems, hrun, hcollected', hsought⟩ :=
        ih tree (c.entered (nodeOf level (left ++ tree :: trees)) left.length) aggregate
          (before ++ left.flatMap toList) (trees.flatMap toList ++ after) taken hbalanced hentry hcollected
          hfits.append_left (fun _ => ⟨hne, not_isBeyond_clamped hbeyond⟩)
          (by simp only [entered_stack, List.length_cons]; omega)
      have hr : r ≠ [] ∧ At root stack (before ++ left.flatMap toList ++ l)
          (r ++ (trees.flatMap toList ++ after)) := by
        cases hsought.lands with
        | inl hroot => exact absurd hroot.1 (by simp)
        | inr hat => exact hat
      rw [if_neg hskip, enter_eq (by simp only; omega), Option.bind_some, hrun, Option.map_some, hbeyond]
      refine ⟨l, r ++ trees.flatMap toList, stack, aggregate', by rw [List.flatMap_cons, hitems, List.append_assoc],
        rfl, hcollected', .inr ⟨by simp [hr.1], by simpa using hr.2⟩, ?_⟩
      intro hclamp hordered
      rw [← List.append_assoc, ← hitems, ordered_append] at hordered
      have hhalts := hsought.halts hclamp (by rw [← hitems]; exact hordered.1)
      refine ⟨hhalts.1, ?_⟩
      cases r with
      | nil => exact absurd rfl hr.1
      | cons x r => exact hhalts.2

theorem descend_spec (hmin : leafMin ≤ treeBase) (hpos : 0 < leafMin) (c : Cursor α σ S U)
    (h : Balanced treeBase leafMin height tree) (hleads : Leads root c.stack tree before after)
    (hcollected : Collected treeBase leafMin kind taken aggregate) (hfits : Fits treeBase (taken ++ tree.toList))
    (hinside : c.stack ≠ [] → tree.toList ≠ [] ∧ seek.isBeyond true (measure c.seekDimension tree.toList) = false)
    (hroom : height + c.stack.length < 16) :
    Descends treeBase leafMin kind seek root before after taken tree.toList c
      (descend treeBase seek (c, aggregate) tree) := by
  induction height generalizing tree c aggregate before after taken with
  | zero =>
    obtain ⟨items, rfl, hlen⟩ := balanced_zero.mp h
    rw [toList_leafOf] at hfits hinside ⊢
    exact descend_leaf hmin hpos hlen c hleads hcollected hfits hinside (by omega)
  | succ height ih =>
    obtain ⟨trees, rfl, hnil, hlen, hchildren⟩ := balanced_succ.mp h
    have hne := h.ne_nil hpos (by rw [size_nodeOf]; exact List.length_pos_of_ne_nil hnil)
    have hend := h.addSummary (δ := S) hne c.seekDimension
    rw [toList_nodeOf] at hfits hinside hend ⊢
    have hspec := descendChildren_spec hmin hpos
      (fun tree c aggregate before after taken h1 h2 h3 h4 h5 h6 => ih c h1 h2 h3 h4 h5 h6) trees [] c hchildren
      hleads (fun _ => hend) hcollected hfits (fun hstack => ⟨hnil, by rw [hend]; exact (hinside hstack).2⟩) hroom
    simp only [List.flatMap_nil, List.append_nil, List.nil_append, List.length_nil] at hspec
    rw [nodeOf, descend]
    exact hspec

end Descend

end Cursor

end InfiniShell.SumTree
