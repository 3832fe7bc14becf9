import InfiniShell.SumTree.ListRefinement

namespace InfiniShell.SumTree.Cursor

variable {α σ S U D : Type} [AddMonoid σ] [Item α σ] [LinearOrder S] [Dimension σ S] [Dimension σ U] [Dimension σ D]
variable [ExactDimension σ S] [ExactDimension σ U] [ExactDimension σ D]
variable {treeBase leafMin height : Nat} {c : Cursor α σ S U} {tree : SumTree α σ} {pre post : List α}

structure StandsAt (c : Cursor α σ S U) (pre post : List α) : Prop where
  stands : c = Cursor.new c.tree ∧ pre = [] ∧ post = c.tree.toList ∨ c.didSeek = true ∧ Stands c pre post
  seek : c.seekDimension = measure (Dimension.default σ) pre
  sum : c.sumDimension = measure (Dimension.default σ) pre
  entered : ¬ LeftStart c

section Seek

variable {q : SeekTarget S} {kind : AggregateKind} {aggregate : SeekAggregate α σ D}

omit [LinearOrder S] [ExactDimension σ S] [ExactDimension σ U] in
theorem standsAt_new (tree : SumTree α σ) : StandsAt (Cursor.new tree : Cursor α σ S U) [] tree.toList :=
  ⟨.inl ⟨rfl, rfl, rfl⟩, rfl, rfl, not_leftStart_new tree⟩

omit [LinearOrder S] [ExactDimension σ S] [ExactDimension σ U] in
theorem StandsAt.toList (h : StandsAt c pre post) : c.tree.toList = pre ++ post := by
  obtain ⟨-, rfl, rfl⟩ | ⟨-, hstands⟩ := h.stands
  · rfl
  · exact hstands.toList

omit [LinearOrder S] [ExactDimension σ S] [ExactDimension σ U] in
theorem StandsAt.item_eq (h : StandsAt c pre post) (hseek : c.didSeek = true)
    (htree : Balanced treeBase leafMin height c.tree) : c.item = some post.head? := by
  obtain ⟨hnew, -, -⟩ | ⟨-, hstands⟩ := h.stands
  · rw [hnew] at hseek
    exact absurd hseek Bool.false_ne_true
  · cases hstands with
    | item _ hat => exact item_at hseek hat
    | atEnd hend hstack =>
      rw [item, if_pos hseek, hstack]
      rfl
    | beforeFirst hend hstack =>
      have hempty : c.tree.isEmpty = true := by
        by_contra hne
        exact h.entered ⟨hseek, hstack, hend, Bool.not_eq_true _ ▸ hne⟩
      rw [item, if_pos hseek, hstack, htree.eq_empty hempty]
      rfl
    | emptyLeaf hend hstack hentry hindex hempty =>
      rw [item, if_pos hseek, hstack]
      simp [hentry, hempty, leafOf, hindex]

/-- What a seek onwards makes of a cursor: it passes some of the items before it. -/
structure SeeksOn (treeBase leafMin : Nat) (kind : AggregateKind) (q : SeekTarget S) (c : Cursor α σ S U)
    (pre post : List α) (c' : Cursor α σ S U) (aggregate : SeekAggregate α σ D) (l r : List α) : Prop where
  tree : c'.tree = c.tree
  didSeek : c'.didSeek = true
  standsAt : StandsAt c' (pre ++ l) r
  items : post = l ++ r
  collected : Collected treeBase leafMin kind l aggregate
  halts : Halts q c.seekDimension l r

omit [ExactDimension σ S] [ExactDimension σ U] [ExactDimension σ D] in
theorem Moves.seeksOn {c₀ : Cursor α σ S U} {result : Option (Seeking α σ S U D × Bool)}
    (h : Moves treeBase leafMin kind q c₀.tree pre post [] c₀ result) (hseek : c₀.didSeek = true)
    (htree : c₀.tree = c.tree) (hdimension : c₀.seekDimension = c.seekDimension)
    (hitems : c.tree.toList = pre ++ post) (hpre : c₀.seekDimension = measure (Dimension.default σ) pre)
    (hpre' : c₀.sumDimension = measure (Dimension.default σ) pre) :
    ∃ c' aggregate found l r, result = some ((c', aggregate), found) ∧
      SeeksOn treeBase leafMin kind q c pre post c' aggregate l r := by
  obtain ⟨l, r, stack, aggregate, found, hpost, hresult, hlands, hcollected, hhalts⟩ := h
  refine ⟨_, aggregate, found, l, r, hresult, htree, hseek, ⟨.inr ⟨hseek, ?_⟩, ?_, ?_, ?_⟩, hpost,
    by simpa using hcollected, hdimension ▸ hhalts⟩
  · exact Lands.stands (c := c₀.pass l) hlands rfl (by rw [pass_tree, htree, hitems, hpost, List.append_assoc])
  · rw [measure_append, ← hpre]
    rfl
  · rw [measure_append, ← hpre']
    rfl
  · rintro ⟨-, hstack, hend, -⟩
    have hstack' : stack = [] := hstack
    rw [hstack'] at hend
    exact absurd hend nofun

theorem StandsAt.seekInternal {k : AggregateKind} {g : SeekAggregate α σ D} (h : StandsAt c pre post) (hmin : leafMin ≤ treeBase) (hpos : 0 < leafMin)
    (htree : Balanced treeBase leafMin height c.tree) (hheight : height < 16) (hfits : Fits treeBase c.tree.toList)
    (htarget : c.seekDimension ≤ q.target) (hcollected : Collected treeBase leafMin k [] g) :
    ∃ c' g' found l r, c.seekInternal treeBase q g = some ((c', g'), found) ∧
      SeeksOn treeBase leafMin k q c pre post c' g' l r := by
  obtain ⟨hnew, rfl, rfl⟩ | ⟨hseek, hstands⟩ := h.stands
  · have htarget' : Dimension.default σ ≤ q.target := by
      rw [h.seek] at htarget
      exact htarget
    have hmoves := seekInternal_new (U := U) (S := S) hmin hpos htree hheight htarget' hcollected hfits
    rw [← hnew] at hmoves
    exact Moves.seeksOn (c := c) hmoves rfl rfl rfl rfl h.seek h.sum
  · have hstanding : Standing c := ⟨hseek, pre, post, hstands, h.seek, h.sum⟩
    obtain ⟨pre', post', hstands', -, -, hmoves⟩ :=
      hstanding.seekInternal hmin hpos htree hheight hfits h.entered htarget hcollected
    have hpre : pre = pre' := by
      have hlen := hstands.position_eq.symm.trans hstands'.position_eq
      have hsame := hstands.toList.symm.trans hstands'.toList
      exact (List.append_inj hsame hlen).1
    have hpost : post = post' := by
      have hsame := hstands.toList.symm.trans hstands'.toList
      rw [hpre] at hsame
      exact List.append_cancel_left hsame
    subst hpre hpost
    exact hmoves.seeksOn hseek rfl rfl hstands.toList h.seek h.sum

variable {pos : S}

theorem StandsAt.seekTo (htree : c.tree = tree) (hmin : leafMin ≤ treeBase) (hpos : 0 < leafMin)
    (hbalanced : Balanced treeBase leafMin height tree) (hheight : height < 16) (hfits : Fits treeBase tree.toList) (bias : SeekBias) (htarget : Dimension.default σ ≤ pos) :
    ∃ c' found l r, c.seekTo treeBase pos bias = some (c', found) ∧
      SeeksOn treeBase leafMin .none ⟨pos, bias, false⟩ (Cursor.new tree : Cursor α σ S U) [] tree.toList c'
        (.none : SeekAggregate α σ Unit) l r := by
  subst htree
  obtain ⟨c', aggregate, found, l, r, hresult, hseeks⟩ :=
    (standsAt_new c.tree : StandsAt (Cursor.new c.tree : Cursor α σ S U) _ _).seekInternal
      (q := ⟨pos, bias, false⟩) (k := .none) (g := (.none : SeekAggregate α σ Unit)) hmin hpos hbalanced
      hheight hfits htarget rfl
  cases aggregate with
  | none => exact ⟨c', found, l, r, by rw [Cursor.seekTo, reset, hresult]; rfl, hseeks⟩
  | slice => cases hseeks.collected.1
  | summary => cases hseeks.collected.1

theorem StandsAt.slice (h : StandsAt c pre post) (hmin : leafMin ≤ treeBase) (hpos : 0 < leafMin)
    (htree : Balanced treeBase leafMin height c.tree) (hheight : height < 16) (hfits : Fits treeBase c.tree.toList) (bias : SeekBias) (htarget : c.seekDimension ≤ pos) :
    ∃ c' slice l r, c.slice treeBase pos bias = some (c', slice) ∧
      SeeksOn treeBase leafMin .slice ⟨pos, bias, false⟩ c pre post c'
        (.slice slice : SeekAggregate α σ Unit) l r := by
  obtain ⟨c', aggregate, found, l, r, hresult, hseeks⟩ := h.seekInternal (q := ⟨pos, bias, false⟩) (k := .slice)
    (g := (.slice SumTree.new : SeekAggregate α σ Unit)) hmin hpos htree hheight hfits htarget
    ⟨rfl, new_balanced, toList_new⟩
  cases aggregate with
  | none => cases hseeks.collected
  | slice slice => exact ⟨c', slice, l, r, by rw [Cursor.slice, hresult, Option.bind_some], hseeks⟩
  | summary => cases hseeks.collected.1

theorem StandsAt.summary (h : StandsAt c pre post) (hmin : leafMin ≤ treeBase) (hpos : 0 < leafMin)
    (htree : Balanced treeBase leafMin height c.tree) (hheight : height < 16) (hfits : Fits treeBase c.tree.toList) (bias : SeekBias) (htarget : c.seekDimension ≤ pos) :
    ∃ c' d l r, c.summary treeBase pos bias = some (c', d) ∧
      SeeksOn treeBase leafMin .summary ⟨pos, bias, false⟩ c pre post c' (.summary d : SeekAggregate α σ D) l r := by
  obtain ⟨c', aggregate, found, l, r, hresult, hseeks⟩ := h.seekInternal (q := ⟨pos, bias, false⟩)
    (k := .summary) (g := (.summary (Dimension.default σ) : SeekAggregate α σ D)) hmin hpos htree hheight
    hfits htarget ⟨rfl, rfl⟩
  cases aggregate with
  | none => exact absurd hseeks.collected nofun
  | slice => exact absurd hseeks.collected.1 nofun
  | summary d => exact ⟨c', d, l, r, by rw [Cursor.summary, hresult, Option.bind_some], hseeks⟩

end Seek

section Positions

variable {q : SeekTarget S} {kind : AggregateKind} {aggregate : SeekAggregate α σ D} {c' : Cursor α σ S U}
  {l r items : List α}

omit [ExactDimension σ S] [ExactDimension σ U] [ExactDimension σ D] in
theorem SeeksOn.skipped_eq (h : SeeksOn treeBase leafMin kind q c pre post c' aggregate l r) (hclamp : q.clampMax = false)
    (hordered : Ordered c.seekDimension post) : skipped q c.seekDimension post = l := by
  have hitems := h.items
  subst hitems
  obtain ⟨hall, hhalted⟩ := h.halts hclamp hordered
  exact SumTree.skipped_eq hall hhalted

omit [AddMonoid σ] [ExactDimension σ S] in
theorem measure_le_target {d : S} (h : AllBeyond q d items) (hd : d ≤ q.target) : measure d items ≤ q.target := by
  induction items generalizing d with
  | nil => exact hd
  | cons x items ih =>
    refine ih h.2 ?_
    obtain hlt | heq := isBeyond_iff.mp h.1
    · exact hlt.le
    · exact heq.1.ge

omit [ExactDimension σ S] [ExactDimension σ U] [ExactDimension σ D] in
theorem SeeksOn.le_target (h : SeeksOn treeBase leafMin kind q c pre post c' aggregate l r)
    (hpre : c.seekDimension = measure (Dimension.default σ) pre) (hclamp : q.clampMax = false)
    (hordered : Ordered c.seekDimension post) (hle : c.seekDimension ≤ q.target) : c'.seekDimension ≤ q.target := by
  rw [h.standsAt.seek, measure_append, ← hpre]
  rw [h.items] at hordered
  exact measure_le_target (h.halts hclamp hordered).1 hle

end Positions

/-- A seek to `pos` stops at an item with the cumulative end `e`. -/
def Reaches (pos : S) (bias : SeekBias) (e : S) : Prop :=
  match bias with
  | .left => pos ≤ e
  | .right => pos < e

theorem isBeyond_iff_not_reaches {pos : S} {bias : SeekBias} {e : S} :
    (⟨pos, bias, false⟩ : SeekTarget S).isBeyond false e = true ↔ ¬Reaches pos bias e := by
  rw [isBeyond_iff]
  cases bias with
  | left => simp [Reaches]
  | right =>
    simp only [Reaches, not_lt, and_true]
    rw [le_iff_lt_or_eq, eq_comm (a := e)]

/-- The cursor shows the first item whose cumulative end reaches the target, or none if there is no such item. -/
def StopsAtFirst (c : Cursor α σ S U) (pos : S) (bias : SeekBias) : Prop :=
  ∃ k ≤ c.tree.toList.length, c.item = some c.tree.toList[k]? ∧
    (∀ j < k, ¬Reaches pos bias (measure (Dimension.default σ) (c.tree.toList.take (j + 1)))) ∧
    (k < c.tree.toList.length → Reaches pos bias (measure (Dimension.default σ) (c.tree.toList.take (k + 1))))

/-- The cursor that the slices start from: a new one, or one that did seek. -/
def begin (treeBase : Nat) (tree : SumTree α σ) : Option (S × SeekBias) → Option (Cursor α σ S U)
  | none => some (Cursor.new tree)
  | some target => ((Cursor.new tree).seekTo treeBase target.1 target.2).map Prod.fst

/-- Consecutive calls of `slice`. -/
def slices (treeBase : Nat) (c : Cursor α σ S U) : List (S × SeekBias) → Option (Cursor α σ S U × List (SumTree α σ))
  | [] => some (c, [])
  | target :: targets =>
    (c.slice treeBase target.1 target.2).bind fun cut =>
      (slices treeBase cut.1 targets).map fun rest => (rest.1, cut.2 :: rest.2)

/-- The sub-lists that the slices cut from the items behind `d`, and what they leave. -/
def cuts (d : S) (items : List α) : List (S × SeekBias) → List (List α) × List α
  | [] => ([], items)
  | target :: targets =>
    let l := skipped ⟨target.1, target.2, false⟩ d items
    let rest := cuts (measure d l) (items.drop l.length) targets
    (l :: rest.1, rest.2)

omit [AddMonoid σ] [ExactDimension σ S] in
theorem cuts_flatten (d : S) (items : List α) (targets : List (S × SeekBias)) :
    (cuts d items targets).1.flatten ++ (cuts d items targets).2 = items := by
  induction targets generalizing d items with
  | nil => rfl
  | cons target targets ih =>
    have hprefix : ∀ (d : S) (items : List α), skipped ⟨target.1, target.2, false⟩ d items ++
        items.drop (skipped ⟨target.1, target.2, false⟩ d items).length = items := by
      intro d items
      induction items generalizing d with
      | nil => rfl
      | cons x items ihx =>
        rw [skipped]
        split
        · rw [List.cons_append, List.length_cons, List.drop_succ_cons, ihx]
        · rfl
    rw [cuts, List.flatten_cons, List.append_assoc, ih, hprefix]

section Runs

variable (hmin : leafMin ≤ treeBase) (hpos : 0 < leafMin) (hbalanced : Balanced treeBase leafMin height tree)
  (hheight : height < 16) (hfits : Fits treeBase tree.toList) (hordered : Ordered (Dimension.default σ : S) tree.toList)

include hmin hpos hbalanced hheight hfits hordered

variable {pos : S}

theorem seek_stopsAtFirst (htree : c.tree = tree) (bias : SeekBias) (htarget : Dimension.default σ ≤ pos) :
    ∃ c' found, c.seekTo treeBase pos bias = some (c', found) ∧ c'.tree = tree ∧ StopsAtFirst c' pos bias := by
  obtain ⟨c', found, l, r, hresult, hseeks⟩ := StandsAt.seekTo htree hmin hpos hbalanced hheight hfits bias htarget
  have htree' : c'.tree = tree := hseeks.tree
  refine ⟨c', found, hresult, htree', l.length, ?_⟩
  have hbalanced' : Balanced treeBase leafMin height c'.tree := by rwa [htree']
  have hitem := hseeks.standsAt.item_eq hseeks.didSeek hbalanced'
  have hitems : tree.toList = l ++ r := hseeks.items
  rw [hitems] at hordered
  obtain ⟨hall, hhalted⟩ := hseeks.halts rfl hordered
  rw [htree', hitems]
  refine ⟨by simp, ?_, fun j hj hreaches => ?_, fun hk => ?_⟩
  · rw [hitem, List.getElem?_append_right (Nat.le_refl _), Nat.sub_self, List.head?_eq_getElem?]
  · rw [List.take_append_of_le_length hj, List.take_succ_eq_append_getElem hj] at hreaches
    have hsplit : l = (l.take j ++ [l[j]]) ++ l.drop (j + 1) := by
      rw [← List.take_succ_eq_append_getElem hj, List.take_append_drop]
    rw [hsplit, allBeyond_append, allBeyond_append] at hall
    have hbeyond := hall.1.2.1
    rw [isBeyond_iff_not_reaches] at hbeyond
    rw [measure_append] at hreaches
    exact hbeyond hreaches
  · cases r with
    | nil => simp at hk
    | cons x r =>
      have htake : (l ++ x :: r).take (l.length + 1) = l ++ [x] := by simp [List.take_append]
      have hnot : ¬(⟨pos, bias, false⟩ : SeekTarget S).isBeyond false
          (addItem (measure (Dimension.default σ) l) x) = true := Bool.eq_false_iff.mp hhalted
      rw [isBeyond_iff_not_reaches, not_not] at hnot
      rw [htake, measure_append]
      exact hnot

theorem begin_standsAt (start : Option (S × SeekBias)) (htarget : ∀ target, start = some target → Dimension.default σ ≤ target.1) :
    ∃ c : Cursor α σ S U, begin treeBase tree start = some c ∧ c.tree = tree ∧
      (∀ target, start = some target → c.seekDimension ≤ target.1) ∧
      (start = none → c.seekDimension = Dimension.default σ) ∧
      ∃ l r, StandsAt c l r ∧
        l = start.elim [] fun target => skipped ⟨target.1, target.2, false⟩ (Dimension.default σ) tree.toList := by
  cases start with
  | none => exact ⟨Cursor.new tree, rfl, rfl, nofun, fun _ => rfl, [], tree.toList, standsAt_new tree, rfl⟩
  | some target =>
    have hle := htarget target rfl
    obtain ⟨c', found, l, r, hresult, hseeks⟩ := StandsAt.seekTo (c := (Cursor.new tree : Cursor α σ S U)) rfl hmin
      hpos hbalanced hheight hfits target.2 hle
    refine ⟨c', by rw [begin, hresult]; rfl, hseeks.tree, ?_, nofun, l, r, hseeks.standsAt, ?_⟩
    · rintro _ ⟨⟩
      exact hseeks.le_target rfl rfl hordered hle
    · exact (hseeks.skipped_eq rfl hordered).symm

theorem slices_standsAt (htree : c.tree = tree) (hstands : StandsAt c pre post) (targets : List (S × SeekBias))
    (hfirst : ∀ target ∈ targets, c.seekDimension ≤ target.1) (hsorted : (targets.map Prod.fst).Pairwise (· ≤ ·)) :
    ∃ c' pieces l, c.slices treeBase targets = some (c', pieces) ∧ c'.tree = tree ∧
      pieces.map SumTree.toList = (cuts c.seekDimension post targets).1 ∧
      StandsAt c' (pre ++ l) (cuts c.seekDimension post targets).2 ∧
      ∀ bound, c.seekDimension ≤ bound → (∀ target ∈ targets, target.1 ≤ bound) → c'.seekDimension ≤ bound := by
  induction targets generalizing c pre post with
  | nil => exact ⟨c, [], [], rfl, htree, rfl, by rwa [List.append_nil], fun _ hbound _ => hbound⟩
  | cons target targets ih =>
    subst htree
    obtain ⟨c₁, piece, l, r, hslice, hseeks⟩ := hstands.slice hmin hpos hbalanced hheight hfits target.2
      (hfirst target List.mem_cons_self)
    have hitems := hstands.toList
    have hordered' : Ordered c.seekDimension post := by
      rw [hitems, ordered_append] at hordered
      rw [hstands.seek]
      exact hordered.2
    have hskipped := hseeks.skipped_eq rfl hordered'
    have hle := hseeks.le_target hstands.seek rfl hordered' (hfirst target List.mem_cons_self)
    rw [List.map_cons, List.pairwise_cons] at hsorted
    obtain ⟨c', pieces, l', hslices, htree', hpieces, hstands', hbound⟩ := ih hseeks.tree hseeks.standsAt
      (fun next hnext => hle.trans (hsorted.1 next.1 (List.mem_map_of_mem hnext))) hsorted.2
    have hdimension : c₁.seekDimension = measure c.seekDimension l := by
      rw [hseeks.standsAt.seek, measure_append, hstands.seek]
    have hdrop : post.drop l.length = r := by rw [hseeks.items, List.drop_left]
    have hcuts : cuts c.seekDimension post (target :: targets) =
        (l :: (cuts c₁.seekDimension r targets).1, (cuts c₁.seekDimension r targets).2) := by
      rw [cuts]
      simp only [hskipped, hdrop, hdimension]
    refine ⟨c', piece :: pieces, l ++ l', ?_, htree', ?_, ?_, ?_⟩
    · rw [slices, hslice, Option.bind_some, hslices]
      rfl
    · rw [hcuts, List.map_cons, hpieces, hseeks.collected.2.toList]
    · rw [hcuts, ← List.append_assoc]
      exact hstands'
    · intro bound hc hall
      exact hbound bound (hle.trans (hall target List.mem_cons_self)) fun next hnext =>
        hall next (List.mem_cons_of_mem _ hnext)

theorem suffix_standsAt (htree : c.tree = tree) (hstands : StandsAt c pre post)
    (htarget : c.seekDimension ≤ extent tree) :
    ∃ c' rest, c.suffix treeBase = some (c', rest) ∧ Built treeBase leafMin post rest := by
  subst htree
  obtain ⟨c', rest, l, r, hslice, hseeks⟩ := hstands.slice hmin hpos hbalanced hheight hfits .right htarget
  refine ⟨c', rest, hslice, hseeks.collected.2.balanced, hseeks.collected.2.toList.trans ?_⟩
  have hitems := hstands.toList
  have hordered' := hordered
  rw [hitems, ordered_append] at hordered'
  rw [← hstands.seek] at hordered'
  have hskipped := hseeks.skipped_eq rfl hordered'.2
  have hextent := Build.skipped_extent hordered (hbalanced.height_eq ▸ hbalanced) pre.length
  rw [hitems, List.take_left, List.drop_left, ← hstands.seek] at hextent
  exact hskipped.symm.trans hextent

theorem summary_eq_slice (htree : c.tree = tree) (hstands : StandsAt c pre post) (bias : SeekBias)
    (htarget : c.seekDimension ≤ pos) :
    ∃ c₁ slice c₂ d, c.slice treeBase pos bias = some (c₁, slice) ∧ c.summary (D := D) treeBase pos bias = some (c₂, d) ∧
      d = measure (Dimension.default σ) slice.toList ∧ (slice.toList ≠ [] → d = extent slice) := by
  subst htree
  have hordered' := hordered
  rw [hstands.toList, ordered_append, ← hstands.seek] at hordered'
  obtain ⟨c₁, slice, l, r, hslice, hseeks⟩ := hstands.slice hmin hpos hbalanced hheight hfits bias htarget
  obtain ⟨c₂, d, l', r', hsummary, hseeks'⟩ := hstands.summary (D := D) hmin hpos hbalanced hheight hfits bias htarget
  have hsame : l' = l :=
    (hseeks'.skipped_eq rfl hordered'.2).symm.trans (hseeks.skipped_eq rfl hordered'.2)
  have hlist : slice.toList = l := hseeks.collected.2.toList
  have hd : d = measure (Dimension.default σ) slice.toList := by
    rw [hlist, ← hsame]
    exact hseeks'.collected.2
  refine ⟨c₁, slice, c₂, d, hslice, hsummary, hd, fun hne => ?_⟩
  rw [hd]
  exact (hseeks.collected.2.balanced.addSummary hne _).symm

end Runs

/-- The items behind the cursor that the slices start from, and the dimension of those before it. -/
def remaining (items : List α) (start : Option (S × SeekBias)) : S × List α :=
  let passed := start.elim [] fun target => skipped ⟨target.1, target.2, false⟩ (Dimension.default σ) items
  (measure (Dimension.default σ) passed, items.drop passed.length)

/-- What the cursors of a tree do for every non-decreasing sequence of targets. -/
structure Partitioned (treeBase : Nat) (tree : SumTree α σ) (S U D : Type) [LinearOrder S] [Dimension σ S]
    [Dimension σ U] [Dimension σ D] : Prop where
  seeks : ∀ (c : Cursor α σ S U) (pos : S) (bias : SeekBias), c.tree = tree → Dimension.default σ ≤ pos →
    ∃ c' found, c.seekTo treeBase pos bias = some (c', found) ∧ c'.tree = tree ∧ StopsAtFirst c' pos bias
  slices : ∀ (start : Option (S × SeekBias)) (targets : List (S × SeekBias)),
    ((start.toList ++ targets).map Prod.fst).Pairwise (· ≤ ·) →
    (∀ target ∈ start.toList ++ targets, Dimension.default σ ≤ target.1) →
    ∃ (c c' : Cursor α σ S U) (pieces : List (SumTree α σ)),
      begin treeBase tree start = some c ∧ c.slices treeBase targets = some (c', pieces) ∧
      pieces.map toList = (cuts (remaining (σ := σ) tree.toList start).1 (remaining (σ := σ) tree.toList start).2 targets).1 ∧
      (∃ last rest, c'.suffix treeBase = some (last, rest) ∧
        pieces.flatMap toList ++ rest.toList = (remaining (S := S) (σ := σ) tree.toList start).2) ∧
      ∀ (pos : S) (bias : SeekBias), (∀ target ∈ start.toList ++ targets, target.1 ≤ pos) → Dimension.default σ ≤ pos →
        ∃ c₁ slice c₂ d, c'.slice treeBase pos bias = some (c₁, slice) ∧
          c'.summary (D := D) treeBase pos bias = some (c₂, d) ∧
          d = measure (Dimension.default σ) slice.toList ∧ (slice.toList ≠ [] → d = extent slice)

omit [LinearOrder S] [Dimension σ U] [ExactDimension σ U] in
theorem measure_le_extent [LinearOrder S] (hbalanced : Balanced treeBase leafMin height tree)
    (hordered : Ordered (Dimension.default σ : S) tree.toList) (hextent : (Dimension.default σ : S) ≤ extent tree)
    (hitems : tree.toList = pre ++ post) : measure (Dimension.default σ : S) pre ≤ extent tree := by
  by_cases hnil : tree.toList = []
  · rw [hnil] at hitems
    rw [(List.append_eq_nil_iff.mp hitems.symm).1]
    exact hextent
  · have hmeasure : (extent tree : S) = measure (Dimension.default σ) tree.toList := hbalanced.addSummary hnil _
    rw [hitems, ordered_append] at hordered
    rw [hmeasure, hitems, measure_append]
    exact hordered.2.le_measure

/-- Seeks stop at the first item that reaches the target, slices cut without loss, summaries are the slices'. -/
theorem cursor_partitions (hbase : 2 ≤ treeBase) (htree : Balanced treeBase 1 tree.height tree)
    (hheight : tree.height < 16) (hordered : Ordered (Dimension.default σ : S) tree.toList)
    (hextent : (Dimension.default σ : S) ≤ extent tree) : Partitioned treeBase tree S U D := by
  have hfits := htree.fits hbase hheight
  have hmin : 1 ≤ treeBase := by omega
  refine ⟨?_, ?_⟩
  · intro c pos bias hc htarget
    exact seek_stopsAtFirst hmin Nat.one_pos htree hheight hfits hordered hc bias htarget
  · intro start targets hsorted hdefault
    obtain ⟨c, hbegin, hc, hstart, hnew, l, r, hstands, hl⟩ := begin_standsAt (U := U) hmin Nat.one_pos htree hheight
      hfits hordered start fun target htarget => hdefault target (by simp [htarget])
    have hitems : tree.toList = l ++ r := hc ▸ hstands.toList
    have hremaining : remaining tree.toList start = (c.seekDimension, r) := by
      unfold remaining
      dsimp only
      rw [← hl, ← hstands.seek, hitems, List.drop_left]
    have hfirst : ∀ target ∈ targets, c.seekDimension ≤ target.1 := by
      intro target hmem
      cases start with
      | none =>
        rw [hnew rfl]
        exact hdefault target (by simp [hmem])
      | some first =>
        have hle : first.1 ≤ target.1 := by
          simp only [Option.toList_some, List.singleton_append, List.map_cons, List.pairwise_cons] at hsorted
          exact hsorted.1 target.1 (List.mem_map_of_mem hmem)
        exact (hstart first rfl).trans hle
    have hsorted' : (targets.map Prod.fst).Pairwise (· ≤ ·) := by
      rw [List.map_append] at hsorted
      exact (List.pairwise_append.mp hsorted).2.1
    obtain ⟨c', pieces, l', hslices, hc', hpieces, hstands', hbound⟩ :=
      slices_standsAt hmin Nat.one_pos htree hheight hfits hordered hc hstands targets hfirst hsorted'
    have hitems' : tree.toList = (l ++ l') ++ (cuts c.seekDimension r targets).2 := hc' ▸ hstands'.toList
    refine ⟨c, c', pieces, hbegin, hslices, by rw [hpieces, hremaining], ?_, ?_⟩
    · have hle : c'.seekDimension ≤ extent tree := by
        rw [hstands'.seek]
        exact measure_le_extent htree hordered hextent hitems'
      obtain ⟨last, rest, hsuffix, hrest⟩ :=
        suffix_standsAt hmin Nat.one_pos htree hheight hfits hordered hc' hstands' hle
      refine ⟨last, rest, hsuffix, ?_⟩
      rw [hremaining, hrest.toList, List.flatMap_def, hpieces]
      exact cuts_flatten _ _ _
    · intro pos bias hall hle
      have hc₀ : c.seekDimension ≤ pos := by
        cases start with
        | none =>
          rw [hnew rfl]
          exact hle
        | some first => exact (hstart first rfl).trans (hall first (by simp))
      exact summary_eq_slice hmin Nat.one_pos htree hheight hfits hordered hc' hstands' bias
        (hbound pos hc₀ fun target hmem => hall target (by simp [hmem]))

section Examples

/-- Items that count as one each. -/
local instance : Item Nat Nat := ⟨fun _ => 1⟩

local instance : Dimension Nat Nat := ⟨0, (· + ·)⟩

local instance : ExactDimension Nat Nat := ⟨Nat.add_assoc⟩

theorem cursor_partitions_sample :
    ∃ tree : SumTree Nat Nat, (Build.extend .new (List.range 13)).eval 6 = some tree ∧ Partitioned 6 tree Nat Nat Nat := by
  have hmeets : (Build.extend .new (List.range 13) : Build Nat Nat).Meets 6 1 :=
    ⟨trivial, by unfold Fits; decide +kernel⟩
  obtain ⟨tree, heval, hbuilt⟩ := Build.eval_built (by decide) (by decide) (by decide) _ hmeets
  have hheight : ((Build.extend .new (List.range 13)).eval 6).all (fun t : SumTree Nat Nat => t.height < 16) = true := by
    decide +kernel
  rw [heval] at hheight
  refine ⟨tree, heval, cursor_partitions (by decide) hbuilt.balanced (by simpa using hheight) ?_ (Nat.zero_le _)⟩
  exact count_ordered _ _

def fullTree : Nat → SumTree Nat Nat
  | 0 => leaf 6 (List.replicate 6 0) (List.replicate 6 1)
  | height + 1 =>
    internal (height + 1) (6 ^ (height + 2)) (List.replicate 6 (6 ^ (height + 1))) (List.replicate 6 (fullTree height))

theorem fullTree_balanced (height : Nat) : Balanced 6 6 height (fullTree height) := by
  induction height with
  | zero => decide
  | succ height ih =>
    have hsummary : (fullTree height).summary = 6 ^ (height + 1) := by
      cases height <;> rfl
    have hsize : (fullTree height).size = 6 := by
      cases height <;> rfl
    refine ⟨rfl, ?_, ?_, by simp, by simp, ?_⟩
    · rw [List.sum_replicate_nat, ← pow_succ']
    · rw [List.map_replicate, hsummary]
    · intro tree htree
      obtain rfl := (List.mem_replicate.mp htree).2
      refine ⟨ih, ?_⟩
      rw [hsize]
      exact minSize_le (Nat.le_refl 6)

local instance : Item Int Int := ⟨id⟩

local instance : Dimension Int Int := ⟨0, (· + ·)⟩

local instance : ExactDimension Int Int := ⟨Int.add_assoc⟩

/-- The first leaf adds up to zero, although its first item does not. -/
def fallingTree : SumTree Int Int :=
  internal 1 0 [0, 0] [leaf 0 [5, -5, 0, 0, 0, 0] [5, -5, 0, 0, 0, 0], leaf 0 [0, 0, 0, 0, 0, 0] [0, 0, 0, 0, 0, 0]]

/-- No room for a seventeenth entry; along a decreasing dimension a seek skips a leaf. -/
theorem not_all_partitioned :
    (¬∀ tree : SumTree Nat Nat, Balanced 6 6 tree.height tree → Partitioned 6 tree Nat Nat Nat) ∧
      ¬∀ tree : SumTree Int Int, Balanced 6 6 tree.height tree → tree.height < 16 → Partitioned 6 tree Int Int Int := by
  refine ⟨fun h => ?_, fun h => ?_⟩
  · obtain ⟨c, found, hseek, -⟩ := (h (fullTree 16) (fullTree_balanced 16)).seeks (Cursor.new (fullTree 16)) 0 .left
      rfl (Nat.zero_le _)
    have hnone : ((Cursor.new (fullTree 16) : Cursor Nat Nat Nat Nat).seekTo 6 0 .left).isNone = true := by
      decide +kernel
    rw [hseek] at hnone
    exact absurd hnone Bool.false_ne_true
  · obtain ⟨c, found, hseek, htree, k, -, hitem, hbefore, -⟩ := (h fallingTree (by decide) (by decide)).seeks
      (Cursor.new fallingTree) 3 .left rfl (by decide)
    have hpast : ((Cursor.new fallingTree : Cursor Int Int Int Int).seekTo 6 3 .left).map (fun found => found.1.item) =
        some (some none) := by
      decide +kernel
    rw [hseek, Option.map_some] at hpast
    rw [Option.some.inj hpast, htree] at hitem
    have hk : 12 ≤ k := List.getElem?_eq_none_iff.mp (Option.some.inj hitem).symm
    rw [htree] at hbefore
    exact hbefore 0 (by omega) (show (3 : Int) ≤ 5 by decide)

end Examples

end InfiniShell.SumTree.Cursor
