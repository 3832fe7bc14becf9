import InfiniShell.SumTree.Reseek

namespace InfiniShell.SumTree

section Size

variable {α σ : Type} [AddMonoid σ] [Item α σ] {treeBase leafMin height : Nat} {tree : SumTree α σ}

variable (h : Balanced treeBase leafMin height tree)
include h

theorem Balanced.length_le : tree.toList.length ≤ (2 * treeBase) ^ (height + 1) := by
  induction height generalizing tree with
  | zero =>
    obtain ⟨items, rfl, hlen⟩ := balanced_zero.mp h
    simpa using hlen
  | succ height ih =>
    obtain ⟨trees, rfl, -, hlen, hchildren⟩ := balanced_succ.mp h
    have hsum : (trees.flatMap toList).length ≤ trees.length * (2 * treeBase) ^ (height + 1) := by
      clear hlen h
      induction trees with
      | nil => simp
      | cons t trees iht =>
        have ht := ih (hchildren t (by simp)).1
        have hrest := iht (hchildren.sublist (by simp))
        rw [List.flatMap_cons, List.length_append, List.length_cons, Nat.succ_mul]
        omega
    rw [toList_nodeOf]
    calc (trees.flatMap toList).length ≤ trees.length * (2 * treeBase) ^ (height + 1) := hsum
      _ ≤ 2 * treeBase * (2 * treeBase) ^ (height + 1) := Nat.mul_le_mul_right _ hlen
      _ = (2 * treeBase) ^ (height + 1 + 1) := (pow_succ' _ _).symm

theorem Balanced.length_le_pow (hbase : 2 ≤ treeBase) (hheight : height < 16) :
    tree.toList.length ≤ treeBase ^ 32 := by
  have htwo : 2 ^ 16 ≤ treeBase ^ 16 := Nat.pow_le_pow_left hbase 16
  calc tree.toList.length ≤ (2 * treeBase) ^ (height + 1) := h.length_le
    _ ≤ (2 * treeBase) ^ 16 := Nat.pow_le_pow_right (by omega) hheight
    _ = 2 ^ 16 * treeBase ^ 16 := Nat.mul_pow _ _ _
    _ ≤ treeBase ^ 16 * treeBase ^ 16 := Nat.mul_le_mul_right _ htwo
    _ = treeBase ^ 32 := (pow_add _ _ _).symm

theorem Balanced.fits (hbase : 2 ≤ treeBase) (hheight : height < 16) : Fits treeBase tree.toList := by
  have hle := h.length_le_pow hbase hheight
  have hhigh : treeBase ^ 32 ≤ treeBase ^ 255 := Nat.pow_le_pow_right (by omega) (by omega)
  have hpos : 0 < treeBase ^ 255 := Nat.pow_pos (by omega)
  unfold Fits
  omega

end Size

namespace Cursor

variable {α σ S U : Type} [AddMonoid σ] [Item α σ] [Dimension σ S] [Dimension σ U]
variable {treeBase leafMin height : Nat} {c : Cursor α σ S U} {pre post : List α}

/-- At an item, behind the last one, before the first one, or in the empty leaf. -/
inductive Stands (c : Cursor α σ S U) : List α → List α → Prop
  | item {pre post : List α} (hend : c.atEnd = false) (hat : At c.tree c.stack pre post) : Stands c pre post
  | atEnd (hend : c.atEnd = true) (hstack : c.stack = []) : Stands c c.tree.toList []
  | beforeFirst (hend : c.atEnd = false) (hstack : c.stack = []) : Stands c [] c.tree.toList
  | emptyLeaf {e : StackEntry α σ S U} (hend : c.atEnd = false) (hstack : c.stack = [e]) (hentry : e.tree = c.tree)
      (hindex : e.index = 0) (hempty : c.tree = leafOf []) : Stands c [] []

/-- Both dimensions are the sums over the items before the cursor. -/
structure Standing (c : Cursor α σ S U) : Prop where
  didSeek : c.didSeek = true
  stands : ∃ pre post, Stands c pre post ∧ c.seekDimension = measure (Dimension.default σ) pre ∧
    c.sumDimension = measure (Dimension.default σ) pre

/-- What the calls show of a cursor: `k` items precede the one it returns, or it returns none before the
first item. -/
def Coherent (c : Cursor α σ S U) : Prop :=
  ∃ k ≤ c.tree.toList.length,
    c.seekDimension = measure (Dimension.default σ) (c.tree.toList.take k) ∧
    c.sumDimension = measure (Dimension.default σ) (c.tree.toList.take k) ∧
    c.prevItem = some (c.tree.toList.take k).getLast? ∧
    (c.item = some c.tree.toList[k]? ∨ k = 0 ∧ c.item = some none ∧ c.atEnd = false)

instance [DecidableEq S] [DecidableEq U] [DecidableEq α] (c : Cursor α σ S U) : Decidable (Coherent c) :=
  inferInstanceAs (Decidable (∃ k, k ≤ c.tree.toList.length ∧
    c.seekDimension = measure (Dimension.default σ) (c.tree.toList.take k) ∧
    c.sumDimension = measure (Dimension.default σ) (c.tree.toList.take k) ∧
    c.prevItem = some (c.tree.toList.take k).getLast? ∧
    (c.item = some c.tree.toList[k]? ∨ k = 0 ∧ c.item = some none ∧ c.atEnd = false)))

def position (c : Cursor α σ S U) : Nat :=
  match c.stack with
  | [] => if c.atEnd then c.tree.toList.length else 0
  | entry :: rest => (preceding rest).length + entry.index

omit [Dimension σ S] [Dimension σ U] in
theorem Stands.position_eq (h : Stands c pre post) : c.position = pre.length := by
  cases h with
  | @item _ _ hend hat =>
    rw [position]
    cases hstack : c.stack with
    | nil => exact absurd hstack hat.stack_ne_nil
    | cons entry rest =>
      rw [hstack] at hat
      cases hat with
      | item hleads hleaf hindex =>
        simp only [preceding_of_leads hleads, hindex, List.length_append]
  | atEnd hend hstack => simp [position, hstack, hend]
  | beforeFirst hend hstack => simp [position, hstack, hend]
  | emptyLeaf hend hstack hentry hindex hempty => simp [position, hstack, hindex, preceding]

omit [Dimension σ S] [Dimension σ U] in
theorem Stands.toList (h : Stands c pre post) : c.tree.toList = pre ++ post := by
  cases h with
  | item _ hat => exact hat.toList
  | atEnd => simp
  | beforeFirst => simp
  | emptyLeaf _ _ _ _ hempty => rw [hempty, toList_leafOf, List.append_nil]

theorem Standing.coherent (h : Standing c) (hpos : 0 < leafMin) (hbase : 0 < treeBase)
    (htree : Balanced treeBase leafMin height c.tree) : Coherent c := by
  obtain ⟨pre, post, hstands, hseek, hsum⟩ := h.stands
  have hitems := hstands.toList
  have htake : c.tree.toList.take pre.length = pre := by simp [hitems]
  have hget : c.tree.toList[pre.length]? = post.head? := by
    rw [hitems, List.getElem?_append_right (Nat.le_refl _), Nat.sub_self, List.head?_eq_getElem?]
  refine ⟨pre.length, by simp [hitems], by rw [htake, hseek], by rw [htake, hsum], ?_, ?_⟩
  · rw [htake]
    cases hstands with
    | item _ hat => exact prevItem_at hpos hbase htree h.didSeek hat
    | atEnd hend hstack =>
      rw [prevItem, if_pos h.didSeek, hstack]
      simp only [hend, if_true]
      exact last_spec hpos hbase htree
    | beforeFirst hend hstack =>
      rw [prevItem, if_pos h.didSeek, hstack]
      simp [hend]
    | emptyLeaf hend hstack hentry hindex hempty =>
      rw [prevItem, if_pos h.didSeek, hstack]
      simp [hindex, prevLeaf]
  · rw [hget]
    cases hstands with
    | item _ hat => exact .inl (item_at h.didSeek hat)
    | atEnd hend hstack => exact .inl (by rw [item, if_pos h.didSeek, hstack]; rfl)
    | beforeFirst hend hstack => exact .inr ⟨rfl, by rw [item, if_pos h.didSeek, hstack], hend⟩
    | emptyLeaf hend hstack hentry hindex hempty =>
      refine .inl ?_
      rw [item, if_pos h.didSeek, hstack]
      simp [hentry, hempty, leafOf, hindex]

def LeftStart (c : Cursor α σ S U) : Prop :=
  c.didSeek = true ∧ c.stack = [] ∧ c.atEnd = false ∧ c.tree.isEmpty = false

section Seek

variable [LinearOrder S] [ExactDimension σ S] [ExactDimension σ U]

/-- No target behind the cursor, no `next` in the empty leaf, no `prev` to dimensions that a seek has moved
past. -/
def Allowed (c : Cursor α σ S U) : Call S → Prop
  | .seek pos _ => Dimension.default σ ≤ pos
  | .seekClamped pos _ => Dimension.default σ ≤ pos
  | .slice pos _ => c.seekDimension ≤ pos ∧ ¬ LeftStart c
  | .suffix => c.seekDimension ≤ extent c.tree ∧ ¬ LeftStart c
  | .summary pos _ => c.seekDimension ≤ pos ∧ ¬ LeftStart c
  | .next => c.didSeek = true ∧ (c.tree.isEmpty = true → c.stack = [])
  | .prev => c.didSeek = true ∧ RestoresCurrent c.stack

variable {D : Type} [Dimension σ D] [ExactDimension σ D] {q : SeekTarget S} {kind : AggregateKind}
  {aggregate : SeekAggregate α σ D}

omit [Dimension σ S] [Dimension σ U] [LinearOrder S] [ExactDimension σ S] [ExactDimension σ U] in
theorem Lands.stands {root : SumTree α σ} {stack : List (StackEntry α σ S U)} (h : Lands root stack pre post)
    (hroot : root = c.tree) (hitems : c.tree.toList = pre ++ post) : Stands (c.landed stack) pre post := by
  cases h with
  | inl hend =>
    obtain ⟨rfl, rfl⟩ := hend
    rw [List.append_nil] at hitems
    rw [← hitems]
    exact .atEnd (c := c.landed []) rfl rfl
  | inr hat =>
    refine .item ?_ (hroot ▸ hat)
    cases stack with
    | nil => exact absurd rfl hat.stack_ne_nil
    | cons => rfl

omit [ExactDimension σ S] [ExactDimension σ U] [ExactDimension σ D] in
theorem seekInternal_past (hseek : c.didSeek = true) (htarget : c.seekDimension ≤ q.target)
    (hreseek : reseek treeBase q (c, aggregate) c.stack = some ((c.onStack [], aggregate), none))
    (hcollected : Collected treeBase leafMin kind [] aggregate) :
    Moves treeBase leafMin kind q c.tree pre [] [] c (seekInternal treeBase q c aggregate) := by
  have hlands : Lands c.tree (c.onStack []).stack pre [] := .inl ⟨rfl, rfl⟩
  obtain ⟨found, hfinish⟩ := finish_spec (q := q) (g := aggregate) (c := c.onStack []) hseek hlands
  refine ⟨[], [], [], aggregate, found, rfl, ?_, .inl ⟨rfl, rfl⟩, hcollected,
    fun _ _ => ⟨trivial, trivial⟩⟩
  rw [seekInternal, if_neg htarget.not_gt, if_pos hseek, hreseek, Option.bind_some, seekInto, hfinish]
  rfl

theorem Standing.seekInternal (h : Standing c) (hmin : leafMin ≤ treeBase) (hpos : 0 < leafMin)
    (htree : Balanced treeBase leafMin height c.tree) (hheight : height < 16) (hfits : Fits treeBase c.tree.toList)
    (hstart : ¬ LeftStart c) (htarget : c.seekDimension ≤ q.target)
    (hcollected : Collected treeBase leafMin kind [] aggregate) :
    ∃ pre post, Stands c pre post ∧ c.seekDimension = measure (Dimension.default σ) pre ∧
      c.sumDimension = measure (Dimension.default σ) pre ∧
      Moves treeBase leafMin kind q c.tree pre post [] c (c.seekInternal treeBase q aggregate) := by
  obtain ⟨pre, post, hstands, hseek, hsum⟩ := h.stands
  refine ⟨pre, post, hstands, hseek, hsum, ?_⟩
  have hitems := hstands.toList
  cases hstands with
  | item hend hat =>
    have hfits' : Fits treeBase post := by
      unfold Fits at hfits ⊢
      rw [hitems, List.length_append] at hfits
      omega
    exact seekInternal_at hmin hpos htree hheight c h.didSeek hat htarget hcollected hfits'
  | atEnd hend hstack =>
    exact seekInternal_past h.didSeek htarget (by rw [hstack]; rfl) hcollected
  | beforeFirst hend hstack =>
    have hempty : c.tree.isEmpty = true := by
      by_contra hne
      exact hstart ⟨h.didSeek, hstack, hend, Bool.not_eq_true _ ▸ hne⟩
    rw [htree.eq_empty hempty, toList_leafOf]
    have hpast : Moves treeBase leafMin kind q c.tree [] [] [] c (c.seekInternal treeBase q aggregate) :=
      seekInternal_past h.didSeek htarget (by rw [hstack]; rfl) hcollected
    rwa [htree.eq_empty hempty] at hpast
  | @emptyLeaf entry hend hstack hentry hindex hempty =>
    refine seekInternal_past h.didSeek htarget ?_ hcollected
    rw [hstack, reseek, hentry, hempty, leafOf]
    cases aggregate <;> simp [reseekItems, SliceItems.empty, SeekAggregate.flush, reseek, onStack, hindex]

omit [ExactDimension σ S] [ExactDimension σ U] [ExactDimension σ D] in
theorem Moves.standing {result : Option (Seeking α σ S U D × Bool)} {taken : List α}
    (h : Moves treeBase leafMin kind q c.tree pre post taken c result) (hseek : c.didSeek = true)
    (hitems : c.tree.toList = pre ++ post) (hpre : c.seekDimension = measure (Dimension.default σ) pre)
    (hpre' : c.sumDimension = measure (Dimension.default σ) pre) :
    ∃ c' aggregate found, result = some ((c', aggregate), found) ∧ Standing c' ∧ c'.tree = c.tree ∧
      ∃ l r, post = l ++ r ∧ Collected treeBase leafMin kind (taken ++ l) aggregate ∧
        Halts q c.seekDimension l r := by
  obtain ⟨l, r, stack, aggregate, found, hpost, hresult, hlands, hcollected, hhalts⟩ := h
  refine ⟨_, aggregate, found, hresult, ⟨hseek, pre ++ l, r, ?_, ?_, ?_⟩, rfl, l, r, hpost, hcollected, hhalts⟩
  · exact Lands.stands (c := c.pass l) hlands rfl (by rw [pass_tree, hitems, hpost, List.append_assoc])
  · rw [measure_append, ← hpre]
    rfl
  · rw [measure_append, ← hpre']
    rfl

omit [LinearOrder S] [ExactDimension σ S] [ExactDimension σ U] in
theorem move_next (h : Standing c) (hpos : 0 < leafMin) (hbase : 0 < treeBase)
    (htree : Balanced treeBase leafMin height c.tree) (hheight : height < 16)
    (hempty : c.tree.isEmpty = true → c.stack = []) :
    ∃ c', c.next = some c' ∧ Standing c' ∧ c'.tree = c.tree := by
  obtain ⟨pre, post, hstands, hseek, hsum⟩ := h.stands
  cases hstands with
  | item hend hat =>
    cases post with
    | nil => exact absurd rfl hat.post_ne_nil
    | cons x post =>
      obtain ⟨stack, hnext, hlands⟩ := next_at hpos hbase htree hheight h.didSeek hend hat
      refine ⟨_, hnext, ⟨h.didSeek, pre ++ [x], post, ?_, ?_, ?_⟩, rfl⟩
      · exact Lands.stands (c := c.pass [x]) hlands rfl (by rw [pass_tree, hat.toList]; simp)
      · rw [measure_append, ← hseek]
        rfl
      · rw [measure_append, ← hsum]
        rfl
  | atEnd hend hstack =>
    refine ⟨c, ?_, h, rfl⟩
    rw [next, nextInternal, if_pos h.didSeek, hstack]
    simp [hend]
  | beforeFirst hend hstack =>
    have hnext : c.next = (descendToFirstItem (fun _ => true) c c.tree).map fun c =>
        { c with atEnd := c.stack.isEmpty } := by
      rw [next, nextInternal, if_pos h.didSeek, hstack]
      simp [hend]
    by_cases hnil : c.tree.toList = []
    · have hleaf : c.tree = leafOf [] := htree.eq_empty_of_toList hpos hnil
      refine ⟨c.landed [], ?_, ⟨h.didSeek, [], [], ?_, hseek, hsum⟩, rfl⟩
      · rw [hnext, hleaf, descendToFirstItem_leafOf, List.map_nil, firstItem, Option.map_some, landed, hstack,
          h.didSeek]
      · have hstands := Stands.atEnd (c := c.landed []) rfl rfl
        rwa [show (c.landed []).tree.toList = [] from hnil] at hstands
    · obtain ⟨stack, hfirst, hat⟩ := descendToFirstItem_spec hpos hbase htree hnil c
        (by rw [hstack]; exact Leads.root) (by rw [hstack]; simpa using hheight)
      rw [List.append_nil] at hat
      refine ⟨c.landed stack, ?_, ⟨h.didSeek, [], c.tree.toList, ?_, hseek, hsum⟩, rfl⟩
      · rw [hnext, hfirst, Option.map_some, withStack, landed, h.didSeek]
      · exact Lands.stands (.inr hat) rfl rfl
  | @emptyLeaf entry hend hstack hentry hindex htree' =>
    have hnil := hempty (by rw [htree']; rfl)
    rw [hstack] at hnil
    cases hnil

omit [AddMonoid σ] [Item α σ] [LinearOrder S] [ExactDimension σ S] [ExactDimension σ U] in
theorem prev_eq_prevFrom (hseek : c.didSeek = true) (hend : c.atEnd = false) : c.prev = prevFrom c c.stack := by
  rw [prev, if_pos hseek, if_neg (by simp [hend])]

omit [LinearOrder S] in
theorem move_prev (h : Standing c) (hpos : 0 < leafMin) (hbase : 0 < treeBase)
    (htree : Balanced treeBase leafMin height c.tree) (hheight : height < 16)
    (hcurrent : RestoresCurrent c.stack) :
    ∃ c', c.prev = some c' ∧ Standing c' ∧ c'.tree = c.tree := by
  obtain ⟨pre, post, hstands, hseek, hsum⟩ := h.stands
  cases hstands with
  | item hend hat =>
    rw [prev_eq_prevFrom h.didSeek hend]
    cases prevFrom_at hpos hbase htree hheight h.didSeek hat hcurrent with
    | inl hfirst =>
      obtain ⟨rfl, hprev⟩ := hfirst
      exact ⟨_, hprev, ⟨h.didSeek, [], _, .beforeFirst hend rfl, hseek, hsum⟩, rfl⟩
    | inr hback =>
      obtain ⟨pre', y, stack, rfl, hprev, hat'⟩ := hback
      exact ⟨_, hprev, ⟨h.didSeek, pre', _, .item hend hat', rfl, rfl⟩, rfl⟩
  | atEnd hend hstack =>
    cases c.tree.toList.eq_nil_or_concat' with
    | inl hnil =>
      have hleaf : c.tree = leafOf [] := htree.eq_empty_of_toList hpos hnil
      let leaf : StackEntry α σ S U := ⟨c.tree, 0, Dimension.default σ, Dimension.default σ⟩
      refine ⟨{ c.atStartOf [leaf] [] with atEnd := false }, ?_,
        ⟨h.didSeek, [], [], .emptyLeaf (e := leaf) rfl rfl rfl rfl hleaf, rfl, rfl⟩, rfl⟩
      rw [prev, if_pos h.didSeek, if_pos hend, hleaf, descendToLastItem_leafOf]
      simp [advanceAll, enter, hstack, atStartOf, leaf, hleaf, h.didSeek]
    | inr hconcat =>
      obtain ⟨pre, y, hpre⟩ := hconcat
      obtain ⟨stack, hprev, hat⟩ := prev_atEnd hpos hbase htree hheight h.didSeek hend hstack hpre
      exact ⟨_, hprev, ⟨h.didSeek, pre, [y], .item rfl hat, rfl, rfl⟩, rfl⟩
  | beforeFirst hend hstack =>
    refine ⟨c, ?_, h, rfl⟩
    rw [prev_eq_prevFrom h.didSeek hend, hstack, prevFrom, ← hstack]
  | @emptyLeaf entry hend hstack hentry hindex htree' =>
    refine ⟨{ c with stack := [] }, ?_, ⟨h.didSeek, [], c.tree.toList, .beforeFirst hend rfl, hseek, hsum⟩, rfl⟩
    rw [prev_eq_prevFrom h.didSeek hend, hstack, prevFrom_zero hindex, prevFrom]

/-- A cursor that no call has moved, or one that stands where its dimensions say. -/
def Ready (c : Cursor α σ S U) : Prop := c = Cursor.new c.tree ∨ Standing c

theorem Ready.seekInternal {k : AggregateKind} {g : SeekAggregate α σ D} (h : Ready c) (hmin : leafMin ≤ treeBase) (hpos : 0 < leafMin)
    (htree : Balanced treeBase leafMin height c.tree) (hheight : height < 16) (hfits : Fits treeBase c.tree.toList)
    (hstart : ¬ LeftStart c) (htarget : c.seekDimension ≤ q.target)
    (hcollected : Collected treeBase leafMin k [] g) :
    ∃ pre c' aggregate' found, c.seekInternal treeBase q g = some ((c', aggregate'), found) ∧
      Standing c' ∧ c'.tree = c.tree ∧ c.position = pre.length ∧
      c.seekDimension = measure (Dimension.default σ) pre ∧ ∃ l r, c.tree.toList = pre ++ l ++ r ∧ Collected treeBase leafMin k l aggregate' ∧
        Halts q c.seekDimension l r := by
  cases h with
  | inl hnew =>
    rw [hnew] at htarget ⊢
    have hmoves := seekInternal_new (U := U) (q := q) hmin hpos htree hheight htarget hcollected hfits
    obtain ⟨c', aggregate', found, hresult, hstanding, htree', l, r, hitems, hcollected', hhalts⟩ :=
      Moves.standing (c := { (Cursor.new c.tree : Cursor α σ S U) with didSeek := true }) hmoves rfl rfl rfl rfl
    exact ⟨[], c', aggregate', found, hresult, hstanding, htree', rfl, rfl, l, r, hitems, hcollected', hhalts⟩
  | inr hstanding =>
    obtain ⟨pre, post, hstands, hseek, hsum, hmoves⟩ :=
      hstanding.seekInternal hmin hpos htree hheight hfits hstart htarget hcollected
    obtain ⟨c', aggregate', found, hresult, hstanding', htree', l, r, hpost, hcollected', hhalts⟩ :=
      hmoves.standing hstanding.didSeek hstands.toList hseek hsum
    exact ⟨pre, c', aggregate', found, hresult, hstanding', htree', hstands.position_eq, hseek, l, r,
      by rw [hstands.toList, hpost, List.append_assoc], hcollected', hhalts⟩

omit [AddMonoid σ] [Item α σ] [LinearOrder S] [ExactDimension σ S] [ExactDimension σ U] in
theorem not_leftStart_new (tree : SumTree α σ) : ¬ LeftStart (Cursor.new tree : Cursor α σ S U) :=
  fun h => absurd h.1 Bool.false_ne_true

theorem slice_ready (h : Ready c) (hmin : leafMin ≤ treeBase) (hpos : 0 < leafMin)
    (htree : Balanced treeBase leafMin height c.tree) (hheight : height < 16) (hfits : Fits treeBase c.tree.toList)
    (hstart : ¬ LeftStart c) {pos : S} (bias : SeekBias) (htarget : c.seekDimension ≤ pos) :
    ∃ c' slice, c.slice treeBase pos bias = some (c', slice) ∧ Standing c' ∧ c'.tree = c.tree ∧
      ∃ pre l r, c.tree.toList = pre ++ l ++ r ∧ c.position = pre.length ∧ c.seekDimension = measure (Dimension.default σ) pre ∧
        Built treeBase leafMin l slice ∧ Halts ⟨pos, bias, false⟩ c.seekDimension l r := by
  have hcollected : Collected treeBase leafMin .slice []
      (.slice SumTree.new : SeekAggregate α σ Unit) := ⟨rfl, new_balanced, toList_new⟩
  obtain ⟨pre, c', aggregate, found, hresult, hstanding, htree', hposition, hseek, l, r, hitems, hcollected', hhalts⟩ :=
    h.seekInternal (q := ⟨pos, bias, false⟩) hmin hpos htree hheight hfits hstart htarget hcollected
  cases aggregate with
  | none => cases hcollected'
  | slice slice =>
    exact ⟨c', slice, by rw [Cursor.slice, hresult, Option.bind_some], hstanding, htree', pre, l, r, hitems,
      hposition, hseek, hcollected'.2, hhalts⟩
  | summary d => cases hcollected'.1

theorem move_ready (h : Ready c) (hmin : leafMin ≤ treeBase) (hpos : 0 < leafMin)
    (htree : Balanced treeBase leafMin height c.tree) (hheight : height < 16) (hfits : Fits treeBase c.tree.toList)
    (call : Call S) (hallowed : Allowed c call) :
    ∃ c', c.move treeBase call = some c' ∧ Standing c' ∧ c'.tree = c.tree := by
  have hbase : 0 < treeBase := hpos.trans_le hmin
  cases call with
  | seek pos bias =>
    obtain ⟨-, c', aggregate, found, hresult, hstanding, htree', -⟩ :=
      Ready.seekInternal (c := c.reset) (q := ⟨pos, bias, false⟩) (k := .none)
        (g := (.none : SeekAggregate α σ Unit)) (.inl rfl) hmin hpos htree hheight hfits
        (not_leftStart_new _) hallowed rfl
    exact ⟨c', by rw [move, seekTo, hresult]; rfl, hstanding, htree'⟩
  | seekClamped pos bias =>
    obtain ⟨-, c', aggregate, found, hresult, hstanding, htree', -⟩ :=
      Ready.seekInternal (c := c.reset) (q := ⟨pos, bias, true⟩) (k := .none)
        (g := (.none : SeekAggregate α σ Unit)) (.inl rfl) hmin hpos htree hheight hfits
        (not_leftStart_new _) hallowed rfl
    exact ⟨c', by rw [move, Cursor.seekClamped, hresult]; rfl, hstanding, htree'⟩
  | slice pos bias =>
    obtain ⟨c', slice, hresult, hstanding, htree', -⟩ :=
      slice_ready h hmin hpos htree hheight hfits hallowed.2 bias hallowed.1
    exact ⟨c', by rw [move, hresult]; rfl, hstanding, htree'⟩
  | suffix =>
    obtain ⟨c', slice, hresult, hstanding, htree', -⟩ :=
      slice_ready h hmin hpos htree hheight hfits hallowed.2 .right hallowed.1
    exact ⟨c', by rw [move, suffix, hresult]; rfl, hstanding, htree'⟩
  | summary pos bias =>
    obtain ⟨-, c', aggregate, found, hresult, hstanding, htree', -, -, l, r, -, hcollected, -⟩ :=
      h.seekInternal (q := ⟨pos, bias, false⟩) (k := .summary)
        (g := (.summary (Dimension.default σ) : SeekAggregate α σ U)) hmin hpos htree hheight hfits
        hallowed.2 hallowed.1 ⟨rfl, rfl⟩
    cases aggregate with
    | none => cases hcollected
    | slice slice => cases hcollected.1
    | summary d => exact ⟨c', by rw [move, Cursor.summary, hresult]; rfl, hstanding, htree'⟩
  | next =>
    cases h with
    | inl hnew =>
      have hseek := hallowed.1
      rw [hnew] at hseek
      exact absurd hseek Bool.false_ne_true
    | inr hstanding => exact move_next hstanding hpos hbase htree hheight hallowed.2
  | prev =>
    cases h with
    | inl hnew =>
      have hseek := hallowed.1
      rw [hnew] at hseek
      exact absurd hseek Bool.false_ne_true
    | inr hstanding => exact move_prev hstanding hpos hbase htree hheight hallowed.2

def run (treeBase : Nat) (c : Cursor α σ S U) : List (Call S) → Option (Cursor α σ S U)
  | [] => some c
  | call :: calls => (c.move treeBase call).bind fun c => run treeBase c calls

/-- Every call of the run is allowed in the state it is made in. -/
def AllAllowed (treeBase : Nat) (c : Cursor α σ S U) : List (Call S) → Prop
  | [] => True
  | call :: calls => Allowed c call ∧ ∀ c', c.move treeBase call = some c' → AllAllowed treeBase c' calls

theorem run_ready (h : Ready c) (hmin : leafMin ≤ treeBase) (hpos : 0 < leafMin)
    (htree : Balanced treeBase leafMin height c.tree) (hheight : height < 16) (hfits : Fits treeBase c.tree.toList)
    (calls : List (Call S)) (hallowed : AllAllowed treeBase c calls) :
    ∃ c', c.run treeBase calls = some c' ∧ c'.tree = c.tree ∧ Ready c' ∧ (calls ≠ [] → Standing c') := by
  induction calls generalizing c with
  | nil => exact ⟨c, rfl, rfl, h, fun hne => absurd rfl hne⟩
  | cons call calls ih =>
    obtain ⟨next, hmove, hstanding, hnext⟩ := move_ready h hmin hpos htree hheight hfits call hallowed.1
    rw [← hnext] at htree hfits
    obtain ⟨c', hrun, htree', hready, hstanding'⟩ := ih (.inr hstanding) htree hfits (hallowed.2 next hmove)
    refine ⟨c', by rw [run, hmove, Option.bind_some, hrun], htree'.trans hnext, hready, fun _ => ?_⟩
    cases calls with
    | nil => exact Option.some.inj hrun ▸ hstanding
    | cons => exact hstanding' (List.cons_ne_nil _ _)

end Seek

end Cursor

end InfiniShell.SumTree
