import InfiniShell.Collections.LinkedChain
import InfiniShell.Ssh.Topology

namespace InfiniShell.Ssh

open Relation InfiniShell.Collections

def ParentIn (nodes : List SyncNode) (n m : SyncNode) : Prop :=
  m ∈ nodes ∧ n.parentId = some m.id

/-- A node below a parent that is not there. -/
def Orphan (nodes : List SyncNode) (n : SyncNode) : Prop :=
  ∃ p, n.parentId = some p ∧ p ∉ nodes.map SyncNode.id

/-- What `sorted` may differ in from `nodes`: the order, and the parents of orphans and of nodes on a cycle. -/
structure Repaired (nodes sorted : List SyncNode) : Prop where
  once : (sorted.map SyncNode.id).Perm (nodes.map SyncNode.id)
  parentFirst : ∀ before n after, sorted = before ++ n :: after → ∀ p, n.parentId = some p →
    p ∈ before.map SyncNode.id
  kept : ∀ m ∈ sorted, ∃ n ∈ nodes, m = n ∨
    m = { n with parentId := none } ∧ (Orphan nodes n ∨ Cyclic (ParentIn nodes) n)

/-- Nothing hangs below an orphan, and below a cycle only the cycle itself. -/
def NothingBelow (nodes : List SyncNode) : Prop :=
  ∀ n ∈ nodes, ∀ m, ParentIn nodes n m → Orphan nodes m ∨ Cyclic (ParentIn nodes) m → Cyclic (ParentIn nodes) n

section Sorted

variable {nodes : List SyncNode} (hids : (nodes.map SyncNode.id).Nodup)

include hids

variable {before after : List SyncNode} {n : SyncNode} {p : String}

theorem visit_parents_first (fuel : Nat) (queue : List SyncNode) (seen : List String) (h : Walk nodes queue seen) (heq : (visit nodes fuel queue seen).1 = before ++ n :: after) (hp : n.parentId = some p) : p ∈ seen ∨ p ∈ before.map SyncNode.id := by
  induction fuel generalizing queue seen before with
  | zero => simp [visit] at heq
  | succ fuel ih =>
    cases queue with
    | nil => simp [visit] at heq
    | cons node queue =>
      have hnew := h.fresh node (by simp)
      have hvisit : (visit nodes (fuel + 1) (node :: queue) seen).1 =
          node :: (visit nodes fuel (queue ++ childrenOf nodes (some node.id)) (node.id :: seen)).1 := by
        simp [visit, hnew]
      rw [hvisit] at heq
      cases before with
      | nil =>
        rw [List.nil_append] at heq
        rw [← (List.cons.inj heq).1] at hp
        exact .inl (h.queued node (by simp) p hp)
      | cons b before =>
        obtain ⟨rfl, hrest⟩ := List.cons.inj heq
        cases ih _ _ (h.step hids) hrest with
        | inl hseen =>
          cases List.mem_cons.mp hseen with
          | inl hnode => simp [hnode]
          | inr hseen => exact .inl hseen
        | inr hbefore => exact .inr (List.mem_cons_of_mem _ hbefore)

theorem visitRoots_spec :
    Walk nodes [] (visitRoots nodes).2 ∧
    (∀ n ∈ (visitRoots nodes).1, n ∈ nodes) ∧
    ((visitRoots nodes).1.map SyncNode.id).Nodup ∧
    ∀ id, id ∈ (visitRoots nodes).2 ↔ id ∈ (visitRoots nodes).1.map SyncNode.id := by
  have hfuel : (unseen nodes []).length ≤ nodes.length + 1 :=
    (List.length_filter_le _ _).trans (Nat.le_succ _)
  obtain ⟨hwalk, hsub, hnodup, hseen⟩ := visit_spec hids (nodes.length + 1) _ [] (walk_roots hids) hfuel
  refine ⟨hwalk, fun n hn => (hsub n hn).1, hnodup, fun id => ?_⟩
  rw [visitRoots, hseen]
  simp

theorem mem_visitRoots (hn : n ∈ nodes) : n ∈ (visitRoots nodes).1 ↔ n.id ∈ (visitRoots nodes).2 := by
  obtain ⟨-, hsub, -, hseen⟩ := visitRoots_spec hids
  rw [hseen]
  constructor
  · exact List.mem_map_of_mem
  · intro hid
    obtain ⟨m, hm, hmid⟩ := List.mem_map.mp hid
    exact eq_of_id hids (hsub m hm) hn hmid ▸ hm

omit hids in
theorem mem_unreached : n ∈ unreached nodes ↔ n ∈ nodes ∧ n.id ∉ (visitRoots nodes).2 := by
  simp [unreached]

theorem acc_of_visited (heq : (visitRoots nodes).1 = before ++ after)
    (hn : n ∈ before) : Acc (fun m n => ParentIn nodes n m) n := by
  induction before using List.reverseRecOn generalizing after n with
  | nil => cases hn
  | append_singleton before last ih =>
    rw [List.append_assoc] at heq
    cases List.mem_append.mp hn with
    | inl hn => exact ih heq hn
    | inr hn =>
      rw [List.mem_singleton.mp hn]
      apply Acc.intro
      rintro m ⟨hm, hparent⟩
      have hfirst := visit_parents_first hids _ _ _ (walk_roots hids) heq hparent
      obtain ⟨d, hd, hid⟩ := List.mem_map.mp (hfirst.resolve_left (List.not_mem_nil))
      have hvisited : d ∈ (visitRoots nodes).1 := by
        rw [heq]
        exact List.mem_append_left _ hd
      have hdm := eq_of_id hids ((visitRoots_spec hids).2.1 d hvisited) hm hid
      exact hdm ▸ ih heq hd

theorem unreached_of_bad (hn : n ∈ nodes) (hbad : Orphan nodes n ∨ Cyclic (ParentIn nodes) n) :
    n ∈ unreached nodes := by
  rw [mem_unreached]
  refine ⟨hn, fun hseen => ?_⟩
  obtain ⟨hwalk, hsub, -, hids'⟩ := visitRoots_spec hids
  cases hbad with
  | inl horphan =>
    obtain ⟨p, hp, hmissing⟩ := horphan
    obtain ⟨m, hm, hid⟩ := List.mem_map.mp ((hids' p).mp (hwalk.behind n hn hseen p hp))
    exact hmissing (List.mem_map.mpr ⟨m, hsub m hm, hid⟩)
  | inr hcyclic =>
    have hacc := acc_of_visited hids (List.append_nil _).symm ((mem_visitRoots hids hn).mpr hseen)
    exact not_cyclic_of_acc hacc hcyclic

variable {n m : SyncNode}

theorem unreached_child (hn : n ∈ nodes) (hparent : ParentIn nodes n m) (hm : m ∈ unreached nodes) :
    n ∈ unreached nodes := by
  rw [mem_unreached] at hm ⊢
  exact ⟨hn, fun hseen => hm.2 ((visitRoots_spec hids).1.behind n hn hseen _ hparent.2)⟩

theorem unreached_parent (hn : n ∈ unreached nodes) :
    Orphan nodes n ∨ ∃ m ∈ unreached nodes, ParentIn nodes n m := by
  obtain ⟨hmem, hnew⟩ := mem_unreached.mp hn
  by_cases hall : ∀ p, n.parentId = some p → p ∈ (visitRoots nodes).2
  · cases (visitRoots_spec hids).1.entered n hmem hall with
    | inl hqueue => cases hqueue
    | inr hseen => exact absurd hseen hnew
  · obtain ⟨p, hp⟩ := not_forall.mp hall
    obtain ⟨hparent, hunseen⟩ := Classical.not_imp.mp hp
    by_cases hpresent : p ∈ nodes.map SyncNode.id
    · obtain ⟨m, hm, rfl⟩ := List.mem_map.mp hpresent
      exact .inr ⟨m, mem_unreached.mpr ⟨hm, hunseen⟩, hm, hparent⟩
    · exact .inl ⟨p, hparent, hpresent⟩

theorem exists_bad (hn : n ∈ unreached nodes) :
    ∃ m, (Orphan nodes m ∨ Cyclic (ParentIn nodes) m) ∧ ReflTransGen (ParentIn nodes) n m := by
  by_contra hnone
  have hgood : ∀ m, ReflTransGen (ParentIn nodes) n m → ¬(Orphan nodes m ∨ Cyclic (ParentIn nodes) m) :=
    fun m hm hbad => hnone ⟨m, hbad, hm⟩
  have hfinite : {m | m ∈ unreached nodes ∧ ReflTransGen (ParentIn nodes) n m}.Finite :=
    (List.finite_toSet (unreached nodes)).subset fun m hm => hm.1
  obtain ⟨m, hm, hcyclic⟩ := exists_cyclic (r := ParentIn nodes) hfinite (by
    rintro a ⟨ha, hna⟩
    cases unreached_parent hids ha with
    | inl horphan => exact absurd (.inl horphan) (hgood a hna)
    | inr hparent =>
      obtain ⟨b, hb, hab⟩ := hparent
      exact ⟨b, ⟨hb, hna.tail hab⟩, hab⟩) ⟨hn, .refl⟩
  exact hgood m hm.2 (.inr hcyclic)

omit hids in
theorem bad_of_reaches (h : NothingBelow nodes) (hn : n ∈ nodes)
    (hbad : Orphan nodes m ∨ Cyclic (ParentIn nodes) m) (hreach : ReflTransGen (ParentIn nodes) n m) :
    Orphan nodes n ∨ Cyclic (ParentIn nodes) n := by
  induction hreach using ReflTransGen.head_induction_on with
  | refl => exact hbad
  | head hstep _ ih => exact .inr (h _ hn _ hstep (ih hstep.1))

theorem unreached_bad_iff :
    (∀ n ∈ unreached nodes, Orphan nodes n ∨ Cyclic (ParentIn nodes) n) ↔ NothingBelow nodes := by
  constructor
  · intro h n hn m hparent hbad
    have hm := unreached_of_bad hids hparent.1 hbad
    cases h n (unreached_child hids hn hparent hm) with
    | inl horphan =>
      obtain ⟨p, hp, hmissing⟩ := horphan
      rw [hparent.2] at hp
      exact absurd (List.mem_map.mpr ⟨m, hparent.1, Option.some.inj hp⟩) hmissing
    | inr hcyclic => exact hcyclic
  · intro h n hn
    obtain ⟨m, hbad, hreach⟩ := exists_bad hids hn
    exact bad_of_reaches h (mem_unreached.mp hn).1 hbad hreach

theorem sort_once : ((topologicallySortNodes nodes).map SyncNode.id).Perm (nodes.map SyncNode.id) := by
  obtain ⟨-, hsub, hnodup, hseen⟩ := visitRoots_spec hids
  have hids' : ((unreached nodes).map fun node => { node with parentId := none }).map SyncNode.id =
      (unreached nodes).map SyncNode.id := by
    rw [List.map_map]
    rfl
  rw [topologicallySortNodes, List.map_append, hids']
  apply (List.perm_ext_iff_of_nodup (List.nodup_append.mpr ⟨hnodup, ?_, ?_⟩) hids).mpr
  · intro id
    rw [List.mem_append, ← hseen]
    constructor
    · rintro (hid | hid)
      · obtain ⟨m, hm, rfl⟩ := List.mem_map.mp ((hseen id).mp hid)
        exact List.mem_map_of_mem (hsub m hm)
      · obtain ⟨m, hm, rfl⟩ := List.mem_map.mp hid
        exact List.mem_map_of_mem (mem_unreached.mp hm).1
    · intro hid
      obtain ⟨m, hm, rfl⟩ := List.mem_map.mp hid
      by_cases hmem : m.id ∈ (visitRoots nodes).2
      · exact .inl hmem
      · exact .inr (List.mem_map_of_mem (mem_unreached.mpr ⟨hm, hmem⟩))
  · exact hids.sublist (List.filter_sublist.map _)
  · intro a ha b hb hab
    obtain ⟨m, hm, rfl⟩ := List.mem_map.mp hb
    exact (mem_unreached.mp hm).2 ((hseen _).mpr (hab ▸ ha))

theorem sort_parents_first
    (heq : topologicallySortNodes nodes = before ++ n :: after) (hp : n.parentId = some p) :
    p ∈ before.map SyncNode.id := by
  have hcleared : ∀ m ∈ (unreached nodes).map fun node => { node with parentId := none }, m.parentId = none := by
    intro m hm
    obtain ⟨node, -, rfl⟩ := List.mem_map.mp hm
    rfl
  rw [topologicallySortNodes] at heq
  obtain ⟨l, hl, hrest⟩ | ⟨l, hl, hrest⟩ := List.append_eq_append_iff.mp heq
  · have hn : n ∈ (unreached nodes).map fun node => { node with parentId := none } := by simp [hrest]
    rw [hcleared n hn] at hp
    cases hp
  · cases l with
    | nil =>
      have hn : n ∈ (unreached nodes).map fun node => { node with parentId := none } := by
        rw [List.nil_append] at hrest
        simp [← hrest]
      rw [hcleared n hn] at hp
      cases hp
    | cons m l =>
      obtain ⟨rfl, -⟩ := List.cons.inj hrest
      have hfirst := visit_parents_first hids _ _ _ (walk_roots hids) hl hp
      exact hfirst.resolve_left (List.not_mem_nil)

theorem sort_kept_iff :
    (∀ m ∈ topologicallySortNodes nodes, ∃ n ∈ nodes, m = n ∨
      m = { n with parentId := none } ∧ (Orphan nodes n ∨ Cyclic (ParentIn nodes) n)) ↔
    ∀ n ∈ unreached nodes, Orphan nodes n ∨ Cyclic (ParentIn nodes) n := by
  constructor
  · intro h n hn
    obtain ⟨hmem, hnew⟩ := mem_unreached.mp hn
    have hsorted : { n with parentId := none } ∈ topologicallySortNodes nodes :=
      List.mem_append_right _ (List.mem_map.mpr ⟨n, hn, rfl⟩)
    obtain ⟨d, hd, heq | ⟨heq, hbad⟩⟩ := h _ hsorted
    · have hid := congrArg SyncNode.id heq
      have hroot := congrArg SyncNode.parentId heq
      rw [← eq_of_id hids hmem hd hid] at hroot
      cases unreached_parent hids hn with
      | inl horphan => exact .inl horphan
      | inr hparent =>
        obtain ⟨m, -, -, hparent⟩ := hparent
        rw [← hroot] at hparent
        cases hparent
    · have hid := congrArg SyncNode.id heq
      rwa [eq_of_id hids hmem hd hid]
  · intro h m hm
    rw [topologicallySortNodes] at hm
    cases List.mem_append.mp hm with
    | inl hm => exact ⟨m, (visitRoots_spec hids).2.1 m hm, .inl rfl⟩
    | inr hm =>
      obtain ⟨n, hn, rfl⟩ := List.mem_map.mp hm
      exact ⟨n, (mem_unreached.mp hn).1, .inr ⟨rfl, h n hn⟩⟩

/-- The sort repairs a tree and nothing else, unless something hangs below an orphan or a cycle. -/
theorem topologicallySortNodes_repairs_iff :
    Repaired nodes (topologicallySortNodes nodes) ↔ NothingBelow nodes := by
  rw [← unreached_bad_iff hids, ← sort_kept_iff hids]
  constructor
  · exact Repaired.kept
  · exact fun h => ⟨sort_once hids, fun _ _ _ heq _ hp => sort_parents_first hids heq hp, h⟩

end Sorted

/-- A tree, an orphan and a cycle of two. -/
def brokenNodes : List SyncNode :=
  [⟨"leaf", some "root", "server", "leaf", 0, false⟩, ⟨"orphan", some "gone", "server", "orphan", 0, false⟩,
    ⟨"root", none, "folder", "root", 0, false⟩, ⟨"left", some "right", "folder", "left", 0, false⟩,
    ⟨"right", some "left", "folder", "right", 0, false⟩]

theorem topologicallySortNodes_repairs_broken :
    (brokenNodes.map SyncNode.id).Nodup ∧
      (Repaired brokenNodes (topologicallySortNodes brokenNodes) ↔ NothingBelow brokenNodes) :=
  ⟨by decide, topologicallySortNodes_repairs_iff (by decide)⟩

/-- A folder whose own folder is gone, with a server in it. -/
def strandedNodes : List SyncNode :=
  [⟨"folder", some "gone", "folder", "folder", 0, false⟩, ⟨"server", some "folder", "server", "server", 0, false⟩]

theorem stranded_not_cyclic : ∀ n ∈ strandedNodes, ¬Cyclic (ParentIn strandedNodes) n := by
  have hlast : ∀ m, ¬ParentIn strandedNodes ⟨"folder", some "gone", "folder", "folder", 0, false⟩ m := by
    rintro m ⟨hm, hparent⟩
    rcases List.mem_cons.mp hm with rfl | hm
    · exact absurd hparent (by decide)
    · rw [List.mem_singleton.mp hm] at hparent
      exact absurd hparent (by decide)
  intro n hn hcyclic
  obtain ⟨m, ⟨hm, hparent⟩, hnext⟩ := hcyclic.exists_next
  obtain ⟨d, hd, -⟩ := hnext.exists_next
  rcases List.mem_cons.mp hm with rfl | hm
  · exact hlast d hd
  · rw [List.mem_singleton.mp hm] at hparent
    rcases List.mem_cons.mp hn with rfl | hn
    · exact absurd hparent (by decide)
    · rw [List.mem_singleton.mp hn] at hparent
      exact absurd hparent (by decide)

/-- The server in the stranded folder loses its folder, though the folder is there and on no cycle. -/
theorem stranded_flattened :
    (strandedNodes.map SyncNode.id).Nodup ∧ ¬Repaired strandedNodes (topologicallySortNodes strandedNodes) := by
  refine ⟨by decide, fun h => ?_⟩
  obtain ⟨n, hn, heq⟩ := h.kept ⟨"server", none, "server", "server", 0, false⟩ (by decide +kernel)
  rcases heq with heq | ⟨heq, horphan | hcyclic⟩
  · rw [← heq] at hn
    exact absurd hn (by decide)
  · obtain ⟨p, hp, hmissing⟩ := horphan
    rcases List.mem_cons.mp hn with rfl | hn
    · exact absurd heq (by decide)
    · rw [List.mem_singleton.mp hn] at hp
      rw [← Option.some.inj hp] at hmissing
      exact hmissing (by decide)
  · exact stranded_not_cyclic n hn hcyclic

end InfiniShell.Ssh
