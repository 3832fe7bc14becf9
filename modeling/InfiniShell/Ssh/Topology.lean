import InfiniShell.Ssh.SyncProvider
import Mathlib.Data.List.Perm.Basic

namespace InfiniShell.Ssh

/-- Nodes with ids of their own, each below a parent among them or a root. -/
structure Forest (nodes : List SyncNode) : Prop where
  nodup : (nodes.map SyncNode.id).Nodup
  ranked : ∃ rank : String → Nat, ∀ n ∈ nodes, ∀ p, n.parentId = some p →
    p ∈ nodes.map SyncNode.id ∧ rank p < rank n.id

variable {nodes : List SyncNode}

theorem eq_of_id (hids : (nodes.map SyncNode.id).Nodup) {m n : SyncNode} (hm : m ∈ nodes)
    (hn : n ∈ nodes) (hid : m.id = n.id) : m = n :=
  List.inj_on_of_nodup_map hids hm hn hid

/-- The walk with `queue` to visit and `seen` behind it: a node is in one of them as soon
as its parent is seen, and not before. -/
structure Walk (nodes queue : List SyncNode) (seen : List String) : Prop where
  sub : ∀ n ∈ queue, n ∈ nodes
  fresh : ∀ n ∈ queue, n.id ∉ seen
  nodup : (queue.map SyncNode.id).Nodup
  entered : ∀ n ∈ nodes, (∀ p, n.parentId = some p → p ∈ seen) → n ∈ queue ∨ n.id ∈ seen
  queued : ∀ n ∈ queue, ∀ p, n.parentId = some p → p ∈ seen
  behind : ∀ n ∈ nodes, n.id ∈ seen → ∀ p, n.parentId = some p → p ∈ seen

theorem mem_childrenOf {parentId : Option String} {n : SyncNode} :
    n ∈ childrenOf nodes parentId ↔ n ∈ nodes ∧ n.parentId = parentId := by
  simp [childrenOf]

theorem walk_roots (hids : (nodes.map SyncNode.id).Nodup) : Walk nodes (childrenOf nodes none) [] where
  sub n hn := (mem_childrenOf.mp hn).1
  fresh n hn := by simp
  nodup := hids.sublist (List.filter_sublist.map _)
  entered n hn hp := by
    cases hparent : n.parentId with
    | none => exact .inl (mem_childrenOf.mpr ⟨hn, hparent⟩)
    | some p => exact absurd (hp p hparent) (by simp)
  queued n hn p hp := by simp [(mem_childrenOf.mp hn).2] at hp
  behind n hn hid := by simp at hid

variable {seen : List String} {node : SyncNode} {nodes queue : List SyncNode}

theorem Walk.children_new (hids : (nodes.map SyncNode.id).Nodup) (h : Walk nodes (node :: queue) seen) {c : SyncNode}
    (hc : c ∈ childrenOf nodes (some node.id)) : c ∉ queue ∧ c.id ∉ node.id :: seen := by
  obtain ⟨hmem, hparent⟩ := mem_childrenOf.mp hc
  have hnode : node.id ∉ seen := h.fresh node (by simp)
  refine ⟨fun hq => hnode (h.queued c (by simp [hq]) _ hparent), fun hseen => ?_⟩
  rcases List.mem_cons.mp hseen with hid | hseen
  · rw [eq_of_id hids hmem (h.sub node (by simp)) hid] at hparent
    exact hnode (h.queued node (by simp) _ hparent)
  · exact hnode (h.behind c hmem hseen _ hparent)

theorem Walk.step (hids : (nodes.map SyncNode.id).Nodup) (h : Walk nodes (node :: queue) seen) :
    Walk nodes (queue ++ childrenOf nodes (some node.id)) (node.id :: seen) := by
  have hnodup := h.nodup
  rw [List.map_cons, List.nodup_cons] at hnodup
  refine ⟨fun n hn => ?_, fun n hn => ?_, ?_, fun n hn hp => ?_, fun n hn p hp => ?_, fun n hn hid p hp => ?_⟩
  · rcases List.mem_append.mp hn with hn | hn
    · exact h.sub n (by simp [hn])
    · exact (mem_childrenOf.mp hn).1
  · rcases List.mem_append.mp hn with hn | hn
    · have hne : n.id ≠ node.id := fun he => hnodup.1 (he ▸ List.mem_map_of_mem hn)
      simpa [hne] using h.fresh n (by simp [hn])
    · exact (h.children_new hids hn).2
  · rw [List.map_append, List.nodup_append]
    refine ⟨hnodup.2, hids.sublist (List.filter_sublist.map _), fun a ha b hb hab => ?_⟩
    obtain ⟨m, hm, rfl⟩ := List.mem_map.mp ha
    obtain ⟨c, hc, rfl⟩ := List.mem_map.mp hb
    have hmc := eq_of_id hids (h.sub m (by simp [hm])) (mem_childrenOf.mp hc).1 hab
    exact (h.children_new hids hc).1 (hmc ▸ hm)
  · by_cases hchild : n.parentId = some node.id
    · exact .inl (List.mem_append_right _ (mem_childrenOf.mpr ⟨hn, hchild⟩))
    · have hold : ∀ p, n.parentId = some p → p ∈ seen := by
        intro p hparent
        rcases List.mem_cons.mp (hp p hparent) with rfl | hseen
        · exact absurd hparent hchild
        · exact hseen
      rcases h.entered n hn hold with hq | hseen
      · rcases List.mem_cons.mp hq with rfl | hq
        · exact .inr (by simp)
        · exact .inl (List.mem_append_left _ hq)
      · exact .inr (by simp [hseen])
  · rcases List.mem_append.mp hn with hn | hn
    · exact List.mem_cons_of_mem _ (h.queued n (by simp [hn]) p hp)
    · have hparent := (mem_childrenOf.mp hn).2
      rw [hp] at hparent
      simp_all
  · rcases List.mem_cons.mp hid with hid | hid
    · have hnode := eq_of_id hids hn (h.sub node (by simp)) hid
      exact List.mem_cons_of_mem _ (h.queued node (by simp) p (hnode ▸ hp))
    · exact List.mem_cons_of_mem _ (h.behind n hn hid p hp)

def unseen (nodes : List SyncNode) (seen : List String) : List SyncNode :=
  nodes.filter fun n => !seen.contains n.id

theorem length_unseen_cons (hmem : node ∈ nodes)
    (hnew : node.id ∉ seen) : (unseen nodes (node.id :: seen)).length < (unseen nodes seen).length := by
  have hsub : (unseen nodes (node.id :: seen)).Sublist (unseen nodes seen) := by
    apply List.monotone_filter_right
    intro n
    simp
  apply lt_of_le_of_ne hsub.length_le
  intro hlen
  have heq := hsub.eq_of_length hlen
  have hin : node ∈ unseen nodes seen := by simp [unseen, hmem, hnew]
  rw [← heq] at hin
  simp [unseen] at hin

theorem visit_spec (hids : (nodes.map SyncNode.id).Nodup) (fuel : Nat) (queue : List SyncNode)
    (seen : List String) (h : Walk nodes queue seen) (hfuel : (unseen nodes seen).length ≤ fuel) :
    Walk nodes [] (visit nodes fuel queue seen).2 ∧
    (∀ n ∈ (visit nodes fuel queue seen).1, n ∈ nodes ∧ n.id ∉ seen) ∧
    ((visit nodes fuel queue seen).1.map SyncNode.id).Nodup ∧
    ∀ id, id ∈ (visit nodes fuel queue seen).2 ↔
      id ∈ seen ∨ id ∈ (visit nodes fuel queue seen).1.map SyncNode.id := by
  induction fuel generalizing queue seen with
  | zero =>
    have hqueue : queue = [] := by
      rw [List.eq_nil_iff_forall_not_mem]
      intro n hn
      have hin : n ∈ unseen nodes seen := by simp [unseen, h.sub n hn, h.fresh n hn]
      rw [List.eq_nil_of_length_eq_zero (Nat.le_zero.mp hfuel)] at hin
      simp at hin
    subst hqueue
    exact ⟨h, by simp [visit], by simp [visit], by simp [visit]⟩
  | succ fuel ih =>
    cases queue with
    | nil => exact ⟨h, by simp [visit], by simp [visit], by simp [visit]⟩
    | cons node queue =>
      have hnew := h.fresh node (by simp)
      have hlen := length_unseen_cons (h.sub node (by simp)) hnew
      obtain ⟨hwalk, hsub, hnodup, hseen⟩ := ih _ _ (h.step hids) (by omega)
      have hvisit : visit nodes (fuel + 1) (node :: queue) seen =
          (node :: (visit nodes fuel (queue ++ childrenOf nodes (some node.id)) (node.id :: seen)).1,
            (visit nodes fuel (queue ++ childrenOf nodes (some node.id)) (node.id :: seen)).2) := by
        simp [visit, hnew]
      rw [hvisit]
      refine ⟨hwalk, fun n hn => ?_, ?_, fun id => ?_⟩
      · rcases List.mem_cons.mp hn with rfl | hn
        · exact ⟨h.sub n (by simp), hnew⟩
        · have hn' := hsub n hn
          exact ⟨hn'.1, fun hs => hn'.2 (List.mem_cons_of_mem _ hs)⟩
      · rw [List.map_cons, List.nodup_cons]
        refine ⟨fun hmem => ?_, hnodup⟩
        obtain ⟨m, hm, hid⟩ := List.mem_map.mp hmem
        exact (hsub m hm).2 (by simp [hid])
      · rw [hseen]
        simp only [List.mem_cons, List.map_cons]
        tauto

theorem Walk.all_seen (hforest : Forest nodes) (h : Walk nodes [] seen) : ∀ n ∈ nodes, n.id ∈ seen := by
  obtain ⟨rank, hrank⟩ := hforest.ranked
  have hall : ∀ r, ∀ n ∈ nodes, rank n.id < r → n.id ∈ seen := by
    intro r
    induction r with
    | zero => exact fun n _ hr => by omega
    | succ r ih =>
      intro n hn hr
      have hparents : ∀ p, n.parentId = some p → p ∈ seen := by
        intro p hp
        obtain ⟨hmem, hlt⟩ := hrank n hn p hp
        obtain ⟨m, hm, rfl⟩ := List.mem_map.mp hmem
        exact ih m hm (by omega)
      rcases h.entered n hn hparents with hq | hseen
      · simp at hq
      · exact hseen
  exact fun n hn => hall (rank n.id + 1) n hn (Nat.lt_succ_self _)

theorem topologicallySortNodes_perm (hforest : Forest nodes) :
    (topologicallySortNodes nodes).Perm nodes := by
  have hfuel : (unseen nodes []).length ≤ nodes.length + 1 :=
    (List.length_filter_le _ _).trans (Nat.le_succ _)
  obtain ⟨hwalk, hsub, hnodup, hseen⟩ := visit_spec hforest.nodup (nodes.length + 1) _ [] (walk_roots hforest.nodup) hfuel
  have hall := hwalk.all_seen hforest
  have hunreached : unreached nodes = [] := by
    rw [unreached, List.filter_eq_nil_iff]
    intro n hn
    simpa [visitRoots] using hall n hn
  rw [topologicallySortNodes, hunreached, List.map_nil, List.append_nil]
  apply (List.perm_ext_iff_of_nodup (List.Nodup.of_map _ hnodup) (List.Nodup.of_map _ hforest.nodup)).mpr
  intro n
  refine ⟨fun hn => (hsub n hn).1, fun hn => ?_⟩
  have hid : n.id ∈ (visitRoots nodes).1.map SyncNode.id := by
    rw [visitRoots]
    simpa using (hseen n.id).mp (hall n hn)
  obtain ⟨m, hm, hmid⟩ := List.mem_map.mp hid
  exact eq_of_id hforest.nodup (hsub m hm).1 hn hmid ▸ hm

end InfiniShell.Ssh
