import InfiniShell.Editor.Replica

namespace InfiniShell.Editor

open Collections Crdt

variable {base : Elements} {operations log delivered ops : List Operation} {replicaId : ReplicaId} {b : Buffer}
variable {op : Operation}

theorem Follows.setDeferred (hf : Follows base operations log replicaId b) (deferredOps : DeferredOperations) :
    Follows base operations log replicaId { b with deferredOps } := by
  have hc := hf.coherent
  exact ⟨⟨hc.wellFormed, hc.headed, hc.listed, hc.bounded, hc.undos, hc.observed⟩, hf.knows, hf.clockReplica, hf.undone,
    hf.stack, hf.batch⟩

section Ready

theorem Buffer.canApplyOp_le (h : b.canApplyOp op = true) (replicaId : ReplicaId) :
    op.versions.get replicaId ≤ b.versions.get replicaId := by
  unfold Buffer.canApplyOp at h
  split at h
  next => exact absurd h Bool.false_ne_true
  next =>
    cases op with
    | edit e =>
      have hle := (Bool.and_eq_true _ _ ▸ h : _ ∧ _).2
      exact Global.le_iff.mp hle replicaId
    | undo u => exact Global.le_iff.mp h replicaId

theorem Follows.canApplyOp (h : History base operations) (hf : Follows base operations log replicaId b)
    (hop : op ∈ operations) (hdepends : ∀ d ∈ operations, DependsOn op d → d ∈ log)
    (hdeferred : b.deferredOps.replicaDeferred op.replicaId = false) : b.canApplyOp op = true := by
  have hle : op.versions.le b.versions = true := by
    rw [Global.le_iff]
    intro replicaId
    cases h.exact op hop replicaId with
    | inl hzero => omega
    | inr hexact =>
      obtain ⟨d, hd, hts⟩ := hexact
      have hop' : DependsOn op d := by
        rw [DependsOn, hts, Global.observed_iff]
      have hobserved := (hf.knows.observed d hd).mpr (hdepends d hd hop')
      rw [hts] at hobserved
      exact Global.observed_iff.mp hobserved
  unfold Buffer.canApplyOp
  rw [if_neg (by rw [hdeferred]; exact Bool.false_ne_true)]
  cases op with
  | edit e =>
    obtain ⟨past, A, M, R, hmade⟩ := h.edits e hop
    have hstart := Global.observed_of_le hle hmade.startObserved
    have hstop := Global.observed_of_le hle hmade.stopObserved
    have hle' : e.versions.le b.versions = true := hle
    dsimp only
    rw [hstart, hstop, hle']
    rfl
  | undo u => exact hle

end Ready

theorem Follows.applyOrDefer (h : History base operations) (hf : Follows base operations log replicaId b)
    (hops : ∀ op ∈ ops, op ∈ operations) (deferred : List Operation) :
    ∃ b' left log', Buffer.applyOrDefer ops b deferred = some (b', deferred ++ left) ∧ b'.deferredOps = b.deferredOps ∧
      (∀ op ∈ left, op ∈ ops) ∧ (∀ op ∈ ops, op ∈ log' ∨ op ∈ left) ∧ (∀ d ∈ log, d ∈ log') ∧
      (∀ d ∈ log', d ∈ log ∨ d ∈ ops) ∧ Follows base operations log' replicaId b' := by
  induction ops generalizing b log deferred with
  | nil =>
    refine ⟨b, [], log, by rw [List.append_nil]; rfl, rfl, fun _ hmem => hmem, ?_, fun _ hd => hd, fun _ hd => .inl hd, hf⟩
    exact fun _ hmem => absurd hmem List.not_mem_nil
  | cons op ops ih =>
    have hrest : ∀ op ∈ ops, op ∈ operations := fun d hd => hops d (List.mem_cons_of_mem op hd)
    have hop := hops op List.mem_cons_self
    rw [Buffer.applyOrDefer]
    by_cases hcan : b.canApplyOp op = true
    · obtain ⟨b₁, log₁, happly, hdeferred₁, hlog₁, hf₁⟩ := hf.applyOp h hop (Buffer.canApplyOp_le hcan)
      obtain ⟨b', left, log', hpass, hdeferred', hleft, hall, hgrown, hsource, hf'⟩ := ih hf₁ hrest deferred
      rw [if_pos hcan, happly, Option.bind_some]
      refine ⟨b', left, log', hpass, hdeferred'.trans hdeferred₁, ?_, ?_, ?_, ?_, hf'⟩
      · exact fun d hd => List.mem_cons_of_mem op (hleft d hd)
      · intro d hd
        cases List.mem_cons.mp hd with
        | inl heq => exact .inl (hgrown d ((hlog₁ d).mpr (.inr heq)))
        | inr hd => exact hall d hd
      · exact fun d hd => hgrown d ((hlog₁ d).mpr (.inl hd))
      · intro d hd
        cases hsource d hd with
        | inl hd =>
          cases (hlog₁ d).mp hd with
          | inl hd => exact .inl hd
          | inr heq => exact .inr (List.mem_cons.mpr (.inl heq))
        | inr hd => exact .inr (List.mem_cons_of_mem op hd)
    · obtain ⟨b', left, log', hpass, hdeferred', hleft, hall, hgrown, hsource, hf'⟩ := ih hf hrest (deferred ++ [op])
      rw [if_neg hcan]
      refine ⟨b', op :: left, log', by rw [hpass, List.append_assoc]; rfl, hdeferred', ?_, ?_, hgrown, ?_, hf'⟩
      · intro d hd
        cases List.mem_cons.mp hd with
        | inl heq => exact List.mem_cons.mpr (.inl heq)
        | inr hd => exact List.mem_cons_of_mem op (hleft d hd)
      · intro d hd
        cases List.mem_cons.mp hd with
        | inl heq => exact .inr (List.mem_cons.mpr (.inl heq))
        | inr hd => exact (hall d hd).imp_right fun hd => List.mem_cons_of_mem op hd
      · exact fun d hd => (hsource d hd).imp_right fun hd => List.mem_cons_of_mem op hd

theorem Follows.applyOrDefer_sorted (h : History base operations) (hf : Follows base operations log replicaId b)
    (hops : ∀ op ∈ ops, op ∈ operations)
    (hsorted : ops.Pairwise fun a b => a.lamportTimestamp ≤ b.lamportTimestamp)
    (hdeferred : ∀ replicaId, b.deferredOps.replicaDeferred replicaId = false)
    (hclosed : ∀ op ∈ ops, ∀ d ∈ operations, DependsOn op d → d ∈ log ∨ d ∈ ops) (deferred : List Operation) :
    ∃ b', Buffer.applyOrDefer ops b deferred = some (b', deferred) := by
  induction ops generalizing b log with
  | nil => exact ⟨b, rfl⟩
  | cons op ops ih =>
    have hrest : ∀ op ∈ ops, op ∈ operations := fun d hd => hops d (List.mem_cons_of_mem op hd)
    have hop := hops op List.mem_cons_self
    obtain ⟨hfirst, hsorted⟩ := List.pairwise_cons.mp hsorted
    have hdepends : ∀ d ∈ operations, DependsOn op d → d ∈ log := by
      intro d hd hdepends
      have hlt : d.lamportTimestamp < op.lamportTimestamp := Lamport.lt_of_value_lt
        ((Global.observed_iff.mp hdepends).trans_lt (h.later op hop _))
      cases hclosed op List.mem_cons_self d hd hdepends with
      | inl hd => exact hd
      | inr hmem =>
        cases List.mem_cons.mp hmem with
        | inl heq =>
          rw [heq] at hlt
          exact absurd hlt (lt_irrefl _)
        | inr hmem => exact absurd hlt (not_lt.mpr (hfirst d hmem))
    have hcan := hf.canApplyOp h hop hdepends (hdeferred op.replicaId)
    obtain ⟨b₁, log₁, happly, hdeferred₁, hlog₁, hf₁⟩ := hf.applyOp h hop (Buffer.canApplyOp_le hcan)
    rw [Buffer.applyOrDefer, if_pos hcan, happly, Option.bind_some]
    apply ih hf₁ hrest hsorted
    · rw [hdeferred₁]
      exact hdeferred
    · intro d hd e he hdepends
      cases hclosed d (List.mem_cons_of_mem op hd) e he hdepends with
      | inl he => exact .inl ((hlog₁ e).mpr (.inl he))
      | inr he =>
        cases List.mem_cons.mp he with
        | inl heq => exact .inl ((hlog₁ e).mpr (.inr heq))
        | inr he => exact .inr he

theorem mem_extend (deferredOps : DeferredOperations) (ops : List Operation) (op : Operation) :
    op ∈ (deferredOps.extend ops).operations ↔ op ∈ deferredOps.operations ∨ op ∈ ops := by
  rw [DeferredOperations.extend]
  dsimp only
  rw [List.mem_insertionSort, List.mem_append]

theorem sorted_extend (deferredOps : DeferredOperations) (ops : List Operation) :
    (deferredOps.extend ops).operations.Pairwise fun a b => a.lamportTimestamp ≤ b.lamportTimestamp := by
  have htotal : Std.Total fun a b : Operation => a.lamportTimestamp ≤ b.lamportTimestamp :=
    ⟨fun a b => le_total a.lamportTimestamp b.lamportTimestamp⟩
  have htrans : IsTrans Operation fun a b => a.lamportTimestamp ≤ b.lamportTimestamp :=
    ⟨fun _ _ _ hab hbc => le_trans hab hbc⟩
  exact List.pairwise_insertionSort _ _

theorem Follows.applyOps_grown (h : History base operations) (hf : Follows base operations log replicaId b)
    (hd : Defers operations log delivered b) (hops : ∀ op ∈ ops, op ∈ operations) :
    ∃ b' log', b.applyOps ops = some b' ∧ (∀ d ∈ log, d ∈ log') ∧ Follows base operations log' replicaId b' ∧
      Defers operations log' (delivered ++ ops) b' := by
  obtain ⟨b₁, left₁, log₁, hpass₁, hdeferred₁, hleft₁, hall₁, hgrown₁, -, hf₁⟩ := hf.applyOrDefer h hops []
  rw [Buffer.applyOps, hpass₁, Option.bind_some, List.nil_append, Buffer.flushDeferredOps]
  dsimp only [Buffer.defer, DeferredOperations.drain]
  rw [hdeferred₁]
  generalize hL : (b.deferredOps.extend left₁).operations = L
  have hmemL : ∀ op, op ∈ L ↔ op ∈ b.deferredOps.operations ∨ op ∈ left₁ := fun op => by
    rw [← hL, mem_extend]
  have hL' : ∀ op ∈ L, op ∈ operations := by
    intro op hop
    cases (hmemL op).mp hop with
    | inl hop => exact hd.sub op hop
    | inr hop => exact hops op (hleft₁ op hop)
  have hf₂ : Follows base operations log₁ replicaId { b₁ with deferredOps := DeferredOperations.new } :=
    hf₁.setDeferred _
  obtain ⟨b₃, left₃, log₃, hpass₃, hdeferred₃, hleft₃, hall₃, hgrown₃, hsource₃, hf₃⟩ := hf₂.applyOrDefer h hL' []
  rw [hpass₃, Option.map_some, List.nil_append]
  have hfinal : ∀ op, op ∈ (b₃.deferredOps.extend left₃).operations ↔ op ∈ left₃ := by
    intro op
    rw [mem_extend, hdeferred₃]
    exact or_iff_right List.not_mem_nil
  refine ⟨_, log₃, rfl, fun d hd => hgrown₃ d (hgrown₁ d hd), hf₃.setDeferred _, ?_, ?_, ?_⟩
  · exact fun op hop => hL' op (hleft₃ op ((hfinal op).mp hop))
  · intro op hop
    dsimp only
    rw [hfinal]
    have hpending : op ∈ log₁ ∨ op ∈ L := by
      cases List.mem_append.mp hop with
      | inl hop =>
        cases hd.delivered op hop with
        | inl hop => exact .inl (hgrown₁ op hop)
        | inr hop => exact .inr ((hmemL op).mpr (.inl hop))
      | inr hop => exact (hall₁ op hop).imp_right fun hop => (hmemL op).mpr (.inr hop)
    cases hpending with
    | inl hop => exact .inl (hgrown₃ op hop)
    | inr hop => exact hall₃ op hop
  · intro hne
    by_contra hcomplete
    have hall : ∀ d ∈ operations, d ∈ log₁ ∨ d ∈ L := by
      intro d hd
      by_contra hnot
      obtain ⟨hlog, hdeferred⟩ := not_or.mp hnot
      refine hcomplete ⟨d, hd, fun hmem => ?_, fun hmem => hdeferred (hleft₃ d ((hfinal d).mp hmem))⟩
      cases hsource₃ d hmem with
      | inl hmem => exact hlog hmem
      | inr hmem => exact hdeferred hmem
    obtain ⟨b', hsorted⟩ := hf₂.applyOrDefer_sorted h hL' (hL ▸ sorted_extend _ _) (fun _ => rfl)
      (fun _ _ d hd _ => hall d hd) []
    rw [hpass₃, List.nil_append] at hsorted
    have hnil : left₃ = [] := congrArg Prod.snd (Option.some.inj hsorted)
    apply hne
    rw [List.eq_nil_iff_forall_not_mem]
    intro op hop
    rw [hfinal, hnil] at hop
    exact absurd hop List.not_mem_nil

theorem Follows.applyOps (h : History base operations) (hf : Follows base operations log replicaId b)
    (hd : Defers operations log delivered b) (hops : ∀ op ∈ ops, op ∈ operations) :
    ∃ b' log', b.applyOps ops = some b' ∧ Follows base operations log' replicaId b' ∧
      Defers operations log' (delivered ++ ops) b' := by
  obtain ⟨b', log', happly, -, hf', hd'⟩ := hf.applyOps_grown h hd hops
  exact ⟨b', log', happly, hf', hd'⟩

end InfiniShell.Editor
