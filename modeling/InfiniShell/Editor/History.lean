import InfiniShell.Editor.UndoResult
import Mathlib.Data.List.Perm.Basic

namespace InfiniShell.Crdt

variable {E S : Type} (apply : S → E → S) (DependsOn : E → E → Prop)

def Causal (events : List E) : Prop := events.Pairwise fun a b => ¬DependsOn a b

def ConcurrentCommute (P : E → Prop) : Prop :=
  ∀ a b, P a → P b → a ≠ b → ¬DependsOn a b → ¬DependsOn b a → ∀ s, apply (apply s a) b = apply (apply s b) a

variable {apply DependsOn}

theorem foldl_move_front {a : E} {before after : List E}
    (hcomm : ∀ b ∈ before, ∀ s, apply (apply s b) a = apply (apply s a) b) (s : S) :
    (before ++ a :: after).foldl apply s = (a :: (before ++ after)).foldl apply s := by
  induction before generalizing s with
  | nil => rfl
  | cons b before ih =>
    have ih := ih (fun c hc => hcomm c (List.mem_cons_of_mem b hc)) (apply s b)
    rw [List.cons_append, List.foldl_cons, ih, List.cons_append, List.foldl_cons, List.foldl_cons, List.foldl_cons,
      hcomm b List.mem_cons_self s]

variable {P : E → Prop}

theorem foldl_eq_of_perm (hcomm : ConcurrentCommute apply DependsOn P) {events events' : List E}
    (hperm : events.Perm events') (hnodup : events.Nodup) (hP : ∀ e ∈ events, P e)
    (hcausal : Causal DependsOn events) (hcausal' : Causal DependsOn events') (s : S) :
    events.foldl apply s = events'.foldl apply s := by
  induction events generalizing events' s with
  | nil => rw [hperm.nil_eq]
  | cons a events ih =>
    obtain ⟨before, after, rfl⟩ := List.append_of_mem (hperm.mem_iff.mp List.mem_cons_self)
    have hperm := (hperm.trans List.perm_middle).cons_inv
    obtain ⟨hmem, hnodup⟩ := List.nodup_cons.mp hnodup
    obtain ⟨ha, hcausal⟩ := List.pairwise_cons.mp hcausal
    have hbefore := (List.pairwise_append.mp hcausal').2.2
    have hfront : ∀ b ∈ before, ∀ s, apply (apply s b) a = apply (apply s a) b := by
      intro b hb
      have hb' : b ∈ events := hperm.mem_iff.mpr (List.mem_append_left after hb)
      have hne : b ≠ a := fun h => hmem (h ▸ hb')
      exact hcomm b a (hP b (List.mem_cons_of_mem a hb')) (hP a List.mem_cons_self) hne
        (hbefore b hb a List.mem_cons_self) (ha b hb')
    have hcausal' : Causal DependsOn (before ++ after) :=
      List.Pairwise.sublist ((List.Sublist.refl before).append (List.sublist_cons_self a after)) hcausal'
    rw [foldl_move_front hfront, List.foldl_cons, List.foldl_cons]
    exact ih hperm hnodup (fun e he => hP e (List.mem_cons_of_mem a he)) hcausal hcausal' (apply s a)

theorem foldl_after (hcomm : ConcurrentCommute apply DependsOn P) {events history : List E}
    [DecidableEq E] (hnodup : history.Nodup) (hnodup' : events.Nodup) (hsub : ∀ e ∈ events, e ∈ history)
    (hP : ∀ e ∈ history, P e) (hcausal : Causal DependsOn events) (hcausal' : Causal DependsOn history)
    (hclosed : ∀ e ∈ events, ∀ d ∈ history, DependsOn e d → d ∈ events) (s : S) :
    history.foldl apply s = (history.filter (· ∉ events)).foldl apply (events.foldl apply s) := by
  rw [← List.foldl_append]
  refine foldl_eq_of_perm hcomm ?_ hnodup hP hcausal' ?_ s
  · have hfilter : (history.filter (· ∈ events)).Perm events := by
      rw [List.perm_ext_iff_of_nodup (hnodup.filter _) hnodup']
      intro e
      simp only [List.mem_filter, decide_eq_true_eq]
      exact ⟨fun h => h.2, fun h => ⟨hsub e h, h⟩⟩
    refine (List.Perm.trans ?_ (hfilter.append_right _))
    have hsplit := (List.filter_append_perm (fun e => decide (e ∈ events)) history).symm
    simpa using hsplit
  · refine List.pairwise_append.mpr ⟨hcausal, hcausal'.sublist List.filter_sublist, ?_⟩
    intro e he d hd hdepends
    rw [List.mem_filter, decide_eq_true_eq] at hd
    exact hd.2 (hclosed e he d hd.1 hdepends)

end InfiniShell.Crdt

namespace InfiniShell.Editor

open Collections Crdt

def Operation.versions : Operation → Global
  | edit op => op.versions
  | undo op => op.versions

def Operation.applyTo (doc : Elements) : Operation → Elements
  | edit op => op.replacement.apply doc
  | undo _ => doc

def replay (base : Elements) (log : List Operation) : Elements := log.foldl Operation.applyTo base

def DependsOn (op other : Operation) : Prop := op.versions.observed other.lamportTimestamp = true

/-- An edit where it was made: its anchors name the ends of `M` in the characters that `past` led to. -/
structure MadeAt (base : Elements) (operations : List Operation) (op : EditOperation) (past : List Operation)
    (A M R : Elements) : Prop where
  sub : ∀ d ∈ past, d ∈ operations
  nodup : past.Nodup
  causal : Causal DependsOn past
  observed : ∀ d ∈ operations, op.versions.observed d.lamportTimestamp = true ↔ d ∈ past
  doc : replay base past = A ++ M ++ R
  start : anchorFor op.startId op.startCharacterOffset = anchorOf A
  stop : anchorFor op.endId op.endCharacterOffset = anchorOf (A ++ M)
  startBase : op.startCharacterOffset = 0 → op.startId = Lamport.new baseReplicaId
  stopBase : op.endCharacterOffset = 0 → op.endId = Lamport.new baseReplicaId
  startObserved : op.versions.observed op.startId = true
  stopObserved : op.versions.observed op.endId = true

structure History (base : Elements) (operations : List Operation) : Prop where
  unique : ∀ op ∈ operations, ∀ d ∈ operations, op.lamportTimestamp = d.lamportTimestamp → op = d
  later : ∀ op ∈ operations, ∀ replicaId, op.versions.get replicaId < op.lamportTimestamp.value
  exact : ∀ op ∈ operations, ∀ replicaId, op.versions.get replicaId = 0 ∨
    ∃ d ∈ operations, d.lamportTimestamp = ⟨replicaId, op.versions.get replicaId⟩
  fifo : ∀ op ∈ operations, ∀ d ∈ operations, d.replicaId = op.replicaId →
    d.lamportTimestamp.value < op.lamportTimestamp.value → DependsOn op d
  trans : ∀ op ∈ operations, ∀ d ∈ operations, ∀ e ∈ operations, DependsOn op d → DependsOn d e → DependsOn op e
  edits : ∀ op, .edit op ∈ operations → ∃ past A M R, MadeAt base operations op past A M R
  undos : ∀ op, .undo op ∈ operations → ∀ edit ∈ op.operations, edit ≤ op.versions.get op.lamportTimestamp.replicaId

/-- The operations of `log` have been applied: the versions tell which these are. -/
structure Observes (base : Elements) (operations log : List Operation) (versions : Global) (doc : Elements) :
    Prop where
  sub : ∀ d ∈ log, d ∈ operations
  nodup : log.Nodup
  causal : Causal DependsOn log
  closed : ∀ op ∈ log, ∀ d ∈ operations, DependsOn op d → d ∈ log
  observed : ∀ d ∈ operations, versions.observed d.lamportTimestamp = true ↔ d ∈ log
  exact : ∀ replicaId, versions.get replicaId = 0 ∨ ∃ d ∈ log, d.lamportTimestamp = ⟨replicaId, versions.get replicaId⟩
  replayed : doc = replay base log
  docObserved : ∀ key ∈ keys doc, versions.observed key.1 = true
  docNodup : (keys doc).Nodup

/-- A replica that has applied the operations of `log`, all its own among them. -/
structure Knows (base : Elements) (operations log : List Operation) (clock : Lamport) (versions : Global)
    (doc : Elements) : Prop extends Observes base operations log versions doc where
  own : ∀ d ∈ operations, d.replicaId = clock.replicaId → d ∈ log
  bounded : ∀ replicaId, versions.get replicaId ≤ clock.value

section Made

variable {base doc : Elements} {operations log : List Operation} {op : Operation} {clock : Lamport} {versions : Global}

theorem nodup_keys_runFrom (ts : Lamport) (offset : Nat) (values : List Char) :
    (keys (runFrom ts offset values)).Nodup := by
  rw [keys_runFrom]
  exact List.Nodup.map (fun i j hij => congrArg Prod.snd hij) List.nodup_range'

theorem mem_keys_applyTo {key : Key Lamport} (h : key ∈ keys (op.applyTo doc)) :
    key ∈ keys doc ∨ key.1 = op.lamportTimestamp := by
  cases op with
  | edit op => exact Replacement.mem_keys_apply h
  | undo op => exact .inl h

theorem nodup_keys_applyTo (h : (keys doc).Nodup) (hnew : ∀ key ∈ keys doc, key.1 ≠ op.lamportTimestamp) :
    (keys (op.applyTo doc)).Nodup := by
  cases op with
  | edit op => exact Replacement.nodup_keys_apply h (nodup_keys_runFrom ..) hnew
  | undo op => exact h

theorem keys_replay_sublist (base : Elements) (log : List Operation) :
    (keys base).Sublist (keys (replay base log)) := by
  induction log generalizing base with
  | nil => exact List.Sublist.refl _
  | cons op log ih =>
    have hop : (keys base).Sublist (keys (op.applyTo base)) := by
      cases op with
      | edit op => exact Replacement.keys_apply_sublist op.replacement base
      | undo op => exact List.Sublist.refl _
    exact hop.trans (ih (op.applyTo base))

theorem Global.observed_congr {versions versions' : Global} (h : ∀ replicaId, versions'.get replicaId = versions.get replicaId)
    (timestamp : Lamport) : versions'.observed timestamp = versions.observed timestamp := by
  rw [Global.observed, Global.observed, h]

variable {versions' : Global}

theorem Observes.congr (h : Observes base operations log versions doc)
    (hversions : ∀ replicaId, versions'.get replicaId = versions.get replicaId) :
    Observes base operations log versions' doc := by
  refine ⟨h.sub, h.nodup, h.causal, h.closed, ?_, ?_, h.replayed, ?_, h.docNodup⟩
  · intro d hd
    rw [Global.observed_congr hversions, h.observed d hd]
  · intro replicaId
    rw [hversions]
    exact h.exact replicaId
  · intro key hkey
    rw [Global.observed_congr hversions]
    exact h.docObserved key hkey

theorem Observes.le {operations' log' : List Operation} {doc' : Elements}
    (h : Observes base operations log versions doc) (h' : Observes base operations' log' versions' doc')
    (hsub : ∀ d ∈ log, d ∈ log') (replicaId : ReplicaId) : versions.get replicaId ≤ versions'.get replicaId := by
  cases h.exact replicaId with
  | inl hzero => omega
  | inr hexact =>
    obtain ⟨d, hd, hts⟩ := hexact
    have hobserved := (h'.observed d (h'.sub d (hsub d hd))).mpr (hsub d hd)
    rw [hts] at hobserved
    exact Global.observed_iff.mp hobserved

theorem Knows.congr (h : Knows base operations log clock versions doc)
    (hversions : ∀ replicaId, versions'.get replicaId = versions.get replicaId) :
    Knows base operations log clock versions' doc := by
  refine ⟨h.toObserves.congr hversions, h.own, fun replicaId => ?_⟩
  rw [hversions]
  exact h.bounded replicaId

theorem Observes.extend (h : History base operations) (ho : Observes base operations log versions doc)
    (hop : op ∈ operations) (hnot : op ∉ log) (hdepends : ∀ d ∈ operations, DependsOn op d → d ∈ log) :
    Observes base operations (log ++ [op]) (versions.observe op.lamportTimestamp) (op.applyTo doc) := by
  have hfalse : versions.observed op.lamportTimestamp ≠ true := fun htrue => hnot ((ho.observed op hop).mp htrue)
  refine ⟨?_, ?_, ?_, ?_, ?_, ?_, ?_, ?_, ?_⟩
  · intro d hd
    cases List.mem_append.mp hd with
    | inl hd => exact ho.sub d hd
    | inr hd => rwa [List.mem_singleton.mp hd]
  · refine List.nodup_append.mpr ⟨ho.nodup, List.nodup_singleton op, ?_⟩
    intro d hd e he heq
    rw [List.mem_singleton.mp he] at heq
    exact hnot (heq ▸ hd)
  · refine List.pairwise_append.mpr ⟨ho.causal, List.pairwise_singleton _ op, ?_⟩
    intro d hd e he hde
    rw [List.mem_singleton.mp he] at hde
    exact hnot (ho.closed d hd op hop hde)
  · intro d hd e he hde
    apply List.mem_append_left
    cases List.mem_append.mp hd with
    | inl hd => exact ho.closed d hd e he hde
    | inr hd =>
      rw [List.mem_singleton.mp hd] at hde
      exact hdepends e he hde
  · intro d hd
    constructor
    · intro hobserved
      have hle := Global.observed_iff.mp hobserved
      rw [Global.get_observe] at hle
      split at hle
      next hreplica =>
        by_cases hold : d.lamportTimestamp.value ≤ versions.get d.lamportTimestamp.replicaId
        · exact List.mem_append_left _ ((ho.observed d hd).mp (Global.observed_iff.mpr hold))
        · by_cases hvalue : d.lamportTimestamp.value < op.lamportTimestamp.value
          · exact List.mem_append_left _ (hdepends d hd (h.fifo op hop d hd hreplica hvalue))
          · have hts : d.lamportTimestamp = op.lamportTimestamp := by
              have hvalues : d.lamportTimestamp.value = op.lamportTimestamp.value := by omega
              exact congrArg₂ Lamport.mk hreplica hvalues
            rw [h.unique d hd op hop hts]
            exact List.mem_append_right _ (List.mem_singleton.mpr rfl)
      next => exact List.mem_append_left _ ((ho.observed d hd).mp (Global.observed_iff.mpr hle))
    · intro hmem
      cases List.mem_append.mp hmem with
      | inl hmem => exact Global.observed_observe ((ho.observed d hd).mpr hmem)
      | inr hmem =>
        rw [List.mem_singleton.mp hmem]
        exact Global.observed_self versions _
  · intro replicaId
    have hlog : versions.get replicaId = 0 ∨
        ∃ d ∈ log ++ [op], d.lamportTimestamp = ⟨replicaId, versions.get replicaId⟩ := by
      refine (ho.exact replicaId).imp_right fun hexact => ?_
      obtain ⟨d, hd, hts⟩ := hexact
      exact ⟨d, List.mem_append_left _ hd, hts⟩
    rw [Global.get_observe]
    split
    next hreplica =>
      cases Nat.le_total (versions.get replicaId) op.lamportTimestamp.value with
      | inl hle =>
        rw [Nat.max_eq_right hle, hreplica]
        exact .inr ⟨op, List.mem_append_right _ (List.mem_singleton.mpr rfl), rfl⟩
      | inr hle =>
        rw [Nat.max_eq_left hle]
        exact hlog
    next => exact hlog
  · rw [replay, List.foldl_append, ho.replayed]
    rfl
  · intro key hkey
    cases mem_keys_applyTo hkey with
    | inl hkey => exact Global.observed_observe (ho.docObserved key hkey)
    | inr hkey =>
      rw [hkey]
      exact Global.observed_self versions _
  · apply nodup_keys_applyTo ho.docNodup
    intro key hkey heq
    exact hfalse (heq ▸ ho.docObserved key hkey)

theorem History.concurrentCommute (h : History base operations) :
    ConcurrentCommute Operation.applyTo DependsOn (· ∈ operations) := by
  intro a b ha hb hne hab hba doc
  have hignores : ∀ {a b : EditOperation}, .edit a ∈ operations → ¬DependsOn (.edit a) (.edit b) →
      a.replacement.Ignores b.lamportTimestamp := by
    intro a b ha hab
    obtain ⟨past, A, M, R, hmade⟩ := h.edits a ha
    have hfalse : a.versions.observed b.lamportTimestamp = false := Bool.eq_false_iff.mpr hab
    have happart : ∀ {id offset}, a.versions.observed id = true → Apart b.lamportTimestamp (anchorFor id offset) := by
      intro id offset hid key hkey heq
      rw [anchorFor] at hkey
      split at hkey
      next => exact absurd hkey (Option.not_mem_none key)
      next =>
        rw [← Option.some.inj hkey] at heq
        change id = b.lamportTimestamp at heq
        rw [heq, hfalse] at hid
        exact Bool.false_ne_true hid
    exact ⟨happart hmade.startObserved, happart hmade.stopObserved, hfalse⟩
  cases a with
  | undo a => rfl
  | edit a =>
    cases b with
    | undo b => rfl
    | edit b =>
      have hts : b.replacement.ts ≠ a.replacement.ts := fun heq => hne (h.unique _ ha _ hb heq.symm)
      exact Replacement.apply_comm hts (hignores hb hba) (hignores ha hab) doc

end Made

/-- The timestamp is the next of the clock; it has observed and fits what the replica has. -/
structure Made (operations : List Operation) (clock : Lamport) (versions : Global) (doc : Elements)
    (op : Operation) : Prop where
  timestamp : op.lamportTimestamp = clock.tick
  versionsGet : ∀ replicaId, op.versions.get replicaId = versions.get replicaId
  edit : ∀ e, op = .edit e → ∃ A M R, doc = A ++ M ++ R ∧
    anchorFor e.startId e.startCharacterOffset = anchorOf A ∧ anchorFor e.endId e.endCharacterOffset = anchorOf (A ++ M) ∧
    (e.startCharacterOffset = 0 → e.startId = Lamport.new baseReplicaId) ∧
    (e.endCharacterOffset = 0 → e.endId = Lamport.new baseReplicaId) ∧
    versions.observed e.startId = true ∧ versions.observed e.endId = true
  undo : ∀ u, op = .undo u → ∀ edit ∈ u.operations, edit ≤ versions.get clock.replicaId

section Generate

variable {base doc doc' : Elements} {operations log log' : List Operation} {op : Operation} {clock clock' : Lamport}
variable {versions versions' : Global}

theorem Knows.lt_tick (hk : Knows base operations log clock versions doc) {d : Operation} (hd : d ∈ operations)
    (hreplica : d.replicaId = clock.replicaId) : d.lamportTimestamp.value < clock.tick.value := by
  have hobserved := Global.observed_iff.mp ((hk.observed d hd).mpr (hk.own d hd hreplica))
  exact Nat.lt_succ_of_le (hobserved.trans (hk.bounded _))

section Fresh

variable (hlt : ∀ d ∈ operations, d.replicaId = op.replicaId → d.lamportTimestamp.value < op.lamportTimestamp.value)
variable (hpos : 0 < op.lamportTimestamp.value)

include hlt

theorem not_mem_of_fresh : op ∉ operations := fun hmem => Nat.lt_irrefl _ (hlt op hmem rfl)

include hpos

theorem History.not_dependsOn_fresh (h : History base operations) {d : Operation} (hd : d ∈ operations) :
    ¬DependsOn d op := by
  intro hdepends
  have hle := Global.observed_iff.mp hdepends
  cases h.exact d hd op.lamportTimestamp.replicaId with
  | inl hzero => omega
  | inr hexact =>
    obtain ⟨e, he, hts⟩ := hexact
    have hltE := hlt e he (by rw [Operation.replicaId, hts]; rfl)
    rw [hts] at hltE
    dsimp only at hltE
    omega

theorem Observes.not_observed_fresh (hk : Observes base operations log versions doc) :
    versions.observed op.lamportTimestamp = false := by
  apply Bool.eq_false_iff.mpr
  intro hobserved
  have hle := Global.observed_iff.mp hobserved
  cases hk.exact op.lamportTimestamp.replicaId with
  | inl hzero => omega
  | inr hexact =>
    obtain ⟨e, he, hts⟩ := hexact
    have hltE := hlt e (hk.sub e he) (by rw [Operation.replicaId, hts]; rfl)
    rw [hts] at hltE
    dsimp only at hltE
    omega

theorem Observes.mono (h : History base operations) (ho : Observes base operations log versions doc) :
    Observes base (operations ++ [op]) log versions doc := by
  have hfresh := ho.not_observed_fresh hlt hpos
  have hnot := not_mem_of_fresh hlt
  refine ⟨fun d hd => List.mem_append_left _ (ho.sub d hd), ho.nodup, ho.causal, ?_, ?_, ho.exact, ho.replayed,
    ho.docObserved, ho.docNodup⟩
  · intro d hd e he hdepends
    cases List.mem_append.mp he with
    | inl he => exact ho.closed d hd e he hdepends
    | inr he =>
      rw [List.mem_singleton.mp he] at hdepends
      exact absurd hdepends (h.not_dependsOn_fresh hlt hpos (ho.sub d hd))
  · intro d hd
    cases List.mem_append.mp hd with
    | inl hd => exact ho.observed d hd
    | inr hd =>
      rw [List.mem_singleton.mp hd, hfresh]
      exact ⟨fun hfalse => absurd hfalse Bool.false_ne_true, fun hmem => absurd (ho.sub op hmem) hnot⟩

theorem Knows.other (h : History base operations) (hk : Knows base operations log clock versions doc)
    (hne : op.replicaId ≠ clock.replicaId) : Knows base (operations ++ [op]) log clock versions doc := by
  refine ⟨hk.toObserves.mono hlt hpos h, ?_, hk.bounded⟩
  intro d hd hreplica
  cases List.mem_append.mp hd with
  | inl hd => exact hk.own d hd hreplica
  | inr hd =>
    rw [List.mem_singleton.mp hd] at hreplica
    exact absurd hreplica hne

end Fresh

section

variable (hop : Made operations clock versions doc op)
include hop

theorem Made.pos : 0 < op.lamportTimestamp.value := by
  rw [hop.timestamp]
  exact Nat.succ_pos _

theorem Made.replicaId : op.replicaId = clock.replicaId := by
  rw [Operation.replicaId, hop.timestamp]
  rfl

theorem Made.lt (hk : Knows base operations log clock versions doc) :
    ∀ d ∈ operations, d.replicaId = op.replicaId → d.lamportTimestamp.value < op.lamportTimestamp.value := by
  intro d hd hreplica
  rw [hop.timestamp]
  exact hk.lt_tick hd (hreplica.trans hop.replicaId)

theorem Made.dependsOn_iff
    (hk : Knows base operations log clock versions doc) {d : Operation} (hd : d ∈ operations ++ [op]) :
    DependsOn op d ↔ d ∈ log := by
  have hobserved : op.versions.observed d.lamportTimestamp = versions.observed d.lamportTimestamp :=
    Global.observed_congr hop.versionsGet _
  rw [DependsOn, hobserved]
  cases List.mem_append.mp hd with
  | inl hd => exact hk.observed d hd
  | inr hd =>
    rw [List.mem_singleton.mp hd, hk.not_observed_fresh (hop.lt hk) hop.pos]
    exact ⟨fun hfalse => absurd hfalse Bool.false_ne_true,
      fun hmem => absurd (hk.sub op hmem) (not_mem_of_fresh (hop.lt hk))⟩

end

variable {e : EditOperation}

theorem MadeAt.mono {past : List Operation} {A M R : Elements}
    (h : MadeAt base operations e past A M R) (hnot : op ∉ operations) (hindependent : ¬DependsOn (.edit e) op) :
    MadeAt base (operations ++ [op]) e past A M R := by
  refine ⟨fun d hd => List.mem_append_left _ (h.sub d hd), h.nodup, h.causal, ?_, h.doc, h.start, h.stop, h.startBase,
    h.stopBase, h.startObserved, h.stopObserved⟩
  intro d hd
  cases List.mem_append.mp hd with
  | inl hd => exact h.observed d hd
  | inr hd =>
    rw [List.mem_singleton.mp hd]
    exact ⟨fun hobserved => absurd hobserved hindependent, fun hmem => absurd (h.sub op hmem) hnot⟩

variable (h : History base operations)
include h

section

variable (hk : Knows base operations log clock versions doc)
include hk

theorem History.generate
    (hop : Made operations clock versions doc op) : History base (operations ++ [op]) := by
  have hlt := hop.lt hk
  have hnot := not_mem_of_fresh hlt
  have hold : ∀ {d}, d ∈ operations → ¬DependsOn d op := fun hd => h.not_dependsOn_fresh hlt hop.pos hd
  have hcases : ∀ {d}, d ∈ operations ++ [op] → d ∈ operations ∨ d = op := by
    intro d hd
    cases List.mem_append.mp hd with
    | inl hd => exact .inl hd
    | inr hd => exact .inr (List.mem_singleton.mp hd)
  have hfresh : ∀ d ∈ operations, d.lamportTimestamp ≠ op.lamportTimestamp := by
    intro d hd heq
    have hltD := hlt d hd (congrArg Lamport.replicaId heq)
    rw [heq] at hltD
    exact Nat.lt_irrefl _ hltD
  constructor
  · intro a ha b hb heq
    cases hcases ha with
    | inl ha =>
      cases hcases hb with
      | inl hb => exact h.unique a ha b hb heq
      | inr hb => exact absurd (hb ▸ heq) (hfresh a ha)
    | inr ha =>
      cases hcases hb with
      | inl hb => exact absurd (ha ▸ heq).symm (hfresh b hb)
      | inr hb => rw [ha, hb]
  · intro a ha replicaId
    cases hcases ha with
    | inl ha => exact h.later a ha replicaId
    | inr ha =>
      rw [ha, hop.versionsGet, hop.timestamp]
      exact Nat.lt_succ_of_le (hk.bounded replicaId)
  · intro a ha replicaId
    cases hcases ha with
    | inl ha =>
      refine (h.exact a ha replicaId).imp_right fun hexact => ?_
      obtain ⟨d, hd, hts⟩ := hexact
      exact ⟨d, List.mem_append_left _ hd, hts⟩
    | inr ha =>
      rw [ha, hop.versionsGet]
      refine (hk.exact replicaId).imp_right fun hexact => ?_
      obtain ⟨d, hd, hts⟩ := hexact
      exact ⟨d, List.mem_append_left _ (hk.sub d hd), hts⟩
  · intro a ha d hd hreplica hvalue
    cases hcases ha with
    | inl ha =>
      cases hcases hd with
      | inl hd => exact h.fifo a ha d hd hreplica hvalue
      | inr hd =>
        rw [hd] at hreplica hvalue
        exact absurd (hlt a ha hreplica.symm) (Nat.not_lt.mpr hvalue.le)
    | inr ha =>
      rw [ha] at hreplica hvalue ⊢
      rw [hop.dependsOn_iff hk hd]
      cases hcases hd with
      | inl hd => exact hk.own d hd (hreplica.trans hop.replicaId)
      | inr hd => exact absurd (hd ▸ hvalue) (Nat.lt_irrefl _)
  · intro a ha d hd e he had hde
    cases hcases ha with
    | inl ha =>
      cases hcases hd with
      | inl hd =>
        cases hcases he with
        | inl he => exact h.trans a ha d hd e he had hde
        | inr he => exact absurd (he ▸ hde) (hold hd)
      | inr hd => exact absurd (hd ▸ had) (hold ha)
    | inr ha =>
      rw [ha] at had ⊢
      rw [hop.dependsOn_iff hk hd] at had
      rw [hop.dependsOn_iff hk he]
      cases hcases he with
      | inl he => exact hk.closed d had e he hde
      | inr he => exact absurd (he ▸ hde) (hold (hk.sub d had))
  · intro e he
    cases hcases he with
    | inl he =>
      obtain ⟨past, A, M, R, hmade⟩ := h.edits e he
      exact ⟨past, A, M, R, hmade.mono hnot (hold he)⟩
    | inr he =>
      obtain ⟨A, M, R, hdoc, hstart, hstop, hstartBase, hstopBase, hstartObserved, hstopObserved⟩ := hop.edit e he.symm
      have hversions : ∀ id, e.versions.observed id = versions.observed id :=
        Global.observed_congr fun replicaId => by
          rw [← hop.versionsGet, ← he]
          rfl
      refine ⟨log, A, M, R, fun d hd => List.mem_append_left _ (hk.sub d hd), hk.nodup, hk.causal, ?_,
        hk.replayed.symm.trans hdoc, hstart, hstop, hstartBase, hstopBase, ?_, ?_⟩
      · intro d hd
        have hiff := hop.dependsOn_iff hk hd
        rw [← he] at hiff
        exact hiff
      · rw [hversions, hstartObserved]
      · rw [hversions, hstopObserved]
  · intro u hu edit hedit
    cases hcases hu with
    | inl hu => exact h.undos u hu edit hedit
    | inr hu =>
      have hle := hop.undo u hu.symm edit hedit
      rw [← hop.versionsGet, ← hop.replicaId, ← hu] at hle
      exact hle

theorem Knows.generate (hop : Made operations clock versions doc op) :
    Knows base (operations ++ [op]) (log ++ [op]) clock.tick (versions.observe clock.tick) (op.applyTo doc) := by
  have hlt := hop.lt hk
  have hmem : op ∈ operations ++ [op] := List.mem_append_right _ (List.mem_singleton.mpr rfl)
  have hextended := (hk.toObserves.mono hlt hop.pos h).extend (h.generate hk hop) hmem
    (fun hlog => not_mem_of_fresh hlt (hk.sub op hlog)) fun d hd hdepends => (hop.dependsOn_iff hk hd).mp hdepends
  rw [hop.timestamp] at hextended
  refine ⟨hextended, ?_, ?_⟩
  · intro d hd hreplica
    cases List.mem_append.mp hd with
    | inl hd => exact List.mem_append_left _ (hk.own d hd hreplica)
    | inr hd => exact List.mem_append_right _ hd
  · intro replicaId
    have hle := hk.bounded replicaId
    rw [Global.get_observe]
    change _ ≤ clock.value + 1
    split
    next =>
      change max _ (clock.value + 1) ≤ _
      omega
    next => omega

theorem Knows.receive
    (hop : op ∈ operations) (hnot : op ∉ log) (hle : ∀ replicaId, op.versions.get replicaId ≤ versions.get replicaId) :
    Knows base operations (log ++ [op]) (clock.observe op.lamportTimestamp) (versions.observe op.lamportTimestamp)
      (op.applyTo doc) := by
  refine ⟨hk.toObserves.extend h hop hnot ?_, ?_, ?_⟩
  · intro d hd hdepends
    exact (hk.observed d hd).mp (Global.observed_iff.mpr ((Global.observed_iff.mp hdepends).trans (hle _)))
  · exact fun d hd hreplica => List.mem_append_left _ (hk.own d hd hreplica)
  · intro replicaId
    have hbounded := hk.bounded replicaId
    rw [Global.get_observe]
    change _ ≤ max clock.value op.lamportTimestamp.value + 1
    split
    next => omega
    next => omega

end

theorem Observes.exists_anchors (ho : Observes base operations log versions doc) (hop : .edit e ∈ operations)
    (hdepends : ∀ d ∈ operations, DependsOn (.edit e) d → d ∈ log) :
    ∃ A M R, doc = A ++ M ++ R ∧ anchorFor e.startId e.startCharacterOffset = anchorOf A ∧
      anchorFor e.endId e.endCharacterOffset = anchorOf (A ++ M) := by
  obtain ⟨past, A₀, M₀, R₀, hmade⟩ := h.edits e hop
  have hpast : ∀ d ∈ past, d ∈ log := fun d hd =>
    hdepends d (hmade.sub d hd) ((hmade.observed d (hmade.sub d hd)).mpr hd)
  have hreplay : doc = replay (replay base past) (log.filter (· ∉ past)) := by
    rw [ho.replayed]
    apply foldl_after h.concurrentCommute ho.nodup hmade.nodup hpast ho.sub hmade.causal ho.causal
    intro d hd e' he' hdepends'
    have hmem := ho.sub e' he'
    have hd' := hmade.sub d hd
    exact (hmade.observed e' hmem).mp (h.trans _ hop d hd' e' hmem ((hmade.observed d hd').mpr hd) hdepends')
  have hsub : (keys (A₀ ++ (M₀ ++ R₀))).Sublist (keys doc) := by
    rw [hreplay, ← List.append_assoc, ← hmade.doc]
    exact keys_replay_sublist _ _
  obtain ⟨A, X, rfl, hA, hX⟩ := exists_anchorOf hsub
  obtain ⟨M, R, rfl, hM, -⟩ := exists_anchorOf hX
  refine ⟨A, M, R, (List.append_assoc A M R).symm, hmade.start.trans hA.symm, hmade.stop.trans ?_⟩
  by_cases hnil : M₀ = []
  · have hM : M = [] := anchorOf_eq_none.mp (by rw [hM, hnil, anchorOf_nil])
    rw [hnil, hM, List.append_nil, List.append_nil, hA]
  · have hM' : M ≠ [] := by
      intro hM'
      rw [hM', anchorOf_nil] at hM
      exact hnil (anchorOf_eq_none.mp hM.symm)
    rw [anchorOf_append_of_ne_nil hnil, anchorOf_append_of_ne_nil hM', hM]

theorem Observes.doc_eq
    (ho : Observes base operations log versions doc) (ho' : Observes base operations log' versions' doc')
    (hsame : ∀ d, d ∈ log ↔ d ∈ log') : doc = doc' := by
  rw [ho.replayed, ho'.replayed]
  apply foldl_eq_of_perm h.concurrentCommute _ ho.nodup ho.sub ho.causal ho'.causal
  exact (List.perm_ext_iff_of_nodup ho.nodup ho'.nodup).mpr hsame

end Generate

end InfiniShell.Editor
