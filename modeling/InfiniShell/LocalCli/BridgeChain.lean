import InfiniShell.Collections.LinkedChain
import InfiniShell.LocalCli.NativeBridge

namespace InfiniShell.LocalCli.NativeBridge

open Collections Collections.LinkedChain Effects
open RuntimeHost (Uuid)

def attemptId (record : NativeBridgeInputRecord) : Uuid := record.delivery.messageId

def Settled (record : NativeBridgeInputRecord) : Prop := record.delivery.state ≠ .unknown

instance (record : NativeBridgeInputRecord) : Decidable (Settled record) := inferInstanceAs (Decidable (_ ≠ _))

structure AttemptChain (records : List NativeBridgeInputRecord) : Prop where
  chained : Chained attemptId (·.delivery.replaces) records
  settled : ∀ record ∈ records.dropLast, Settled record

section Head

variable {records : List NativeBridgeInputRecord}

theorem get_byId (hnodup : (records.map attemptId).Nodup) {id : Uuid} {record : NativeBridgeInputRecord} :
    (byId records).get id = some record ↔ record ∈ records ∧ attemptId record = id := by
  have hkeys : ((records.map fun record => (record.delivery.messageId, record)).map Prod.fst).Nodup := by
    rw [List.map_map]
    exact hnodup
  rw [byId, BTreeMap.get_ofList _ _ _ hkeys, List.mem_map]
  constructor
  · intro h
    obtain ⟨other, hother, heq⟩ := h
    obtain ⟨rfl, rfl⟩ := Prod.mk.inj heq
    exact ⟨hother, rfl⟩
  · intro h
    exact ⟨record, h.1, Prod.ext h.2 rfl⟩

theorem values_byId (hnodup : (records.map attemptId).Nodup) : (byId records).values.Perm records := by
  have hkeys : ((records.map fun record => (record.delivery.messageId, record)).map Prod.fst).Nodup := by
    rw [List.map_map]
    exact hnodup
  have hperm := (BTreeMap.ofList_perm _ hkeys).map Prod.snd
  rw [List.map_map] at hperm
  exact hperm.trans (List.Perm.of_eq (List.map_id records))

variable {map : BTreeMap Uuid NativeBridgeInputRecord}

theorem replacedIds_eq {replaced : List Uuid} (hget : ∀ record ∈ records, ∀ id ∈ record.delivery.replaces,
      ∃ previous, map.get id = some previous ∧ Settled previous)
    (hnew : ∀ record ∈ records, ∀ id ∈ record.delivery.replaces, id ∉ replaced)
    (hpairwise : records.Pairwise fun a b => ∀ id ∈ a.delivery.replaces, id ∉ b.delivery.replaces) :
    ∃ replaced', replacedIds map replaced records = .ok replaced' ∧
      ∀ id, id ∈ replaced' ↔ id ∈ replaced ∨ ∃ record ∈ records, record.delivery.replaces = some id := by
  induction records generalizing replaced with
  | nil => exact ⟨replaced, rfl, fun id => by simp⟩
  | cons record records ih =>
    obtain ⟨hhead, htail⟩ := List.pairwise_cons.mp hpairwise
    have hget' := fun other hother => hget other (List.mem_cons_of_mem _ hother)
    cases hreplaces : record.delivery.replaces with
    | none =>
      obtain ⟨replaced', heq, hmem⟩ := ih hget' (fun other hother => hnew other (List.mem_cons_of_mem _ hother)) htail
      refine ⟨replaced', by rw [replacedIds, hreplaces, heq], fun id => ?_⟩
      rw [hmem]
      simp [hreplaces]
    | some previousId =>
      obtain ⟨previous, hprevious, hsettled⟩ := hget record List.mem_cons_self previousId hreplaces
      have hnotin := hnew record List.mem_cons_self previousId hreplaces
      have hnew' : ∀ other ∈ records, ∀ id ∈ other.delivery.replaces, id ∉ previousId :: replaced := by
        intro other hother id hid
        rw [List.mem_cons, not_or]
        constructor
        · intro heq
          exact hhead other hother previousId hreplaces (heq ▸ hid)
        · exact hnew other (List.mem_cons_of_mem _ hother) id hid
      obtain ⟨replaced', heq, hmem⟩ := ih hget' hnew' htail
      refine ⟨replaced', ?_, fun id => ?_⟩
      · rw [replacedIds, hreplaces]
        simp only [hprevious]
        rw [if_neg (by simpa [hnotin, Settled] using hsettled), heq]
      · rw [hmem]
        simp only [List.mem_cons, hreplaces, exists_eq_or_imp, Option.some.injEq]
        rw [or_assoc, or_left_comm, eq_comm (a := id)]

variable {before : List NativeBridgeInputRecord} {last : NativeBridgeInputRecord}

theorem walkBack_eq {fuel : Nat} {visited : List Uuid}
    (hchain : Chained attemptId (·.delivery.replaces) (before ++ [last]))
    (hget : ∀ record ∈ before ++ [last], map.get (attemptId record) = some record)
    (hnew : ∀ record ∈ before ++ [last], attemptId record ∉ visited) (hfuel : before.length < fuel) :
    ∃ visited', walkBack map fuel visited (some (attemptId last)) = .ok visited' ∧
      visited'.length = visited.length + before.length + 1 := by
  induction before using List.reverseRecOn generalizing last fuel visited with
  | nil =>
    obtain ⟨fuel, rfl⟩ := Nat.exists_eq_succ_of_ne_zero (Nat.ne_of_gt hfuel)
    have hnotin := hnew last (List.mem_singleton_self _)
    have hfirst : last.delivery.replaces = none := hchain.previous_last
    refine ⟨attemptId last :: visited, ?_, rfl⟩
    rw [walkBack, if_neg hnotin, hget last (List.mem_singleton_self _)]
    simp only
    rw [hfirst, walkBack]
  | append_singleton before middle ih =>
    obtain ⟨fuel, rfl⟩ := Nat.exists_eq_succ_of_ne_zero (Nat.ne_of_gt (Nat.zero_lt_of_lt hfuel))
    rw [List.length_append, List.length_singleton] at hfuel
    have hlast : last ∈ before ++ [middle] ++ [last] := List.mem_append_right _ (List.mem_singleton_self _)
    have hprevious : last.delivery.replaces = some (attemptId middle) := by
      have h : last.delivery.replaces = (before ++ [middle]).getLast?.map attemptId := hchain.previous_last
      rw [List.getLast?_concat] at h
      exact h
    have hnotlast : ∀ record ∈ before ++ [middle], attemptId record ≠ attemptId last := by
      intro record hrecord heq
      have hnodup := hchain.nodup
      rw [List.map_append, List.map_singleton] at hnodup
      exact List.disjoint_of_nodup_append hnodup (List.mem_map_of_mem hrecord) (heq ▸ List.mem_singleton_self _)
    have hnew' : ∀ record ∈ before ++ [middle], attemptId record ∉ attemptId last :: visited := by
      intro record hrecord
      rw [List.mem_cons, not_or]
      exact ⟨hnotlast record hrecord, hnew record (List.mem_append_left _ hrecord)⟩
    have hfuel' : before.length < fuel := by omega
    obtain ⟨visited', heq, hlength⟩ := ih hchain.of_append
      (fun record hrecord => hget record (List.mem_append_left _ hrecord)) hnew' hfuel'
    refine ⟨visited', ?_, ?_⟩
    · rw [walkBack, if_neg (hnew last hlast), hget last hlast]
      simp only
      rw [hprevious, heq]
    · rw [hlength, List.length_cons, List.length_append, List.length_singleton]
      omega

theorem filter_eq_singleton {α : Type} {l : List α} {a : α} {p : α → Bool} (hnodup : l.Nodup) (ha : a ∈ l)
    (hp : ∀ b ∈ l, p b = true ↔ b = a) : l.filter p = [a] := by
  have hperm : (l.filter p).Perm [a] := by
    rw [List.perm_ext_iff_of_nodup (hnodup.filter p) (List.nodup_singleton a)]
    intro b
    rw [List.mem_filter, List.mem_singleton]
    constructor
    · intro hb
      exact (hp b hb.1).mp hb.2
    · intro hb
      exact ⟨hb ▸ ha, (hp b (hb ▸ ha)).mpr hb⟩
  exact List.perm_singleton.mp hperm

theorem chainHead_eq (h : AttemptChain (before ++ [last])) : chainHead (before ++ [last]) = .ok last := by
  have hnodup := h.chained.nodup
  have hvalues := values_byId hnodup
  have hlast : last ∈ before ++ [last] := List.mem_append_right _ (List.mem_singleton_self _)
  have hsettled : ∀ record ∈ before, Settled record := by
    intro record hrecord
    refine h.settled record ?_
    rw [List.dropLast_concat]
    exact hrecord
  obtain ⟨replaced, hreplaced, hmem⟩ : ∃ replaced, replacedIds (byId (before ++ [last])) []
      (byId (before ++ [last])).values = .ok replaced ∧ ∀ id, id ∈ replaced ↔
        id ∈ [] ∨ ∃ record ∈ (byId (before ++ [last])).values, record.delivery.replaces = some id := by
    apply replacedIds_eq
    · intro record hrecord id hid
      obtain ⟨previous, hprevious, heq⟩ := h.chained.exists_of_previous (hvalues.mem_iff.mp hrecord) hid
      rw [List.dropLast_concat] at hprevious
      exact ⟨previous, (get_byId hnodup).mpr ⟨List.mem_append_left _ hprevious, heq⟩, hsettled previous hprevious⟩
    · exact fun _ _ _ _ => List.not_mem_nil
    · have hdistinct : (byId (before ++ [last])).values.Nodup :=
        hvalues.nodup_iff.mpr (List.Nodup.of_map _ hnodup)
      refine hdistinct.pairwise_of_forall_ne ?_
      intro a ha b hb hne id hida hidb
      exact hne (h.chained.previous_injective (hvalues.mem_iff.mp ha) (hvalues.mem_iff.mp hb) hida hidb)
  have hheads : ((byId (before ++ [last])).values.filter fun record => record.delivery.messageId ∉ replaced) = [last] := by
    apply filter_eq_singleton (hvalues.nodup_iff.mpr (List.Nodup.of_map _ hnodup)) (hvalues.mem_iff.mpr hlast)
    intro record hrecord
    rw [decide_eq_true_iff, hmem]
    constructor
    · intro hfree
      cases List.mem_append.mp (hvalues.mem_iff.mp hrecord) with
      | inl hbefore =>
        have hdrop : record ∈ (before ++ [last]).dropLast := by
          rw [List.dropLast_concat]
          exact hbefore
        obtain ⟨next, hnext, heq⟩ := h.chained.exists_next hdrop
        exact absurd (Or.inr ⟨next, hvalues.mem_iff.mpr hnext, heq⟩) hfree
      | inr hend => exact List.mem_singleton.mp hend
    · intro heq hin
      cases hin with
      | inl hin => exact List.not_mem_nil hin
      | inr hin =>
        obtain ⟨next, hnext, hreplaces⟩ := hin
        obtain ⟨previous, hprevious, hid⟩ := h.chained.exists_of_previous (hvalues.mem_iff.mp hnext) hreplaces
        rw [List.dropLast_concat] at hprevious
        rw [List.map_append, List.map_singleton] at hnodup
        refine List.disjoint_of_nodup_append hnodup (List.mem_map_of_mem hprevious) ?_
        rw [hid, heq]
        exact List.mem_singleton_self _
  have hlength : (byId (before ++ [last])).entries.length = before.length + 1 := by
    have hlength := hvalues.length_eq
    rw [BTreeMap.values, List.length_map, List.length_append, List.length_singleton] at hlength
    exact hlength
  obtain ⟨visited, hvisited, hcount⟩ : ∃ visited, walkBack (byId (before ++ [last]))
      ((byId (before ++ [last])).entries.length + 1) [] (some (attemptId last)) = .ok visited ∧
        visited.length = [].length + before.length + 1 := by
    apply walkBack_eq h.chained
    · exact fun record hrecord => (get_byId hnodup).mpr ⟨hrecord, rfl⟩
    · exact fun _ _ => List.not_mem_nil
    · omega
  have hall : ¬visited.length ≠ (byId (before ++ [last])).entries.length := by
    rw [hcount, hlength, List.length_nil, Nat.zero_add]
    exact fun hne => hne rfl
  rw [chainHead, headOf, hreplaced, Results.ok_bind]
  rw [hheads]
  simp only
  change (walkBack (byId (before ++ [last])) _ [] (some (attemptId last)) >>= _) = _
  rw [hvisited, Results.ok_bind, if_neg hall]
  rfl

end Head

end InfiniShell.LocalCli.NativeBridge
