import Mathlib.Data.List.Nodup
import Mathlib.Data.List.Chain
import Mathlib.Data.List.Perm.Basic
import Mathlib.Tactic.Cases
import Mathlib.Data.Fintype.Card
import Mathlib.Data.Set.Finite.Basic
import Mathlib.Logic.Relation
import Mathlib.Order.WellFounded

namespace InfiniShell.Collections.LinkedChain

variable {K R : Type} {id : R → K} {previous : R → Option K} {l : List R} {r : R}

/-- The items form one chain: the first one follows nothing, every other one the item before it. -/
structure Chained (id : R → K) (previous : R → Option K) (l : List R) : Prop where
  nodup : (l.map id).Nodup
  first : ∀ r ∈ l.head?, previous r = none
  links : l.IsChain fun a b => previous b = some (id a)

theorem Chained.nil : Chained id previous [] := ⟨List.nodup_nil, nofun, List.isChain_nil⟩

theorem Chained.snoc (h : Chained id previous l) (hnew : id r ∉ l.map id)
    (hprevious : previous r = l.getLast?.map id) : Chained id previous (l ++ [r]) := by
  refine ⟨?_, ?_, ?_⟩
  · rw [List.map_append, List.map_singleton]
    exact List.nodup_append_comm.mp (List.nodup_cons.mpr ⟨hnew, h.nodup⟩)
  · cases l with
    | nil =>
      intro other hother
      obtain rfl := Option.some.inj hother
      exact hprevious
    | cons a l => exact h.first
  · rw [List.isChain_append]
    refine ⟨h.links, List.isChain_singleton r, ?_⟩
    intro a ha b hb
    obtain rfl := Option.some.inj hb
    rw [hprevious, ha]
    rfl

theorem Chained.of_append {m : List R} (h : Chained id previous (l ++ m)) : Chained id previous l := by
  refine ⟨?_, ?_, (List.isChain_append.mp h.links).1⟩
  · have hnodup := h.nodup
    rw [List.map_append] at hnodup
    exact hnodup.of_append_left
  · cases l with
    | nil => exact nofun
    | cons a l => exact h.first

theorem Chained.previous_last (h : Chained id previous (l ++ [r])) : previous r = l.getLast?.map id := by
  cases hlast : l.getLast? with
  | none =>
    obtain rfl := List.getLast?_eq_none_iff.mp hlast
    exact h.first r rfl
  | some a => exact (List.isChain_append.mp h.links).2.2 a hlast r rfl

variable (h : Chained id previous l)
include h

theorem Chained.map {f : R → R} (hid : ∀ r ∈ l, id (f r) = id r)
    (hprevious : ∀ r ∈ l, previous (f r) = previous r) : Chained id previous (l.map f) := by
  refine ⟨?_, ?_, ?_⟩
  · have heq : (l.map f).map id = l.map id := by
      rw [List.map_map]
      exact List.map_congr_left hid
    rw [heq]
    exact h.nodup
  · rw [List.head?_map]
    intro other hother
    obtain ⟨r, hr, rfl⟩ := Option.map_eq_some_iff.mp hother
    rw [hprevious r (List.mem_of_head? hr)]
    exact h.first r hr
  · rw [List.isChain_map]
    refine h.links.imp_of_mem_imp ?_
    intro a b ha hb hab
    rw [hprevious b hb, hid a ha]
    exact hab

theorem Chained.exists_of_previous (hr : r ∈ l) {k : K} (hk : previous r = some k) :
    ∃ a ∈ l.dropLast, id a = k := by
  induction l using List.reverseRecOn with
  | nil => exact absurd hr List.not_mem_nil
  | append_singleton l last ih =>
    rw [List.dropLast_concat]
    cases List.mem_append.mp hr with
    | inl hr =>
      obtain ⟨a, ha, heq⟩ := ih h.of_append hr
      exact ⟨a, List.dropLast_subset l ha, heq⟩
    | inr hr =>
      obtain rfl := List.mem_singleton.mp hr
      rw [h.previous_last] at hk
      obtain ⟨a, ha, heq⟩ := Option.map_eq_some_iff.mp hk
      exact ⟨a, List.mem_of_getLast? ha, heq⟩

theorem Chained.previous_injective {a b : R} (ha : a ∈ l) (hb : b ∈ l) {k : K}
    (hak : previous a = some k) (hbk : previous b = some k) : a = b := by
  induction l using List.reverseRecOn generalizing a b with
  | nil => exact absurd ha List.not_mem_nil
  | append_singleton l last ih =>
    have hlast : ∀ c ∈ l, previous c = some k → previous last = some k → c = last := by
      intro c hc hck hlastk
      obtain ⟨d, hd, hdk⟩ := h.of_append.exists_of_previous hc hck
      rw [h.previous_last] at hlastk
      obtain ⟨e, he, hek⟩ := Option.map_eq_some_iff.mp hlastk
      have hnodup := h.of_append.nodup
      have hsplit := List.dropLast_append_getLast? e he
      rw [← hsplit, List.map_append, List.map_singleton] at hnodup
      have hmem : id d ∈ l.dropLast.map id := List.mem_map_of_mem hd
      rw [hdk, ← hek] at hmem
      exact absurd (List.mem_singleton_self _) (List.disjoint_of_nodup_append hnodup hmem)
    cases List.mem_append.mp ha with
    | inl ha =>
      cases List.mem_append.mp hb with
      | inl hb => exact ih h.of_append ha hb hak hbk
      | inr hb =>
        rw [List.mem_singleton.mp hb] at hbk ⊢
        exact hlast a ha hak hbk
    | inr ha =>
      rw [List.mem_singleton.mp ha] at hak ⊢
      cases List.mem_append.mp hb with
      | inl hb => exact (hlast b hb hbk hak).symm
      | inr hb => exact (List.mem_singleton.mp hb).symm

theorem Chained.exists_next {a : R} (ha : a ∈ l.dropLast) : ∃ r ∈ l, previous r = some (id a) := by
  induction l using List.reverseRecOn with
  | nil => exact absurd ha List.not_mem_nil
  | append_singleton l last ih =>
    rw [List.dropLast_concat] at ha
    cases hlast : l.getLast? with
    | none =>
      obtain rfl := List.getLast?_eq_none_iff.mp hlast
      exact absurd ha List.not_mem_nil
    | some b =>
      rw [← List.dropLast_append_getLast? b hlast] at ha
      cases List.mem_append.mp ha with
      | inl ha =>
        obtain ⟨r, hr, hra⟩ := ih h.of_append ha
        exact ⟨r, List.mem_append_left _ hr, hra⟩
      | inr ha =>
        obtain rfl := List.mem_singleton.mp ha
        refine ⟨last, List.mem_append_right _ (List.mem_singleton_self _), ?_⟩
        rw [h.previous_last, hlast]
        rfl

end InfiniShell.Collections.LinkedChain

namespace InfiniShell.Collections

open Relation

variable {α : Type} {r : α → α → Prop}

/-- What some step leads away from and back to. -/
def Cyclic (r : α → α → Prop) (a : α) : Prop :=
  TransGen r a a

variable {a : α}

theorem Cyclic.exists_next (h : Cyclic r a) : ∃ b, r a b ∧ Cyclic r b := by
  obtain ⟨b, hab, hba⟩ := TransGen.head'_iff.mp h
  exact ⟨b, hab, TransGen.tail' hba hab⟩

theorem not_cyclic_of_acc (h : Acc (fun x y => r y x) a) : ¬Cyclic r a := by
  induction h with
  | intro a _ ih =>
    intro hcyclic
    obtain ⟨b, hab, hb⟩ := hcyclic.exists_next
    exact ih b hab hb

theorem exists_cyclic {s : Set α} (hfinite : s.Finite) (hnext : ∀ a ∈ s, ∃ b ∈ s, r a b) (ha : a ∈ s) :
    ∃ b ∈ s, Cyclic r b := by
  by_contra hnone
  have hfinite := hfinite.to_subtype
  have htrans : IsTrans s fun x y => TransGen r y.1 x.1 := ⟨fun _ _ _ hxy hyz => hyz.trans hxy⟩
  have hirrefl : Std.Irrefl (α := s) fun x y => TransGen r y.1 x.1 :=
    ⟨fun x hx => hnone ⟨x.1, x.2, hx⟩⟩
  have hwell := Finite.wellFounded_of_trans_of_irrefl fun x y : s => TransGen r y.1 x.1
  obtain ⟨m, -, hmin⟩ := hwell.has_min Set.univ ⟨⟨a, ha⟩, trivial⟩
  obtain ⟨b, hb, hstep⟩ := hnext m.1 m.2
  exact hmin ⟨b, hb⟩ trivial (TransGen.single hstep)

end InfiniShell.Collections
