import Mathlib.Data.List.Nodup
import Mathlib.Data.List.Basic

namespace InfiniShell.Collections

class BiMap (M : Type) (L R : outParam Type) where
  empty : M
  insert : M → L → R → M
  getByLeft : M → L → Option R
  getByRight : M → R → Option L
  removeByRight : M → R → M
  len : M → Nat

/-- What a `BiMap` promises: an inserted pair replaces the pairs that share a side with it. -/
class LawfulBiMap (M : Type) (L R : outParam Type) [DecidableEq L] [DecidableEq R] [BiMap M L R] : Prop where
  getByRight_iff : ∀ (m : M) (l : L) (r : R), BiMap.getByRight m r = some l ↔ BiMap.getByLeft m l = some r
  getByLeft_empty : ∀ l : L, BiMap.getByLeft (BiMap.empty : M) l = none
  getByLeft_insert : ∀ (m : M) (l l' : L) (r : R), BiMap.getByLeft (BiMap.insert m l r) l' =
    if l' = l then some r else (BiMap.getByLeft m l').filter (· ≠ r)
  getByLeft_removeByRight : ∀ (m : M) (l : L) (r : R),
    BiMap.getByLeft (BiMap.removeByRight m r) l = (BiMap.getByLeft m l).filter (· ≠ r)
  len_eq : ∀ (m : M) (pairs : List (L × R)), pairs.Nodup →
    (∀ l r, (l, r) ∈ pairs ↔ BiMap.getByLeft m l = some r) → BiMap.len m = pairs.length

namespace BiMap

variable {M L : Type} [BiMap M L Nat]

def containsLeft (m : M) (l : L) : Bool := (getByLeft m l).isSome

def isEmpty (m : M) : Bool := len m == 0

/-- The map takes the elements of the list to their indices, and nothing else. -/
def Indexes (m : M) (l : List L) : Prop := ∀ x i, getByLeft m x = some i ↔ l[i]? = some x

/-- Pairs the elements with the indices from `offset` on; also the next index. -/
def insertAll (m : M) (offset : Nat) : List L → M × Nat
  | [] => (m, offset)
  | x :: l => insertAll (insert m x offset) (offset + 1) l

/-- Removes the pairs of `count` indices from `start` on. -/
def removeRange (m : M) (start : Nat) : Nat → M
  | 0 => m
  | count + 1 => removeRange (removeByRight m start) (start + 1) count

variable [DecidableEq L] [LawfulBiMap M L Nat] {m : M} {l l' : List L}

theorem indexes_empty : Indexes (empty : M) ([] : List L) := by
  intro x i
  rw [LawfulBiMap.getByLeft_empty]
  simp

omit [DecidableEq L] [LawfulBiMap M L Nat] in
theorem Indexes.nodup (h : Indexes m l) : l.Nodup := by
  rw [List.nodup_iff_getElem?_ne_getElem?]
  intro i j hij hj heq
  have hi : l[i]? = some l[j] := heq.trans (List.getElem?_eq_getElem hj)
  have hij' := (h l[j] i).mpr hi
  rw [(h l[j] j).mpr (List.getElem?_eq_getElem hj)] at hij'
  exact absurd (Option.some.inj hij') (by omega)

theorem Indexes.getByRight (h : Indexes m l) (i : Nat) : BiMap.getByRight m i = l[i]? := by
  apply Option.ext
  intro x
  rw [LawfulBiMap.getByRight_iff]
  exact h x i

variable (h : Indexes m l)
include h

omit [DecidableEq L] [LawfulBiMap M L Nat] in
theorem Indexes.containsLeft (x : L) : BiMap.containsLeft m x = true ↔ x ∈ l := by
  rw [BiMap.containsLeft, Option.isSome_iff_exists, List.mem_iff_getElem?]
  exact exists_congr fun i => h x i

theorem Indexes.len : BiMap.len m = l.length := by
  have hpairs := LawfulBiMap.len_eq m l.zipIdx ?_ ?_
  · rw [hpairs, List.length_zipIdx]
  · exact List.Nodup.of_map Prod.fst (by rw [List.zipIdx_map_fst]; exact h.nodup)
  · intro x i
    rw [List.mk_mem_zipIdx_iff_getElem?, h x i]

theorem Indexes.insert {x : L} (hx : x ∉ l) : Indexes (BiMap.insert m x l.length) (l ++ [x]) := by
  intro y i
  rw [LawfulBiMap.getByLeft_insert]
  by_cases hyx : y = x
  · rw [if_pos hyx, hyx]
    constructor
    · intro hi
      rw [← Option.some.inj hi]
      simp
    · intro hi
      by_cases hlt : i < l.length
      · rw [List.getElem?_append_left hlt] at hi
        exact absurd (List.mem_of_getElem? hi) hx
      · have hlen := (List.getElem?_eq_some_iff.mp hi).1
        rw [List.length_append, List.length_singleton] at hlen
        rw [show i = l.length by omega]
  · rw [if_neg hyx, Option.filter_eq_some_iff, h y i]
    constructor
    · intro hi
      rw [List.getElem?_append_left (List.getElem?_eq_some_iff.mp hi.1).1]
      exact hi.1
    · intro hi
      by_cases hlt : i < l.length
      · rw [List.getElem?_append_left hlt] at hi
        exact ⟨hi, by simpa using Nat.ne_of_lt hlt⟩
      · rw [List.getElem?_append_right (by omega), List.getElem?_singleton] at hi
        split at hi
        · exact absurd (Option.some.inj hi).symm hyx
        · cases hi

theorem Indexes.insertAll (hnodup : (l ++ l').Nodup) :
    Indexes (BiMap.insertAll m l.length l').1 (l ++ l') := by
  induction l' generalizing m l with
  | nil => rwa [List.append_nil]
  | cons x l' ih =>
    have hx : x ∉ l := by
      intro hmem
      exact List.disjoint_of_nodup_append hnodup hmem List.mem_cons_self
    have hnext := h.insert hx
    rw [List.append_cons] at hnodup ⊢
    have hrest := ih hnext hnodup
    rwa [List.length_append, List.length_singleton] at hrest

theorem Indexes.removeRange {start count : Nat} (hcount : l.length ≤ start + count) :
    Indexes (BiMap.removeRange m start count) (l.take start) := by
  have hremove : ∀ (count start : Nat) (m : M) (x : L), BiMap.getByLeft (BiMap.removeRange m start count) x =
      (BiMap.getByLeft m x).filter (fun i => i < start ∨ start + count ≤ i) := by
    intro count
    induction count with
    | zero =>
      intro start m x
      rw [BiMap.removeRange]
      cases BiMap.getByLeft m x with
      | none => rfl
      | some i => simp [Option.filter, Nat.lt_or_ge]
    | succ count ih =>
      intro start m x
      rw [BiMap.removeRange, ih, LawfulBiMap.getByLeft_removeByRight]
      cases BiMap.getByLeft m x with
      | none => rfl
      | some i =>
        by_cases hi : i = start
        · simp [Option.filter, hi]
        · have hiff : (i < start + 1 ∨ start + 1 + count ≤ i) ↔ (i < start ∨ start + (count + 1) ≤ i) := by omega
          simp only [Option.filter_some, hi, ne_eq, not_false_eq_true, decide_true, if_true, decide_eq_true_eq, hiff]
  intro x i
  rw [hremove, Option.filter_eq_some_iff, h x i, List.getElem?_take]
  constructor
  · intro hi
    have hlen := (List.getElem?_eq_some_iff.mp hi.1).1
    have hcases : i < start ∨ start + count ≤ i := by simpa using hi.2
    rw [if_pos (by omega)]
    exact hi.1
  · intro hi
    split at hi
    · rename_i hlt
      exact ⟨hi, by simp [hlt]⟩
    · cases hi

end BiMap

/-- A `BiMap` as the list of its pairs, no two of which share a side. -/
structure PairMap (L R : Type) where
  pairs : List (L × R)
  apart : pairs.Pairwise fun p q => p.1 ≠ q.1 ∧ p.2 ≠ q.2

namespace PairMap

variable {L R : Type} [DecidableEq L] [DecidableEq R]

def filter (m : PairMap L R) (p : L × R → Bool) : PairMap L R := ⟨m.pairs.filter p, m.apart.filter p⟩

def insert (m : PairMap L R) (l : L) (r : R) : PairMap L R where
  pairs := (l, r) :: (m.pairs.filter fun p => p.1 ≠ l ∧ p.2 ≠ r)
  apart := by
    refine List.pairwise_cons.mpr ⟨?_, m.apart.filter _⟩
    intro p hp
    have hp' := (List.mem_filter.mp hp).2
    simp only [ne_eq, decide_eq_true_eq] at hp'
    exact ⟨Ne.symm hp'.1, Ne.symm hp'.2⟩

instance : BiMap (PairMap L R) L R where
  empty := ⟨[], List.Pairwise.nil⟩
  insert := insert
  getByLeft m l := (m.pairs.find? fun p => p.1 = l).map Prod.snd
  getByRight m r := (m.pairs.find? fun p => p.2 = r).map Prod.fst
  removeByRight m r := m.filter fun p => p.2 ≠ r
  len m := m.pairs.length

theorem getByLeft_iff (m : PairMap L R) (l : L) (r : R) :
    BiMap.getByLeft m l = some r ↔ (l, r) ∈ m.pairs := by
  change (m.pairs.find? fun p => p.1 = l).map Prod.snd = some r ↔ (l, r) ∈ m.pairs
  obtain ⟨pairs, hapart⟩ := m
  simp only
  induction pairs with
  | nil => simp
  | cons p pairs ih =>
    obtain ⟨hp, hpairs⟩ := List.pairwise_cons.mp hapart
    by_cases hl : p.1 = l
    · rw [List.find?_cons_of_pos (by simpa using hl)]
      constructor
      · intro hr
        rw [← hl, ← Option.some.inj hr]
        exact List.mem_cons_self
      · intro hmem
        cases List.mem_cons.mp hmem with
        | inl heq => rw [← heq]; rfl
        | inr hmem => exact absurd hl (hp _ hmem).1
    · rw [List.find?_cons_of_neg (by simpa using hl), ih hpairs, List.mem_cons]
      constructor
      · exact Or.inr
      · intro hmem
        cases hmem with
        | inl heq => exact absurd (congrArg Prod.fst heq).symm hl
        | inr hmem => exact hmem

theorem getByRight_iff (m : PairMap L R) (l : L) (r : R) :
    BiMap.getByRight m r = some l ↔ (l, r) ∈ m.pairs := by
  change (m.pairs.find? fun p => p.2 = r).map Prod.fst = some l ↔ (l, r) ∈ m.pairs
  obtain ⟨pairs, hapart⟩ := m
  simp only
  induction pairs with
  | nil => simp
  | cons p pairs ih =>
    obtain ⟨hp, hpairs⟩ := List.pairwise_cons.mp hapart
    by_cases hr : p.2 = r
    · rw [List.find?_cons_of_pos (by simpa using hr)]
      constructor
      · intro hl
        rw [← hr, ← Option.some.inj hl]
        exact List.mem_cons_self
      · intro hmem
        cases List.mem_cons.mp hmem with
        | inl heq => rw [← heq]; rfl
        | inr hmem => exact absurd hr (hp _ hmem).2
    · rw [List.find?_cons_of_neg (by simpa using hr), ih hpairs, List.mem_cons]
      constructor
      · exact Or.inr
      · intro hmem
        cases hmem with
        | inl heq => exact absurd (congrArg Prod.snd heq).symm hr
        | inr hmem => exact hmem

theorem mem_insert (m : PairMap L R) (l : L) (r : R) (p : L × R) :
    p ∈ (BiMap.insert m l r).pairs ↔ p = (l, r) ∨ p ∈ m.pairs ∧ p.1 ≠ l ∧ p.2 ≠ r := by
  change p ∈ (insert m l r).pairs ↔ _
  simp [insert]

theorem mem_removeByRight (m : PairMap L R) (r : R) (p : L × R) :
    p ∈ (BiMap.removeByRight m r).pairs ↔ p ∈ m.pairs ∧ p.2 ≠ r := by
  change p ∈ (filter m _).pairs ↔ _
  simp [filter]

instance : LawfulBiMap (PairMap L R) L R where
  getByRight_iff m l r := by rw [getByRight_iff, getByLeft_iff]
  getByLeft_empty l := rfl
  getByLeft_insert m l l' r := by
    apply Option.ext
    intro r'
    rw [getByLeft_iff, mem_insert]
    by_cases hl : l' = l
    · simp [hl, eq_comm]
    · simp [hl, Option.filter_eq_some_iff, getByLeft_iff]
  getByLeft_removeByRight m l r := by
    apply Option.ext
    intro r'
    simp [getByLeft_iff, mem_removeByRight, Option.filter_eq_some_iff]
  len_eq m pairs hnodup h := by
    have hperm : m.pairs.Perm pairs := by
      refine (List.perm_ext_iff_of_nodup ?_ hnodup).mpr ?_
      · exact m.apart.imp fun h heq => h.1 (congrArg Prod.fst heq)
      · intro p
        rw [h p.1 p.2, getByLeft_iff]
    exact hperm.length_eq

end PairMap

end InfiniShell.Collections
