import Mathlib.Data.List.Nodup
import Mathlib.Tactic.Cases
import Mathlib.Data.List.Perm.Basic

namespace InfiniShell.Collections

/-- A finite map, with one entry for each key that it holds. -/
structure AssocMap (K V : Type) where
  entries : List (K × V)
  nodup : (entries.map Prod.fst).Nodup

namespace AssocMap

variable {K V : Type} [DecidableEq K]

def lookup (k : K) : List (K × V) → Option V
  | [] => none
  | e :: l => if k = e.1 then some e.2 else lookup k l

def put (k : K) (v : V) : List (K × V) → List (K × V)
  | [] => [(k, v)]
  | e :: l => if k = e.1 then (k, v) :: l else e :: put k v l

theorem mem_keys_put (k j : K) (v : V) (l : List (K × V)) :
    j ∈ (put k v l).map Prod.fst ↔ j = k ∨ j ∈ l.map Prod.fst := by
  induction l with
  | nil => simp [put]
  | cons e l ih =>
    rw [put]
    split
    · rename_i heq
      simp [← heq]
    · rw [List.map_cons, List.mem_cons, ih, List.map_cons, List.mem_cons]
      exact or_left_comm

variable {l : List (K × V)}

theorem nodup_put (k : K) (v : V) (h : (l.map Prod.fst).Nodup) : ((put k v l).map Prod.fst).Nodup := by
  induction l with
  | nil => simp [put]
  | cons e l ih =>
    obtain ⟨hnew, hl⟩ := List.nodup_cons.mp h
    rw [put]
    split
    · rename_i heq
      rw [List.map_cons, heq]
      exact h
    · rename_i hne
      rw [List.map_cons]
      refine List.nodup_cons.mpr ⟨?_, ih hl⟩
      rw [mem_keys_put, not_or]
      exact ⟨Ne.symm hne, hnew⟩

theorem lookup_put (k j : K) (v : V) (l : List (K × V)) :
    lookup j (put k v l) = if j = k then some v else lookup j l := by
  induction l with
  | nil => rfl
  | cons e l ih =>
    rw [put]
    split
    · rename_i heq
      rw [lookup, lookup]
      by_cases hj : j = k
      · rw [if_pos hj, if_pos hj]
      · rw [if_neg hj, if_neg hj, if_neg (heq ▸ hj)]
    · rename_i hne
      rw [lookup, ih, lookup]
      by_cases hj : j = e.1
      · rw [if_pos hj, if_neg (fun h => hne (h.symm.trans hj)), if_pos hj]
      · rw [if_neg hj, if_neg hj]

variable {k : K}

theorem put_of_not_mem (h : k ∉ l.map Prod.fst) (v : V) : put k v l = l ++ [(k, v)] := by
  induction l with
  | nil => rfl
  | cons e l ih =>
    obtain ⟨hne, hrest⟩ := not_or.mp (mt List.mem_cons.mpr h)
    rw [put, if_neg hne, ih hrest]
    rfl

variable {v : V}

omit [DecidableEq K] in
theorem mem_keys (h : (k, v) ∈ l) : k ∈ l.map Prod.fst :=
  List.mem_map.mpr ⟨(k, v), h, rfl⟩

theorem lookup_eq_some_iff (h : (l.map Prod.fst).Nodup) : lookup k l = some v ↔ (k, v) ∈ l := by
  induction l with
  | nil => simp [lookup]
  | cons e l ih =>
    obtain ⟨hnew, hl⟩ := List.nodup_cons.mp h
    rw [lookup, List.mem_cons]
    split
    · rename_i heq
      rw [Option.some.injEq]
      constructor
      · intro hv
        exact .inl (Prod.ext heq hv.symm)
      · rintro (hv | hv)
        · exact (congrArg Prod.snd hv).symm
        · exact absurd (heq ▸ mem_keys hv) hnew
    · rename_i hne
      rw [ih hl]
      constructor
      · exact .inr
      · rintro (hv | hv)
        · exact absurd (congrArg Prod.fst hv) hne
        · exact hv

theorem lookup_filter_ne (k j : K) (l : List (K × V)) :
    lookup j (l.filter fun e => e.1 ≠ k) = if j = k then none else lookup j l := by
  induction l with
  | nil => simp [lookup]
  | cons e l ih =>
    by_cases he : e.1 = k
    · rw [List.filter_cons_of_neg (by simp [he]), ih, lookup, he]
      by_cases hj : j = k
      · rw [if_pos hj, if_pos hj]
      · rw [if_neg hj, if_neg hj, if_neg hj]
    · rw [List.filter_cons_of_pos (by simp [he]), lookup, ih, lookup]
      by_cases hj : j = e.1
      · rw [if_pos hj, if_neg (hj ▸ he), if_pos hj]
      · rw [if_neg hj, if_neg hj]

omit [DecidableEq K] in
theorem nodup_filter (p : K × V → Bool) (h : (l.map Prod.fst).Nodup) : ((l.filter p).map Prod.fst).Nodup :=
  h.sublist (List.filter_sublist.map Prod.fst)

def empty : AssocMap K V := ⟨[], List.nodup_nil⟩

def get (m : AssocMap K V) (k : K) : Option V := lookup k m.entries

def insert (m : AssocMap K V) (k : K) (v : V) : AssocMap K V := ⟨put k v m.entries, nodup_put k v m.nodup⟩

def erase (m : AssocMap K V) (k : K) : AssocMap K V := ⟨m.entries.filter fun e => e.1 ≠ k, nodup_filter _ m.nodup⟩

def contains (m : AssocMap K V) (k : K) : Bool := (m.get k).isSome

def size (m : AssocMap K V) : Nat := m.entries.length

@[simp] theorem get_insert (m : AssocMap K V) (k j : K) (v : V) :
    (m.insert k v).get j = if j = k then some v else m.get j :=
  lookup_put k j v m.entries

@[simp] theorem get_erase (m : AssocMap K V) (k j : K) : (m.erase k).get j = if j = k then none else m.get j :=
  lookup_filter_ne k j m.entries

variable {m : AssocMap K V} {k j : K} {v a : V}

theorem get_insert_of_new (hnew : m.get k = none) (h : m.get j = some a) :
    (m.insert k v).get j = some a := by
  rw [get_insert, if_neg, h]
  rintro rfl
  exact absurd (hnew.symm.trans h) nofun

theorem get_insert_cases (h : (m.insert k v).get j = some a) : j = k ∧ a = v ∨ m.get j = some a := by
  rw [get_insert] at h
  split at h
  · rename_i heq
    exact .inl ⟨heq, (Option.some.inj h).symm⟩
  · exact .inr h

theorem get_eq_some_iff : m.get k = some v ↔ (k, v) ∈ m.entries :=
  lookup_eq_some_iff m.nodup

end AssocMap

end InfiniShell.Collections

namespace InfiniShell.Collections.AssocMap

variable {K V A : Type} [DecidableEq K] {l : List (K × V)}

theorem put_perm (k : K) (v : V) (h : (l.map Prod.fst).Nodup) :
    (put k v l).Perm ((k, v) :: l.filter fun e => e.1 ≠ k) := by
  induction l with
  | nil => exact List.Perm.refl _
  | cons e l ih =>
    obtain ⟨hnew, hl⟩ := List.nodup_cons.mp h
    rw [put]
    split
    next heq =>
      rw [List.filter_cons_of_neg (by simp [heq])]
      have hfilter : l.filter (fun e => decide (e.1 ≠ k)) = l := by
        apply List.filter_eq_self.mpr
        intro e' he'
        apply decide_eq_true
        intro hk
        apply hnew
        rw [← heq, ← hk]
        exact List.mem_map_of_mem he'
      rw [hfilter]
    next hne =>
      rw [List.filter_cons_of_pos (by simpa using Ne.symm hne)]
      exact ((ih hl).cons e).trans (List.Perm.swap _ _ _)

variable {k : K}

theorem perm_of_lookup {v : V} (h : (l.map Prod.fst).Nodup) (hk : lookup k l = some v) :
    l.Perm ((k, v) :: l.filter fun e => e.1 ≠ k) := by
  have hput : put k v l = l := by
    clear h
    induction l with
    | nil => cases hk
    | cons e l ih =>
      rw [lookup] at hk
      rw [put]
      split
      next heq =>
        rw [if_pos heq] at hk
        rw [heq, ← Option.some.inj hk]
      next hne =>
        rw [if_neg hne] at hk
        rw [ih hk]
  have hperm := put_perm k v h
  rw [hput] at hperm
  exact hperm

theorem filter_of_lookup_none (hk : lookup k l = none) : (l.filter fun e => e.1 ≠ k) = l := by
  induction l with
  | nil => rfl
  | cons e l ih =>
    rw [lookup] at hk
    split at hk
    next => cases hk
    next hne => rw [List.filter_cons_of_pos (by simpa using Ne.symm hne), ih hk]

def contents (g : V → List A) (m : AssocMap K V) : List A := m.entries.flatMap fun e => g e.2

theorem contents_insert (g : V → List A) (m : AssocMap K V) (k : K) (v : V) :
    ((m.insert k v).contents g).Perm (g v ++ (m.erase k).contents g) :=
  (put_perm k v m.nodup).flatMap_right _

variable {m : AssocMap K V}

theorem contents_erase (g : V → List A) {v : V} (h : m.get k = some v) :
    (m.contents g).Perm (g v ++ (m.erase k).contents g) :=
  (perm_of_lookup m.nodup h).flatMap_right _

theorem erase_of_none (h : m.get k = none) : (m.erase k).entries = m.entries :=
  filter_of_lookup_none h

theorem contents_insert_of_none (g : V → List A) (h : m.get k = none) (v : V) :
    ((m.insert k v).contents g).Perm (g v ++ m.contents g) := by
  have hperm := contents_insert g m k v
  unfold contents at hperm ⊢
  rw [erase_of_none h] at hperm
  exact hperm

theorem mem_contents {g : V → List A} {a : A} : a ∈ m.contents g ↔ ∃ k v, m.get k = some v ∧ a ∈ g v := by
  unfold contents
  rw [List.mem_flatMap]
  constructor
  · rintro ⟨⟨k, v⟩, hmem, ha⟩
    exact ⟨k, v, get_eq_some_iff.mpr hmem, ha⟩
  · rintro ⟨k, v, hget, ha⟩
    exact ⟨(k, v), get_eq_some_iff.mp hget, ha⟩

end InfiniShell.Collections.AssocMap
