import Mathlib.Order.Basic
import Mathlib.Order.Defs.LinearOrder
import Mathlib.Data.List.Nodup
import Mathlib.Tactic.Cases
import Mathlib.Order.MinMax
import Mathlib.Order.BoundedOrder.Lattice
import Mathlib.Order.WithBot

namespace InfiniShell.Collections

variable {K V : Type} [LinearOrder K]

/-- The entries in increasing key order; the order is part of the value. -/
structure BTreeMap (K V : Type) [LinearOrder K] where
  entries : List (K × V)
  sorted : entries.Pairwise (fun a b => a.1 < b.1)

namespace BTreeMap

instance [DecidableEq V] : DecidableEq (BTreeMap K V) := fun a b =>
  decidable_of_iff (a.entries = b.entries) (by cases a; cases b; simp)

variable {m n : BTreeMap K V}

theorem ext_entries (h : m.entries = n.entries) : m = n := by
  cases m; cases n; simpa using h

def lookup (k : K) : List (K × V) → Option V
  | [] => none
  | e :: l => if k = e.1 then some e.2 else lookup k l

def insertList (k : K) (v : V) : List (K × V) → List (K × V)
  | [] => [(k, v)]
  | e :: l => if k < e.1 then (k, v) :: e :: l
      else if k = e.1 then (k, v) :: l
      else e :: insertList k v l

theorem mem_insertList (k : K) (v : V) (l : List (K × V)) (e : K × V)
    (h : e ∈ insertList k v l) : e = (k, v) ∨ e ∈ l := by
  induction l with
  | nil => simpa [insertList] using h
  | cons d l ih =>
    simp only [insertList] at h
    split at h
    · simpa using h
    · split at h
      · rcases List.mem_cons.mp h with h | h
        · exact .inl h
        · exact .inr (by simp [h])
      · rcases List.mem_cons.mp h with h | h
        · exact .inr (by simp [h])
        · exact (ih h).imp_right (by simp +contextual)

theorem insertList_sorted (k : K) (v : V) (l : List (K × V))
    (h : l.Pairwise (fun a b => a.1 < b.1)) :
    (insertList k v l).Pairwise (fun a b => a.1 < b.1) := by
  induction l with
  | nil => simp [insertList]
  | cons d l ih =>
    obtain ⟨hd, hl⟩ := List.pairwise_cons.mp h
    simp only [insertList]
    split
    · rename_i hk
      refine List.pairwise_cons.mpr ⟨fun e he => ?_, h⟩
      rcases List.mem_cons.mp he with rfl | he
      · exact hk
      · exact hk.trans (hd e he)
    · split
      · rename_i hk
        exact List.pairwise_cons.mpr ⟨fun e he => hk ▸ hd e he, hl⟩
      · rename_i hlt hne
        refine List.pairwise_cons.mpr ⟨fun e he => ?_, ih hl⟩
        rcases mem_insertList k v l e he with rfl | he
        · exact lt_of_le_of_ne (not_lt.mp hlt) (Ne.symm hne)
        · exact hd e he

theorem lookup_eq_none_of_lt (k : K) (l : List (K × V)) (h : ∀ e ∈ l, k < e.1) :
    lookup k l = none := by
  induction l with
  | nil => rfl
  | cons d l ih =>
    have hd : k ≠ d.1 := (h d (by simp)).ne
    simp only [lookup, hd, ↓reduceIte]
    exact ih fun e he => h e (by simp [he])

theorem lookup_insertList (k j : K) (v : V) (l : List (K × V)) :
    lookup j (insertList k v l) = if j = k then some v else lookup j l := by
  induction l with
  | nil => simp [insertList, lookup]
  | cons d l ih =>
    simp only [insertList]
    split
    · simp [lookup]
    · split
      · rename_i hk
        subst hk
        by_cases hj : j = d.1 <;> simp [lookup, hj]
      · rename_i hne
        by_cases hj : j = d.1
        · have hjk : d.1 ≠ k := Ne.symm hne
          simp [lookup, hj, hjk]
        · simp [lookup, hj, ih]

theorem lookup_eq_some_iff (k : K) (v : V) (l : List (K × V))
    (h : l.Pairwise (fun a b => a.1 < b.1)) : lookup k l = some v ↔ (k, v) ∈ l := by
  induction l with
  | nil => simp [lookup]
  | cons d l ih =>
    obtain ⟨hd, hl⟩ := List.pairwise_cons.mp h
    by_cases hk : k = d.1
    · have hm : (k, v) ∉ l := fun hm => absurd (hd _ hm) (by simp [hk])
      subst hk
      have he : d = (d.1, v) ↔ d.2 = v := by cases d; simp
      simp [lookup, hm, eq_comm (a := (d.1, v)), he]
    · have he : (k, v) ≠ d := fun he => hk (by rw [← he])
      simp [lookup, hk, he, ih hl]

def empty : BTreeMap K V := ⟨[], List.Pairwise.nil⟩

def get (m : BTreeMap K V) (k : K) : Option V := lookup k m.entries

def insert (m : BTreeMap K V) (k : K) (v : V) : BTreeMap K V :=
  ⟨insertList k v m.entries, insertList_sorted k v m.entries m.sorted⟩

def remove (m : BTreeMap K V) (k : K) : BTreeMap K V :=
  ⟨m.entries.filter (fun e => e.1 ≠ k), m.sorted.filter _⟩

/-- Collect an iterator of pairs: a later pair replaces an earlier one. -/
def ofList (l : List (K × V)) : BTreeMap K V := l.foldl (fun m e => m.insert e.1 e.2) empty

def values (m : BTreeMap K V) : List V := m.entries.map Prod.snd

@[simp] theorem get_empty (k : K) : (empty : BTreeMap K V).get k = none := rfl

@[simp] theorem get_insert (m : BTreeMap K V) (k j : K) (v : V) :
    (m.insert k v).get j = if j = k then some v else m.get j :=
  lookup_insertList k j v m.entries

theorem get_eq_some_iff (m : BTreeMap K V) (k : K) (v : V) :
    m.get k = some v ↔ (k, v) ∈ m.entries :=
  lookup_eq_some_iff k v m.entries m.sorted

theorem ext_get (h : ∀ k, m.get k = n.get k) : m = n := by
  have hmem : ∀ e : K × V, e ∈ m.entries ↔ e ∈ n.entries := fun e => by
    rw [← get_eq_some_iff, ← get_eq_some_iff, h]
  have hnodup : ∀ l : List (K × V), l.Pairwise (fun a b => a.1 < b.1) → l.Nodup := fun l hl =>
    hl.imp fun hab he => by simp [he] at hab
  apply ext_entries
  exact List.Perm.eq_of_pairwise (fun a b _ _ hab hba => absurd hab hba.asymm) m.sorted n.sorted
    ((List.perm_ext_iff_of_nodup (hnodup _ m.sorted) (hnodup _ n.sorted)).mpr hmem)

theorem get_foldl_insert (l : List (K × V)) (m : BTreeMap K V) (k : K) (v : V)
    (hl : (l.map Prod.fst).Nodup) (hm : ∀ e ∈ l, m.get e.1 = none) :
    (l.foldl (fun m e => m.insert e.1 e.2) m).get k = some v ↔ m.get k = some v ∨ (k, v) ∈ l := by
  induction l generalizing m with
  | nil => simp
  | cons d l ih =>
    simp only [List.map_cons, List.nodup_cons] at hl
    have hd : ∀ e ∈ l, e.1 ≠ d.1 := fun e he h => hl.1 (h ▸ List.mem_map_of_mem he)
    rw [List.foldl_cons, ih (m.insert d.1 d.2) hl.2
      (fun e he => by simp [hd e he, hm e (by simp [he])]), get_insert]
    have hnone := hm d (by simp)
    by_cases hk : k = d.1
    · subst hk
      have hnm : (d.1, v) ∉ l := fun h => hd _ h rfl
      have he : (d.1, v) = d ↔ d.2 = v := by cases d; simp [eq_comm]
      simp [hnm, hnone, he]
    · have he : (k, v) ≠ d := fun h => hk (by rw [← h])
      simp [hk, he]

theorem get_ofList (l : List (K × V)) (k : K) (v : V) (hl : (l.map Prod.fst).Nodup) :
    (ofList l).get k = some v ↔ (k, v) ∈ l := by
  rw [ofList, get_foldl_insert l empty k v hl (fun _ _ => rfl)]
  simp

theorem keys_nodup (m : BTreeMap K V) : (m.entries.map Prod.fst).Nodup := by
  rw [List.Nodup, List.pairwise_map]
  exact m.sorted.imp fun h => h.ne

theorem ofList_perm (l : List (K × V)) (hl : (l.map Prod.fst).Nodup) : (ofList l).entries.Perm l := by
  rw [List.perm_ext_iff_of_nodup (List.Nodup.of_map _ (ofList l).keys_nodup) (List.Nodup.of_map _ hl)]
  intro e
  rw [← get_ofList l e.1 e.2 hl, get_eq_some_iff]

end BTreeMap

end InfiniShell.Collections

namespace InfiniShell.Collections.BTreeMap

variable {K V : Type} [LinearOrder K]

/-- What `split_off(k)` leaves in the map. -/
def below (m : BTreeMap K V) (k : K) : BTreeMap K V :=
  ⟨m.entries.filter (fun e => e.1 < k), m.sorted.filter _⟩

/-- What `split_off(k)` takes out of the map, and `range(k..)` visits. -/
def atLeast (m : BTreeMap K V) (k : K) : BTreeMap K V :=
  ⟨m.entries.filter (fun e => k ≤ e.1), m.sorted.filter _⟩

def first? (m : BTreeMap K V) : Option (K × V) := m.entries.head?

def last? (m : BTreeMap K V) : Option (K × V) := m.entries.getLast?

variable {m : BTreeMap K V} {k : K} {e : K × V}

theorem mem_below : e ∈ (m.below k).entries ↔ e ∈ m.entries ∧ e.1 < k := by
  simp [below]

theorem mem_atLeast : e ∈ (m.atLeast k).entries ↔ e ∈ m.entries ∧ k ≤ e.1 := by
  simp [atLeast]

theorem filter_lt_append_filter_le (l : List (K × V)) (hl : l.Pairwise (fun a b => a.1 < b.1)) (k : K) :
    l.filter (fun e => e.1 < k) ++ l.filter (fun e => k ≤ e.1) = l := by
  induction l with
  | nil => rfl
  | cons d l ih =>
    obtain ⟨hd, hl⟩ := List.pairwise_cons.mp hl
    by_cases hk : d.1 < k
    · simp [hk, not_le.mpr hk, ih hl]
    · -- Every later key is at or above `k` too.
      have hlow : l.filter (fun e => e.1 < k) = [] := by
        apply List.filter_eq_nil_iff.mpr
        intro e he
        simpa using le_trans (not_lt.mp hk) (le_of_lt (hd e he))
      have hrest := ih hl
      rw [hlow, List.nil_append] at hrest
      simp [hk, not_lt.mp hk, hlow, hrest]

theorem below_append_atLeast (m : BTreeMap K V) (k : K) :
    (m.below k).entries ++ (m.atLeast k).entries = m.entries :=
  filter_lt_append_filter_le m.entries m.sorted k

theorem get_below (m : BTreeMap K V) (k j : K) : (m.below k).get j = if j < k then m.get j else none := by
  apply Option.ext
  intro v
  rw [get_eq_some_iff, mem_below]
  by_cases hj : j < k <;> simp [hj, get_eq_some_iff]

theorem get_atLeast (m : BTreeMap K V) (k j : K) : (m.atLeast k).get j = if k ≤ j then m.get j else none := by
  apply Option.ext
  intro v
  rw [get_eq_some_iff, mem_atLeast]
  by_cases hj : k ≤ j <;> simp [hj, get_eq_some_iff]

theorem atLeast_atLeast (m : BTreeMap K V) (j k : K) : (m.atLeast j).atLeast k = m.atLeast (max j k) := by
  apply ext_entries
  simp only [atLeast, List.filter_filter]
  apply List.filter_congr
  intro e _
  rw [← Bool.decide_and, decide_eq_decide, and_comm]
  exact max_le_iff.symm

theorem below_atLeast_append (m : BTreeMap K V) {j k : K} (h : j ≤ k) :
    ((m.below k).atLeast j).entries ++ (m.atLeast k).entries = (m.atLeast j).entries := by
  have hkeep : (m.atLeast k).entries = (m.atLeast k).entries.filter (fun e => j ≤ e.1) := by
    rw [List.filter_eq_self.mpr]
    intro e he
    simpa using h.trans (mem_atLeast.mp he).2
  rw [hkeep]
  simp only [atLeast, ← List.filter_append]
  exact congrArg (List.filter fun e => j ≤ e.1) (m.below_append_atLeast k)

theorem first?_atLeast_of_le (m : BTreeMap K V) {j k : K} (h : j ≤ k) :
    (m.atLeast j).first? = ((m.below k).atLeast j).first?.or (m.atLeast k).first? := by
  rw [first?, ← m.below_atLeast_append h, List.head?_append]
  rfl

theorem first?_atLeast (m : BTreeMap K V) (k : K) :
    (m.atLeast k).first? = m.entries.find? (fun e => k ≤ e.1) := by
  rw [first?, atLeast, List.head?_filter]

theorem first?_atLeast_mem (h : (m.atLeast k).first? = some e) :
    e ∈ m.entries ∧ k ≤ e.1 := mem_atLeast.mp (List.mem_of_mem_head? h)

theorem first?_atLeast_eq_none : (m.atLeast k).first? = none ↔ ∀ e ∈ m.entries, e.1 < k := by
  rw [first?, List.head?_eq_none_iff, atLeast, List.filter_eq_nil_iff]
  simp

theorem insert_entries_of_lt (h : ∀ e ∈ m.entries, e.1 < k) (v : V) :
    (m.insert k v).entries = m.entries ++ [(k, v)] := by
  have happend : ∀ l : List (K × V), (∀ e ∈ l, e.1 < k) → insertList k v l = l ++ [(k, v)] := by
    intro l hl
    induction l with
    | nil => rfl
    | cons d l ih =>
      have hd := hl d List.mem_cons_self
      rw [insertList, if_neg (not_lt.mpr (le_of_lt hd)), if_neg (ne_of_gt hd),
        ih fun e he => hl e (List.mem_cons_of_mem d he), List.cons_append]
  exact happend m.entries h

theorem last?_lt_iff : (∀ e ∈ m.entries, e.1 < k) ↔ ∀ e, m.last? = some e → e.1 < k := by
  constructor
  · intro h e he
    exact h e (List.mem_of_getLast? he)
  · intro h e he
    have hne : m.entries ≠ [] := List.ne_nil_of_mem he
    have hlast := h _ (List.getLast?_eq_some_getLast hne)
    have hsorted := m.sorted
    rw [← List.dropLast_append_getLast hne, List.pairwise_append] at hsorted
    rw [← List.dropLast_append_getLast hne, List.mem_append] at he
    cases he with
    | inl he => exact (hsorted.2.2 e he _ List.mem_cons_self).trans hlast
    | inr he => rwa [List.mem_singleton.mp he]

variable {K V : Type} [LinearOrder K]

def orBot : Option V → WithBot V
  | none => ⊥
  | some v => v

theorem orBot_injective {a b : Option V} (h : orBot a = orBot b) : a = b := by
  cases a <;> cases b <;> simp_all [orBot]

/-- What a key is bound to, an unbound key being below every value. -/
def value (m : BTreeMap K V) (k : K) : WithBot V := orBot (m.get k)

variable {m n : BTreeMap K V}

theorem value_injective (h : ∀ k, m.value k = n.value k) : m = n :=
  ext_get fun k => orBot_injective (h k)

variable [LinearOrder V]

/-- Maps are compared key by key. -/
instance : PartialOrder (BTreeMap K V) where
  le m n := ∀ k, m.value k ≤ n.value k
  le_refl _ _ := le_refl _
  le_trans _ _ _ hmn hnp k := (hmn k).trans (hnp k)
  le_antisymm _ _ hmn hnm := value_injective fun k => le_antisymm (hmn k) (hnm k)

theorem le_def : m ≤ n ↔ ∀ k, m.value k ≤ n.value k := Iff.rfl

/-- Bind a key to a value unless it is bound to one at least as great. -/
def joinEntry (m : BTreeMap K V) (e : K × V) : BTreeMap K V :=
  match m.get e.1 with
  | some v => if v < e.2 then m.insert e.1 e.2 else m
  | none => m.insert e.1 e.2

def join (m n : BTreeMap K V) : BTreeMap K V := n.entries.foldl joinEntry m

theorem value_joinEntry (m : BTreeMap K V) (e : K × V) (k : K) :
    (joinEntry m e).value k = if k = e.1 then m.value k ⊔ (e.2 : WithBot V) else m.value k := by
  unfold joinEntry value
  by_cases hk : k = e.1
  · subst hk
    cases hm : m.get e.1 with
    | none => simp [orBot]
    | some v =>
      by_cases hlt : v < e.2
      · have hle : (v : WithBot V) ≤ e.2 := WithBot.coe_le_coe.mpr hlt.le
        simp [hlt, orBot, sup_eq_right.mpr hle]
      · have hle : (e.2 : WithBot V) ≤ v := WithBot.coe_le_coe.mpr (not_lt.mp hlt)
        simp [hlt, hm, orBot, sup_eq_left.mpr hle]
  · cases hm : m.get e.1 with
    | none => simp [hk]
    | some v => by_cases hlt : v < e.2 <;> simp [hk, hlt]

theorem value_foldl_joinEntry (l : List (K × V)) (m : BTreeMap K V) (k : K)
    (hl : l.Pairwise (fun a b => a.1 < b.1)) :
    (l.foldl joinEntry m).value k = m.value k ⊔ orBot (lookup k l) := by
  induction l generalizing m with
  | nil => simp [lookup, orBot]
  | cons e l ih =>
    obtain ⟨he, hl⟩ := List.pairwise_cons.mp hl
    rw [List.foldl_cons, ih (joinEntry m e) hl, value_joinEntry]
    by_cases hk : k = e.1
    · have hnone : lookup e.1 l = none := lookup_eq_none_of_lt e.1 l he
      simp [lookup, hk, hnone, orBot]
    · simp [lookup, hk]

theorem value_join (m n : BTreeMap K V) (k : K) : (join m n).value k = m.value k ⊔ n.value k :=
  value_foldl_joinEntry n.entries m k n.sorted

instance : SemilatticeSup (BTreeMap K V) where
  sup := join
  le_sup_left m n k := by rw [value_join]; exact le_sup_left
  le_sup_right m n k := by rw [value_join]; exact le_sup_right
  sup_le m n p hm hn k := by rw [value_join]; exact sup_le (hm k) (hn k)

theorem sup_def (m n : BTreeMap K V) : m ⊔ n = join m n := rfl

theorem foldl_insert_entries (h : m ≤ n) : n.entries.foldl (fun m e => m.insert e.1 e.2) m = n := by
  have hget : ∀ (l : List (K × V)) (m : BTreeMap K V) (k : K), l.Pairwise (fun a b => a.1 < b.1) →
      (l.foldl (fun m e => m.insert e.1 e.2) m).get k = (lookup k l).or (m.get k) := by
    intro l
    induction l with
    | nil => exact fun _ _ _ => rfl
    | cons e l ih =>
      intro m k hl
      obtain ⟨he, hl⟩ := List.pairwise_cons.mp hl
      rw [List.foldl_cons, ih _ _ hl, get_insert]
      by_cases hk : k = e.1
      · have hnone : lookup e.1 l = none := lookup_eq_none_of_lt e.1 l he
        simp [lookup, hk, hnone]
      · simp [lookup, hk]
  apply ext_get
  intro k
  rw [hget _ _ _ n.sorted]
  have hk := h k
  cases hn : n.get k with
  | some v =>
    have hl : lookup k n.entries = some v := hn
    simp [hl]
  | none =>
    have hl : lookup k n.entries = none := hn
    have hbot : orBot (m.get k) ≤ orBot none := by simpa only [value, hn] using hk
    have hm : m.get k = none := orBot_injective (le_bot_iff.mp hbot)
    simp [hl, hm]

end InfiniShell.Collections.BTreeMap
