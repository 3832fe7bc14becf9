import Mathlib.Order.Defs.LinearOrder
import Mathlib.Order.Basic
import Mathlib.Tactic.Cases
import Mathlib.Order.Lattice

namespace InfiniShell.Collections

variable {α K : Type} [LinearOrder K] {key : α → K} {items items' : List α} {x : α} {k k' : K}

def itemAt (key : α → K) (items : List α) (k : K) : Option α := items.find? fun x => key x = k

def Increasing (key : α → K) (items : List α) : Prop := items.Pairwise fun x y => key x < key y

theorem itemAt_append : itemAt key (items ++ items') k = (itemAt key items k).or (itemAt key items' k) := List.find?_append

theorem itemAt_eq_none (h : ∀ x ∈ items, key x ≠ k) : itemAt key items k = none :=
  List.find?_eq_none.mpr fun x hx => by simpa using h x hx

theorem itemAt_toList {new : Option α} (h : ∀ x ∈ new, key x = k) : itemAt key new.toList k = new := by
  cases new with
  | none => rfl
  | some x => simp [itemAt, h x rfl]

theorem itemAt_filter (p : K → Bool) :
    itemAt key (items.filter fun x => p (key x)) k = if p k then itemAt key items k else none := by
  induction items with
  | nil => simp [itemAt]
  | cons x items ih =>
    rw [itemAt] at ih ⊢
    by_cases hk : key x = k
    · by_cases hp : p k = true
      · simp [itemAt, hk, hp]
      · simp [hk, hp, ih]
    · have hrest : itemAt key (x :: items) k = itemAt key items k := by simp [itemAt, hk]
      rw [hrest, ← ih, List.filter_cons]
      split
      · simp [hk]
      · rfl

theorem Increasing.filter (h : Increasing key items) (p : α → Bool) : Increasing key (items.filter p) :=
  List.Pairwise.filter p h

theorem Increasing.split {l r : List α} (h : Increasing key (l ++ r)) (hl : ∀ x ∈ l, key x < k)
    (hr : ∀ x ∈ r.head?, k ≤ key x) :
    ((l ++ r).filter fun x => key x < k) = l ∧
      ((l ++ r).filter fun x => k < key x) = if r.head?.any (fun x => key x = k) then r.tail else r := by
  have hrest : Increasing key r := (List.pairwise_append.mp h).2.1
  have hnone : (l.filter fun x => k < key x) = [] :=
    List.filter_eq_nil_iff.mpr fun x hx => by simpa using (hl x hx).le
  have hall : (l.filter fun x => key x < k) = l := List.filter_eq_self.mpr fun x hx => by simpa using hl x hx
  rw [List.filter_append, List.filter_append, hnone, hall, List.nil_append]
  cases r with
  | nil => exact ⟨List.append_nil l, rfl⟩
  | cons x r =>
    obtain ⟨hx, -⟩ := List.pairwise_cons.mp hrest
    have hle : k ≤ key x := hr x rfl
    have hlater : (r.filter fun y => k < key y) = r :=
      List.filter_eq_self.mpr fun y hy => by simpa using hle.trans_lt (hx y hy)
    have hbefore : ((x :: r).filter fun y => key y < k) = [] := by
      refine List.filter_eq_nil_iff.mpr fun y hy => ?_
      obtain rfl | hmem := List.mem_cons.mp hy
      · simpa using hle
      · simpa using hle.trans (hx y hmem).le
    refine ⟨by rw [hbefore, List.append_nil], ?_⟩
    rw [List.filter_cons, hlater]
    by_cases hk : key x = k
    · simp [hk]
    · simp [hk, lt_of_le_of_ne hle (Ne.symm hk)]

theorem length_sides_le (key : α → K) (items : List α) (k : K) :
    (items.filter fun x => key x < k).length + (items.filter fun x => k < key x).length ≤ items.length := by
  induction items with
  | nil => exact Nat.le_refl 0
  | cons x items ih =>
    rw [List.filter_cons, List.filter_cons, List.length_cons]
    obtain hlt | heq | hgt := lt_trichotomy (key x) k
    · simp only [hlt, hlt.asymm, decide_true, decide_false, if_true, Bool.false_eq_true, if_false, List.length_cons]
      omega
    · simp only [heq, lt_irrefl, decide_false, Bool.false_eq_true, if_false]
      omega
    · simp only [hgt, hgt.asymm, decide_true, decide_false, if_true, Bool.false_eq_true, if_false, List.length_cons]
      omega

/-- Changes of single keys, from the lowest key on: the item becomes this one, or there is none. -/
def mergeChanges (key : α → K) (items : List α) : List (K × Option α) → List α
  | [] => items
  | change :: changes =>
    (items.filter fun x => key x < change.1) ++ change.2.toList ++
      mergeChanges key (items.filter fun x => change.1 < key x) changes

section Merge

variable {change : K × Option α} {changes : List (K × Option α)}

/-- The changes come in the order of their keys, and a new item has the key that it is put at. -/
structure Orderly (key : α → K) (changes : List (K × Option α)) : Prop where
  sorted : changes.Pairwise fun a b => a.1 < b.1
  keyed : ∀ change ∈ changes, ∀ x ∈ change.2, key x = change.1

theorem Orderly.tail (h : Orderly key (change :: changes)) : Orderly key changes :=
  ⟨(List.pairwise_cons.mp h.sorted).2, fun change hchange => h.keyed change (List.mem_cons_of_mem _ hchange)⟩

theorem Orderly.later (h : Orderly key (change :: changes)) {next : K × Option α} (hnext : next ∈ changes) :
    change.1 < next.1 :=
  (List.pairwise_cons.mp h.sorted).1 next hnext

theorem mem_mergeChanges (h : x ∈ mergeChanges key items changes) :
    x ∈ items ∨ ∃ change ∈ changes, x ∈ change.2 := by
  induction changes generalizing items with
  | nil => exact .inl h
  | cons change changes ih =>
    rw [mergeChanges, List.mem_append, List.mem_append] at h
    obtain (hbefore | hnew) | hrest := h
    · exact .inl ((List.mem_filter.mp hbefore).1)
    · exact .inr ⟨change, List.mem_cons_self, by simpa using hnew⟩
    · obtain hitem | ⟨later, hlater, hx⟩ := ih hrest
      · exact .inl ((List.mem_filter.mp hitem).1)
      · exact .inr ⟨later, List.mem_cons_of_mem _ hlater, hx⟩

theorem Orderly.lt_rest (h : Orderly key (change :: changes))
    (hx : x ∈ mergeChanges key (items.filter fun x => change.1 < key x) changes) : change.1 < key x := by
  obtain hitem | ⟨later, hlater, hnew⟩ := mem_mergeChanges hx
  · simpa using (List.mem_filter.mp hitem).2
  · rw [h.tail.keyed later hlater x hnew]
    exact h.later hlater

variable (h : Orderly key changes)
include h

theorem mergeChanges_increasing (hitems : Increasing key items) :
    Increasing key (mergeChanges key items changes) := by
  induction changes generalizing items with
  | nil => exact hitems
  | cons change changes ih =>
    have hbefore : ∀ x ∈ items.filter fun x => key x < change.1, key x < change.1 := fun x hx => by
      simpa using (List.mem_filter.mp hx).2
    have hnew : ∀ x ∈ change.2.toList, key x = change.1 := fun x hx =>
      h.keyed change List.mem_cons_self x (by simpa using hx)
    rw [mergeChanges, Increasing, List.pairwise_append, List.pairwise_append]
    refine ⟨⟨hitems.filter _, ?_, ?_⟩, ih h.tail (hitems.filter _), ?_⟩
    · cases change.2 <;> simp
    · intro x hx y hy
      rw [hnew y hy]
      exact hbefore x hx
    · intro x hx y hy
      refine lt_of_le_of_lt ?_ (h.lt_rest hy)
      obtain hx | hx := List.mem_append.mp hx
      · exact (hbefore x hx).le
      · exact (hnew x hx).le

theorem itemAt_mergeChanges (items : List α) (k : K) : itemAt key (mergeChanges key items changes) k =
      ((changes.find? fun change => change.1 = k).map Prod.snd).getD (itemAt key items k) := by
  induction changes generalizing items with
  | nil => rfl
  | cons change changes ih =>
    have hnew : ∀ x ∈ change.2, key x = change.1 := h.keyed change List.mem_cons_self
    rw [mergeChanges, itemAt_append, itemAt_append, ih h.tail,
      itemAt_filter (fun k => decide (k < change.1)), itemAt_filter (fun k => decide (change.1 < k))]
    have hother : k ≠ change.1 → itemAt key change.2.toList k = none := by
      intro hne
      refine itemAt_eq_none fun x hx => ?_
      rw [hnew x (by simpa using hx)]
      exact Ne.symm hne
    have hnone : ¬change.1 < k → changes.find? (fun change => change.1 = k) = none := by
      intro hle
      refine List.find?_eq_none.mpr fun later hlater => ?_
      have hlt := h.later hlater
      simp only [decide_eq_true_eq]
      rintro rfl
      exact hle hlt
    obtain hlt | rfl | hgt := lt_trichotomy k change.1
    · rw [hother hlt.ne, hnone hlt.asymm, List.find?_cons_of_neg (by simp [hlt.ne'])]
      simp [hlt, hlt.asymm, hnone hlt.asymm]
    · rw [itemAt_toList hnew, hnone (lt_irrefl _), List.find?_cons_of_pos (by simp)]
      simp
    · rw [hother hgt.ne', List.find?_cons_of_neg (by simp [hgt.ne])]
      simp [hgt, hgt.asymm]

theorem itemAt_changed (items : List α) (hchange : change ∈ changes) :
    itemAt key (mergeChanges key items changes) change.1 = change.2 := by
  have hfind : changes.find? (fun next => next.1 = change.1) = some change := by
    induction changes with
    | nil => exact absurd hchange (by simp)
    | cons first changes ih =>
      obtain rfl | hlater := List.mem_cons.mp hchange
      · simp
      · rw [List.find?_cons_of_neg (by simp [(h.later hlater).ne]), ih h.tail hlater]
  rw [itemAt_mergeChanges h, hfind]
  rfl

theorem itemAt_unchanged (items : List α) (hk : ∀ change ∈ changes, change.1 ≠ k) :
    itemAt key (mergeChanges key items changes) k = itemAt key items k := by
  have hfind : changes.find? (fun change => change.1 = k) = none :=
    List.find?_eq_none.mpr fun change hchange => by simpa using hk change hchange
  rw [itemAt_mergeChanges h, hfind]
  rfl

end Merge

end InfiniShell.Collections
