import Mathlib.Data.List.Basic
import Mathlib.Data.List.Induction

namespace InfiniShell.Collections

variable {α : Type}

def swapped (l : List α) (i j : Nat) : List α :=
  match l[i]?, l[j]? with
  | some a, some b => (l.set i b).set j a
  | _, _ => l

@[simp] theorem swapped_length (l : List α) (i j : Nat) : (swapped l i j).length = l.length := by
  rw [swapped]
  split <;> simp

variable {l : List α} {i j : Nat}

theorem swapped_of_getElem? {a b : α} (hi : l[i]? = some a) (hj : l[j]? = some b) :
    swapped l i j = (l.set i b).set j a := by
  rw [swapped, hi, hj]

theorem getElem?_swapped (hi : i < l.length) (hj : j < l.length) (k : Nat) :
    (swapped l i j)[k]? = if k = j then l[i]? else if k = i then l[j]? else l[k]? := by
  rw [swapped_of_getElem? (List.getElem?_eq_getElem hi) (List.getElem?_eq_getElem hj), List.getElem?_set,
    List.getElem?_set, List.length_set]
  by_cases hkj : k = j
  · rw [if_pos hkj.symm, if_pos hj, if_pos hkj, List.getElem?_eq_getElem hi]
  · rw [if_neg (Ne.symm hkj), if_neg hkj]
    by_cases hki : k = i
    · rw [if_pos hki.symm, if_pos hi, if_pos hki, List.getElem?_eq_getElem hj]
    · rw [if_neg (Ne.symm hki), if_neg hki]

theorem swapped_comm (l : List α) (i j : Nat) : swapped l i j = swapped l j i := by
  by_cases h : i < l.length ∧ j < l.length
  · apply List.ext_getElem?
    intro k
    rw [getElem?_swapped h.1 h.2, getElem?_swapped h.2 h.1]
    by_cases hki : k = i
    · by_cases hkj : k = j
      · rw [if_pos hkj, if_pos hki, ← hki, ← hkj]
      · rw [if_neg hkj, if_pos hki, if_pos hki]
    · rw [if_neg hki, if_neg hki]
  · rw [swapped, swapped]
    cases hi : l[i]? with
    | none => cases l[j]? <;> rfl
    | some a =>
      cases hj : l[j]? with
      | none => rfl
      | some b => exact absurd ⟨(List.getElem?_eq_some_iff.mp hi).1, (List.getElem?_eq_some_iff.mp hj).1⟩ h

theorem swapped_append (l m r : List α) (a b : α) :
    swapped (l ++ a :: (m ++ b :: r)) l.length (l.length + (m.length + 1)) = l ++ b :: (m ++ a :: r) := by
  have hi : (l ++ a :: (m ++ b :: r))[l.length]? = some a := by simp
  have hj : (l ++ a :: (m ++ b :: r))[l.length + (m.length + 1)]? = some b := by simp
  rw [swapped_of_getElem? hi hj]
  simp

theorem swapped_run (l r : List α) (x y : α) (d : Nat) :
    swapped (l ++ (List.replicate d x ++ y :: r)) l.length (l.length + d) = l ++ y :: (List.replicate d x ++ r) := by
  cases d with
  | zero =>
    have hy : (l ++ (List.replicate 0 x ++ y :: r))[l.length]? = some y := by simp
    rw [Nat.add_zero, swapped_of_getElem? hy hy]
    simp
  | succ d =>
    have hswap := swapped_append l (List.replicate d x) r x y
    rw [List.length_replicate] at hswap
    rw [List.replicate_succ, List.cons_append, hswap, ← List.replicate_succ, List.replicate_succ', List.append_assoc]
    rfl

theorem swapped_run_back (l r : List α) (x y : α) (d : Nat) :
    swapped (l ++ y :: (List.replicate d x ++ r)) (l.length + d) l.length = l ++ (List.replicate d x ++ y :: r) := by
  rw [swapped_comm]
  cases d with
  | zero =>
    have hy : (l ++ y :: (List.replicate 0 x ++ r))[l.length]? = some y := by simp
    rw [Nat.add_zero, swapped_of_getElem? hy hy]
    simp
  | succ d =>
    have hswap := swapped_append l (List.replicate d x) r y x
    rw [List.length_replicate] at hswap
    conv_lhs => rw [List.replicate_succ', List.append_assoc, List.singleton_append, hswap]
    rw [List.replicate_succ, List.cons_append]

section Chain

theorem foldl_swapped_length (f g : Nat → Nat) (indices : List Nat) (l : List α) :
    (indices.foldl (fun l i => swapped l (f i) (g i)) l).length = l.length := by
  induction indices generalizing l with
  | nil => rfl
  | cons i indices ih => rw [List.foldl_cons, ih, swapped_length]

theorem swapDown_drop (distance count : Nat) (l : List α) (h : count + distance ≤ l.length) :
    ((List.range count).reverse.foldl (fun l i => swapped l i (i + distance)) l).drop distance =
      l.take count ++ l.drop (count + distance) := by
  induction count generalizing l with
  | zero => simp
  | succ count ih =>
    rw [List.range_succ, List.reverse_append, List.reverse_singleton, List.singleton_append, List.foldl_cons,
      ih _ (by rw [swapped_length]; omega)]
    apply List.ext_getElem?
    intro k
    rw [List.getElem?_append, List.getElem?_append, List.length_take, List.length_take, swapped_length,
      List.getElem?_drop, List.getElem?_drop, List.getElem?_take, List.getElem?_take,
      getElem?_swapped (by omega) (by omega), getElem?_swapped (by omega) (by omega)]
    by_cases hlow : k < count
    · rw [if_pos (by omega), if_pos hlow, if_neg (by omega), if_neg (by omega), if_pos (by omega), if_pos (by omega)]
    · by_cases hk : k = count
      · rw [if_neg (by omega), if_pos (by omega), if_pos (by omega), if_pos (by omega), hk]
      · rw [if_neg (by omega), if_neg (by omega), if_neg (by omega), if_neg (by omega)]
        congr 1
        omega

theorem swapUp_take (distance count : Nat) (l : List α) (h : count + distance ≤ l.length) :
    ((List.range count).reverse.foldl
        (fun l' i => swapped l' (l.length - (i + 1)) (l.length - (i + 1) - distance)) l).take (l.length - distance) =
      l.take (l.length - count - distance) ++ l.drop (l.length - count) := by
  have hchain : ∀ (count : Nat) (l : List α) (n : Nat), l.length = n → count + distance ≤ n →
      ((List.range count).reverse.foldl
        (fun l' i => swapped l' (n - (i + 1)) (n - (i + 1) - distance)) l).take (n - distance) =
      l.take (n - count - distance) ++ l.drop (n - count) := by
    intro count
    induction count with
    | zero =>
      intro l n hn _
      simp [← hn]
    | succ count ih =>
      intro l n hn h
      rw [List.range_succ, List.reverse_append, List.reverse_singleton, List.singleton_append, List.foldl_cons,
        ih _ _ (by rw [swapped_length, hn]) (by omega)]
      apply List.ext_getElem?
      intro k
      rw [List.getElem?_append, List.getElem?_append, List.length_take, List.length_take, swapped_length,
        List.getElem?_drop, List.getElem?_drop, List.getElem?_take, List.getElem?_take,
        getElem?_swapped (by omega) (by omega), getElem?_swapped (by omega) (by omega)]
      by_cases hlow : k < n - (count + 1) - distance
      · rw [if_pos (by omega), if_pos (by omega), if_neg (by omega), if_neg (by omega), if_pos (by omega),
          if_pos (by omega)]
      · by_cases hk : k = n - (count + 1) - distance
        · rw [if_pos (by omega), if_pos (by omega), if_pos (by omega), if_neg (by omega)]
          congr 1
          omega
        · rw [if_neg (by omega), if_neg (by omega), if_neg (by omega), if_neg (by omega)]
          congr 1
          omega
  exact hchain count l l.length rfl h

theorem swapBefore_run (x : α) (d : Nat) (moved rest l : List α) :
    (List.range' l.length moved.length).foldl (fun l i => swapped l i (i + d))
        (l ++ (List.replicate d x ++ (moved ++ rest))) =
      l ++ (moved ++ (List.replicate d x ++ rest)) := by
  induction moved generalizing l with
  | nil => rfl
  | cons y moved ih =>
    rw [List.length_cons, List.range'_succ, List.foldl_cons, List.cons_append, swapped_run]
    have h := ih (l ++ [y])
    rw [List.length_append, List.length_singleton, List.append_assoc, List.append_assoc] at h
    exact h

theorem swapBehind_run (x : α) (d n : Nat) (l moved r : List α)
    (hn : n = (l ++ (moved ++ (List.replicate d x ++ r))).length) :
    (List.range' r.length moved.length).foldl (fun l i => swapped l (n - (i + 1)) (n - (i + 1) - d))
        (l ++ (moved ++ (List.replicate d x ++ r))) =
      l ++ (List.replicate d x ++ (moved ++ r)) := by
  induction moved using List.reverseRecOn generalizing r with
  | nil => rfl
  | append_singleton moved y ih =>
    have hindex : n - (r.length + 1) - d = (l ++ moved).length := by
      rw [hn]
      simp
      omega
    have hindex' : n - (r.length + 1) = (l ++ moved).length + d := by
      rw [hn]
      simp
      omega
    have hswap := swapped_run_back (l ++ moved) r x y d
    rw [List.length_append, List.length_singleton, List.range'_succ, List.foldl_cons, hindex, hindex',
      List.append_assoc moved, List.singleton_append, ← List.append_assoc l, hswap]
    have h := ih (y :: r) (by rw [hn]; simp; omega)
    rw [List.length_cons] at h
    rw [List.append_assoc l, h, List.append_assoc moved]
    rfl

theorem getElem?_swapRight (source d count : Nat) (l : List α) (h : source + d + count ≤ l.length) (k : Nat) :
    (k < source ∨ source + d + count ≤ k →
      ((List.range count).reverse.foldl (fun l i => swapped l (source + d + i) (source + i)) l)[k]? = l[k]?) ∧
    (source + d ≤ k → k < source + d + count →
      ((List.range count).reverse.foldl (fun l i => swapped l (source + d + i) (source + i)) l)[k]? =
        l[k - d]?) := by
  induction count generalizing l with
  | zero => exact ⟨fun _ => rfl, fun hlow hhigh => absurd hhigh (by omega)⟩
  | succ count ih =>
    rw [List.range_succ, List.reverse_append, List.reverse_singleton, List.singleton_append, List.foldl_cons]
    obtain ⟨hout, hin⟩ := ih (swapped l (source + d + count) (source + count)) (by rw [swapped_length]; omega)
    have hget := fun j => getElem?_swapped (l := l) (i := source + d + count) (j := source + count)
      (by omega) (by omega) j
    constructor
    · intro hk
      rw [hout (by omega), hget, if_neg (by omega), if_neg (by omega)]
    · intro hlow hhigh
      by_cases hk : k = source + d + count
      · rw [hout (by omega), hget]
        by_cases hd : d = 0
        · rw [if_pos (by omega), hk, hd]
          rfl
        · rw [if_neg (by omega), if_pos hk, hk]
          congr 1
          omega
      · rw [hin hlow (by omega), hget, if_neg (by omega), if_neg (by omega)]

theorem swapRight_gap_one (source count : Nat) (l : List α) (h : source + 1 + count ≤ l.length) :
    ((List.range count).reverse.foldl (fun l i => swapped l (source + 1 + i) (source + i)) l)[source]? =
      l[source + count]? := by
  induction count generalizing l with
  | zero => rfl
  | succ count ih =>
    rw [List.range_succ, List.reverse_append, List.reverse_singleton, List.singleton_append, List.foldl_cons,
      ih _ (by rw [swapped_length]; omega), getElem?_swapped (by omega) (by omega), if_pos rfl]
    congr 1
    omega

theorem swapRight_gap_two (source count : Nat) (l : List α) (h : source + 2 + count ≤ l.length) :
    let moved := (List.range count).reverse.foldl (fun l i => swapped l (source + 2 + i) (source + i)) l
    if count % 2 = 0 then moved[source]? = l[source + count]? ∧ moved[source + 1]? = l[source + count + 1]?
    else moved[source]? = l[source + count + 1]? ∧ moved[source + 1]? = l[source + count]? := by
  induction count generalizing l with
  | zero => exact ⟨rfl, rfl⟩
  | succ count ih =>
    have hchain := ih (swapped l (source + 2 + count) (source + count)) (by rw [swapped_length]; omega)
    have hget := fun j => getElem?_swapped (l := l) (i := source + 2 + count) (j := source + count)
      (by omega) (by omega) j
    have hfirst : (swapped l (source + 2 + count) (source + count))[source + count]? =
        l[source + (count + 1) + 1]? := by
      rw [hget, if_pos rfl]
      congr 1
      omega
    have hsecond : (swapped l (source + 2 + count) (source + count))[source + count + 1]? =
        l[source + (count + 1)]? := by
      rw [hget, if_neg (by omega), if_neg (by omega)]
      rfl
    rw [hfirst, hsecond] at hchain
    simp only [List.range_succ, List.reverse_append, List.reverse_singleton, List.singleton_append, List.foldl_cons]
    by_cases heven : count % 2 = 0
    · rw [if_pos heven] at hchain
      rw [if_neg (by omega)]
      exact hchain
    · rw [if_neg heven] at hchain
      rw [if_pos (by omega)]
      exact hchain

theorem getElem?_swapLeft (destination d count : Nat) (l : List α) (h : destination + d + count ≤ l.length)
    (k : Nat) :
    (k < destination ∨ destination + d + count ≤ k →
      ((List.range count).foldl (fun l i => swapped l (destination + i) (destination + d + i)) l)[k]? = l[k]?) ∧
    (destination ≤ k → k < destination + count →
      ((List.range count).foldl (fun l i => swapped l (destination + i) (destination + d + i)) l)[k]? =
        l[k + d]?) := by
  induction count generalizing k with
  | zero => exact ⟨fun _ => rfl, fun hlow hhigh => absurd hhigh (by omega)⟩
  | succ count ih =>
    rw [List.range_succ, List.foldl_append, List.foldl_cons, List.foldl_nil]
    have hlength := foldl_swapped_length (fun i => destination + i) (fun i => destination + d + i)
      (List.range count) l
    rw [getElem?_swapped (by rw [hlength]; omega) (by rw [hlength]; omega)]
    constructor
    · intro hk
      rw [if_neg (by omega), if_neg (by omega)]
      exact (ih (by omega) k).1 (by omega)
    · intro hlow hhigh
      by_cases hk : k = destination + count
      · by_cases hd : d = 0
        · rw [if_pos (by omega), (ih (by omega) _).1 (by omega), hk, hd]
          rfl
        · rw [if_neg (by omega), if_pos hk, (ih (by omega) _).1 (by omega), hk]
          congr 1
          omega
      · by_cases hover : k = destination + d + count
        · omega
        · rw [if_neg hover, if_neg hk]
          exact (ih (by omega) k).2 hlow (by omega)

end Chain

end InfiniShell.Collections
