import InfiniShell.SumTree.Tree
import Mathlib.Order.Basic
import Mathlib.Algebra.GroupWithZero.Nat

namespace InfiniShell.Collections.ListCursor

variable {α : Type} (size : α → Nat)

/-- A seek goes past an item that ends at `stop`. -/
def passes (bias : SeekBias) (stop target : Nat) : Bool :=
  match bias with
  | .left => decide (stop < target)
  | .right => decide (stop ≤ target)

/-- The items a cursor at `pos` goes past to the target, and those it leaves. -/
def slice (bias : SeekBias) (target pos : Nat) : List α → List α × List α
  | [] => ([], [])
  | a :: items =>
    if passes bias (pos + size a) target then
      (a :: (slice bias target (pos + size a) items).1, (slice bias target (pos + size a) items).2)
    else ([], a :: items)

def total (items : List α) : Nat := (items.map size).sum

variable {size} {bias : SeekBias} {target pos : Nat}

@[simp] theorem total_nil : total size [] = 0 := rfl

@[simp] theorem total_cons (a : α) (items : List α) : total size (a :: items) = size a + total size items := by
  simp [total]

@[simp] theorem total_append (l r : List α) : total size (l ++ r) = total size l + total size r := by
  simp [total]

theorem passes_mono {stop stop' : Nat} (hle : stop ≤ stop') (h : passes bias stop' target = true) :
    passes bias stop target = true := by
  cases bias with
  | left => exact decide_eq_true (Nat.lt_of_le_of_lt hle (of_decide_eq_true h))
  | right => exact decide_eq_true (Nat.le_trans hle (of_decide_eq_true h))

theorem slice_append {l r : List α} (hpass : l = [] ∨ passes bias (pos + total size l) target = true)
    (hstop : ∀ a ∈ r.head?, passes bias (pos + total size l + size a) target = false) :
    slice size bias target pos (l ++ r) = (l, r) := by
  induction l generalizing pos with
  | nil =>
    cases r with
    | nil => rfl
    | cons a r =>
      have ha := hstop a rfl
      rw [total_nil, Nat.add_zero] at ha
      rw [List.nil_append, slice, if_neg (by simp [ha])]
  | cons a l ih =>
    have hpass : passes bias (pos + total size (a :: l)) target = true :=
      hpass.resolve_left (List.cons_ne_nil a l)
    rw [total_cons, ← Nat.add_assoc] at hpass
    rw [total_cons, ← Nat.add_assoc] at hstop
    have hrest : slice size bias target (pos + size a) (l ++ r) = (l, r) := ih (Or.inr hpass) hstop
    rw [List.cons_append, slice, if_pos (passes_mono (Nat.le_add_right _ _) hpass), hrest]

theorem slice_spec (bias : SeekBias) (target pos : Nat) (items : List α) :
    ∃ l r, items = l ++ r ∧ slice size bias target pos items = (l, r) ∧
      (l = [] ∨ passes bias (pos + total size l) target = true) ∧
      ∀ a ∈ r.head?, passes bias (pos + total size l + size a) target = false := by
  induction items generalizing pos with
  | nil => exact ⟨[], [], rfl, rfl, Or.inl rfl, fun a h => absurd h (by simp)⟩
  | cons a items ih =>
    by_cases hpass : passes bias (pos + size a) target = true
    · obtain ⟨l, r, hitems, hslice, hl, hr⟩ := ih (pos + size a)
      refine ⟨a :: l, r, by rw [hitems, List.cons_append], by rw [slice, if_pos hpass, hslice], Or.inr ?_, ?_⟩
      · rw [total_cons, ← Nat.add_assoc]
        cases hl with
        | inl hnil => rwa [hnil, total_nil, Nat.add_zero]
        | inr hl => exact hl
      · rw [total_cons, ← Nat.add_assoc]
        exact hr
    · refine ⟨[], a :: items, rfl, by rw [slice, if_neg hpass], Or.inl rfl, ?_⟩
      intro b hb
      rw [total_nil, Nat.add_zero]
      cases Option.some.inj hb
      exact Bool.eq_false_iff.mpr hpass

theorem slice_all {items : List α} (h : pos + total size items ≤ target) :
    slice size .right target pos items = (items, []) := by
  have heq : slice size .right target pos (items ++ []) = (items, []) :=
    slice_append (Or.inr (decide_eq_true h)) (fun a ha => absurd ha (by simp))
  rwa [List.append_nil] at heq

end InfiniShell.Collections.ListCursor
