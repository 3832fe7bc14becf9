import Mathlib.Data.List.Nodup
import Mathlib.Data.Countable.Basic
import Mathlib.Tactic.Cases

namespace InfiniShell.Collections.TableExtension

variable {A B : Type} [DecidableEq A]

/-- A function with the values of a table, and `fallback` outside it. -/
def extend (table : List (A × B)) (fallback : A → B) (a : A) : B :=
  ((table.find? (·.1 = a)).map Prod.snd).getD (fallback a)

variable {table : List (A × B)} {fallback : A → B}

theorem extend_cases (table : List (A × B)) (fallback : A → B) (a : A) :
    (a, extend table fallback a) ∈ table ∨ extend table fallback a = fallback a := by
  cases hfind : table.find? (·.1 = a) with
  | none => exact .inr (by simp [extend, hfind])
  | some e =>
    have hkey : e.1 = a := by simpa using List.find?_some hfind
    have hmem := List.mem_of_find?_eq_some hfind
    have hvalue : extend table fallback a = e.2 := by simp [extend, hfind]
    rw [hvalue, ← hkey]
    exact .inl hmem

theorem extend_injective (hvalues : (table.map Prod.snd).Nodup) (hfallback : Function.Injective fallback)
    (hdisjoint : ∀ e ∈ table, ∀ a, fallback a ≠ e.2) : Function.Injective (extend table fallback) := by
  intro a b hab
  cases extend_cases table fallback a with
  | inl ha =>
    cases extend_cases table fallback b with
    | inl hb =>
      rw [← hab] at hb
      exact congrArg Prod.fst (List.inj_on_of_nodup_map hvalues ha hb rfl)
    | inr hb => exact absurd (hb.symm.trans hab.symm) (hdisjoint _ ha b)
  | inr ha =>
    cases extend_cases table fallback b with
    | inl hb => exact absurd (ha.symm.trans hab) (hdisjoint _ hb a)
    | inr hb => exact hfallback (ha.symm.trans (hab.trans hb))

theorem extend_of_forall {P : B → Prop} (htable : ∀ e ∈ table, P e.2) (hfallback : ∀ a, P (fallback a)) (a : A) :
    P (extend table fallback a) := by
  cases extend_cases table fallback a with
  | inl ha => exact htable _ ha
  | inr ha => exact ha ▸ hfallback a

noncomputable def unary [Countable A] (symbol : B) (a : A) : List B :=
  List.replicate ((exists_injective_nat A).choose a + 1) symbol

omit [DecidableEq A] in
theorem unary_injective [Countable A] (symbol : B) : Function.Injective (unary (A := A) symbol) := by
  intro a b hab
  have hlength := congrArg List.length hab
  simp only [unary, List.length_replicate, Nat.add_right_cancel_iff] at hlength
  exact (exists_injective_nat A).choose_spec hlength

omit [DecidableEq A] in
theorem head?_unary [Countable A] (symbol : B) (a : A) : (unary symbol a).head? = some symbol := by
  simp [unary, List.replicate_succ]

omit [DecidableEq A] in
theorem mem_unary [Countable A] {symbol b : B} {a : A} (h : b ∈ unary symbol a) : b = symbol :=
  List.eq_of_mem_replicate h

end InfiniShell.Collections.TableExtension
