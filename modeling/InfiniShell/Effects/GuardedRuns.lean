import Mathlib.Data.List.Induction
import Mathlib.Tactic.Cases

namespace InfiniShell.Effects

structure GuardedSystem (W S : Type) where
  start : W
  after : W → S → W
  guard : W → S → Prop

namespace GuardedSystem

variable {W S : Type} (sys : GuardedSystem W S)

def run (steps : List S) : W := steps.foldl sys.after sys.start

def Guarded (steps : List S) : Prop :=
  ∀ earlier step later, steps = earlier ++ step :: later → sys.guard (sys.run earlier) step

variable {sys} {steps earlier later : List S} {step : S}

theorem run_concat (earlier : List S) (step : S) : sys.run (earlier ++ [step]) = sys.after (sys.run earlier) step :=
  List.foldl_append

theorem guarded_nil (sys : GuardedSystem W S) : sys.Guarded [] := by
  intro earlier step later heq
  exact absurd heq.symm (List.append_ne_nil_of_right_ne_nil earlier (List.cons_ne_nil step later))

theorem Guarded.left (h : sys.Guarded (earlier ++ later)) : sys.Guarded earlier := by
  rintro before step after rfl
  exact h before step (after ++ later) (by simp)

theorem Guarded.allowed (h : sys.Guarded (earlier ++ step :: later)) : sys.guard (sys.run earlier) step :=
  h earlier step later rfl

theorem Guarded.concat (h : sys.Guarded steps) (step : S) (hstep : sys.guard (sys.run steps) step) :
    sys.Guarded (steps ++ [step]) := by
  intro earlier other later heq
  cases List.eq_nil_or_concat later with
  | inl hnil =>
    subst hnil
    obtain ⟨rfl, hlast⟩ := List.append_inj' heq rfl
    obtain rfl := (List.cons.inj hlast).1
    exact hstep
  | inr hconcat =>
    obtain ⟨rest, last, rfl⟩ := hconcat
    rw [List.concat_eq_append, ← List.cons_append, ← List.append_assoc] at heq
    obtain ⟨hsteps, -⟩ := List.append_inj' heq rfl
    exact h earlier other rest hsteps

theorem Guarded.invariant {inv : W → Prop} (hstart : inv sys.start)
    (hstep : ∀ w step, inv w → sys.guard w step → inv (sys.after w step)) (h : sys.Guarded steps) :
    inv (sys.run steps) := by
  induction steps using List.reverseRecOn with
  | nil => exact hstart
  | append_singleton steps step ih =>
    rw [run_concat]
    exact hstep _ _ (ih h.left) h.allowed

theorem Guarded.between (inv : W → Prop) (rel : W → W → Prop) (hstart : inv sys.start)
    (hstep : ∀ w step, inv w → sys.guard w step → inv (sys.after w step)) (hrefl : ∀ w, rel w w)
    (htrans : ∀ u v w, rel u v → rel v w → rel u w)
    (hrel : ∀ w step, inv w → sys.guard w step → rel w (sys.after w step)) (h : sys.Guarded (earlier ++ later)) :
    rel (sys.run earlier) (sys.run (earlier ++ later)) := by
  induction later using List.reverseRecOn with
  | nil =>
    rw [List.append_nil]
    exact hrefl _
  | append_singleton later step ih =>
    rw [← List.append_assoc] at h ⊢
    refine htrans _ _ _ (ih h.left) ?_
    rw [run_concat]
    exact hrel _ _ (h.left.invariant hstart hstep) h.allowed

end GuardedSystem

end InfiniShell.Effects
