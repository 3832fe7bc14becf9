import Mathlib.Data.List.Basic

namespace InfiniShell.Collections

variable {α : Type} [BEq α] [LawfulBEq α]

theorem idxOf_lt_idxOf_iff {l l' : List α} (h : l.Sublist l') (hnodup : l'.Nodup) {a b : α} (ha : a ∈ l) (hb : b ∈ l) :
    l'.idxOf a < l'.idxOf b ↔ l.idxOf a < l.idxOf b := by
  induction h with
  | slnil => exact absurd ha List.not_mem_nil
  | cons c h ih =>
    obtain ⟨hc, hnodup⟩ := List.nodup_cons.mp hnodup
    rw [List.idxOf_cons_ne _ (ne_of_mem_of_not_mem (h.subset ha) hc).symm,
      List.idxOf_cons_ne _ (ne_of_mem_of_not_mem (h.subset hb) hc).symm, Nat.succ_lt_succ_iff]
    exact ih hnodup ha hb
  | cons_cons c h ih =>
    obtain ⟨hc, hnodup⟩ := List.nodup_cons.mp hnodup
    by_cases hac : a = c
    · subst hac
      by_cases hbc : b = a
      · rw [hbc]
        simp
      · rw [List.idxOf_cons_self, List.idxOf_cons_self, List.idxOf_cons_ne _ (Ne.symm hbc), List.idxOf_cons_ne _ (Ne.symm hbc)]
        simp
    · by_cases hbc : b = c
      · subst hbc
        simp
      · rw [List.idxOf_cons_ne _ (Ne.symm hac), List.idxOf_cons_ne _ (Ne.symm hbc), List.idxOf_cons_ne _ (Ne.symm hac),
          List.idxOf_cons_ne _ (Ne.symm hbc), Nat.succ_lt_succ_iff, Nat.succ_lt_succ_iff]
        exact ih hnodup ((List.mem_cons.mp ha).resolve_left hac) ((List.mem_cons.mp hb).resolve_left hbc)

end InfiniShell.Collections
