import Mathlib.Data.List.Infix
import Mathlib.Logic.Function.Basic
import Mathlib.Tactic.Cases

namespace InfiniShell.Effects.Journal

variable {K V : Type}

/-- A store with at most one value a key. -/
abbrev Store (K V : Type) := K → Option V

/-- Every write that a later one of the same key follows writes the value that
the key holds in `v`. -/
def RepeatsHarmless (v : Store K V) (l : List (K × V)) : Prop :=
  ∀ l₁ e l₂, l = l₁ ++ e :: l₂ → (∃ d ∈ l₂, d.1 = e.1) → v e.1 = some e.2

variable {v : Store K V}

theorem RepeatsHarmless.of_prefix {l m : List (K × V)}
    (h : RepeatsHarmless v (l ++ m)) : RepeatsHarmless v l := by
  rintro l₁ e l₂ rfl ⟨d, hd, hde⟩
  exact h l₁ e (l₂ ++ m) (by simp) ⟨d, by simp [hd], hde⟩

theorem split_last (k : K) (l : List (K × V)) (h : ∃ d ∈ l, d.1 = k) :
    ∃ l₁ e l₂, l = l₁ ++ e :: l₂ ∧ e.1 = k ∧ ∀ d ∈ l₂, d.1 ≠ k := by
  induction l with
  | nil => simp at h
  | cons e l ih =>
    by_cases hl : ∃ d ∈ l, d.1 = k
    · obtain ⟨l₁, d, l₂, rfl, hd, hl₂⟩ := ih hl
      exact ⟨e :: l₁, d, l₂, rfl, hd, hl₂⟩
    · have he : e.1 = k := by
        obtain ⟨d, hd, hdk⟩ := h
        rcases List.mem_cons.mp hd with rfl | hd
        · exact hdk
        · exact absurd ⟨d, hd, hdk⟩ hl
      exact ⟨[], e, l, rfl, he, fun d hd hdk => hl ⟨d, hd, hdk⟩⟩

variable [DecidableEq K]

def write (v : Store K V) (l : List (K × V)) : Store K V :=
  l.foldl (fun v e => Function.update v e.1 (some e.2)) v

/-- The prior values that are read just before each write. -/
def journal (v : Store K V) : List (K × V) → List (K × Option V)
  | [] => []
  | e :: l => (e.1, v e.1) :: journal (Function.update v e.1 (some e.2)) l

def undo (v : Store K V) (l : List (K × Option V)) : Store K V :=
  l.foldl (fun v e => Function.update v e.1 e.2) v

def rolledBack (v : Store K V) (l : List (K × V)) : Store K V := undo (write v l) (journal v l)

@[simp] theorem write_append (v : Store K V) (l m : List (K × V)) :
    write v (l ++ m) = write (write v l) m := by
  simp [write]

@[simp] theorem write_cons (v : Store K V) (e : K × V) (l : List (K × V)) :
    write v (e :: l) = write (Function.update v e.1 (some e.2)) l := rfl

@[simp] theorem undo_cons (v : Store K V) (e : K × Option V) (l : List (K × Option V)) :
    undo v (e :: l) = undo (Function.update v e.1 e.2) l := rfl

@[simp] theorem undo_singleton (v : Store K V) (e : K × Option V) :
    undo v [e] = Function.update v e.1 e.2 := rfl

@[simp] theorem undo_append (v : Store K V) (l m : List (K × Option V)) :
    undo v (l ++ m) = undo (undo v l) m := by
  simp [undo]

theorem journal_append (v : Store K V) (l m : List (K × V)) :
    journal v (l ++ m) = journal v l ++ journal (write v l) m := by
  induction l generalizing v with
  | nil => rfl
  | cons e l ih => simp [journal, ih]

variable {l : List (K × V)}

theorem write_apply_of_notMem {k : K} (h : ∀ d ∈ l, d.1 ≠ k) : write v l k = v k := by
  induction l generalizing v with
  | nil => rfl
  | cons e l ih =>
    have he : k ≠ e.1 := (h e (by simp)).symm
    rw [write_cons, ih fun d hd => h d (by simp [hd]), Function.update_of_ne he]

theorem undo_congr {u v : Store K V} {k : K} (h : u k = v k) (l : List (K × Option V)) :
    undo u l k = undo v l k := by
  induction l generalizing u v with
  | nil => exact h
  | cons e l ih =>
    rw [undo_cons, undo_cons]
    apply ih
    by_cases hk : k = e.1
    · rw [hk, Function.update_self, Function.update_self]
    · rw [Function.update_of_ne hk, Function.update_of_ne hk, h]

theorem rolledBack_concat (v : Store K V) (l : List (K × V)) (e : K × V) (k : K) :
    rolledBack v (l ++ [e]) k = if k = e.1 then write v l k else rolledBack v l k := by
  have hj : journal v (l ++ [e]) = journal v l ++ [(e.1, write v l e.1)] := by
    simp [journal_append, journal]
  rw [rolledBack, hj, undo_append, undo_singleton]
  by_cases hk : k = e.1
  · rw [if_pos hk, hk, Function.update_self]
  · rw [if_neg hk, Function.update_of_ne hk]
    refine undo_congr ?_ (journal v l)
    rw [write_append, write_apply_of_notMem (l := [e]) (by simpa using Ne.symm hk)]

theorem RepeatsHarmless.rolledBack_eq (h : RepeatsHarmless v l) : rolledBack v l = v := by
  induction l using List.reverseRecOn with
  | nil => rfl
  | append_singleton l e ih =>
    funext k
    rw [rolledBack_concat, ih h.of_prefix]
    split
    · rename_i hk
      subst hk
      by_cases hl : ∃ d ∈ l, d.1 = e.1
      · obtain ⟨l₁, d, l₂, rfl, hd, hl₂⟩ := split_last e.1 l hl
        have hv := h l₁ d (l₂ ++ [e]) (by simp) ⟨e, by simp, hd.symm⟩
        rw [write_append, write_cons, write_apply_of_notMem hl₂, ← hd, Function.update_self, hv]
      · exact write_apply_of_notMem fun d hd hde => hl ⟨d, hd, hde⟩
    · rfl

theorem exists_prefix_of_not_repeatsHarmless
    (h : ¬ RepeatsHarmless v l) : ∃ m n k, l = m ++ n ∧ rolledBack v m k ≠ v k := by
  simp only [RepeatsHarmless, not_forall] at h
  obtain ⟨l₁, e, l₂, rfl, ⟨d, hd, hde⟩, hv⟩ := h
  have hfirst : ∀ l : List (K × V), d ∈ l → ∃ m c n, l = m ++ c :: n ∧ c.1 = e.1 ∧ ∀ b ∈ m, b.1 ≠ e.1 := by
    intro l hl
    induction l with
    | nil => simp at hl
    | cons b l ih =>
      by_cases hb : b.1 = e.1
      · exact ⟨[], b, l, rfl, hb, by simp⟩
      · have hdb : d ≠ b := fun hdb => hb (hdb ▸ hde)
        obtain ⟨m, c, n, rfl, hc, hm⟩ := ih ((List.mem_cons.mp hl).resolve_left hdb)
        refine ⟨b :: m, c, n, rfl, hc, fun a ha => ?_⟩
        rcases List.mem_cons.mp ha with rfl | ha
        · exact hb
        · exact hm a ha
  obtain ⟨m, c, n, rfl, hc, hm⟩ := hfirst l₂ hd
  refine ⟨(l₁ ++ e :: m) ++ [c], n, e.1, by simp, ?_⟩
  rw [rolledBack_concat, if_pos hc.symm, write_append, write_cons, write_apply_of_notMem hm,
    Function.update_self]
  exact Ne.symm hv

end InfiniShell.Effects.Journal
