import Mathlib.Data.List.MinMax
import Mathlib.Order.Lattice.Nat

namespace InfiniShell.Collections

variable {α : Type}

def maxByKey (key : α → Nat) (l : List α) : Option α := l.reverse.argmax key

variable {key : α → Nat} {l : List α} {a b : α}

theorem maxByKey_mem (h : maxByKey key l = some a) : a ∈ l :=
  List.mem_reverse.mp (List.argmax_mem h)

theorem le_maxByKey (h : maxByKey key l = some a) (hb : b ∈ l) : key b ≤ key a :=
  List.le_of_mem_argmax (List.mem_reverse.mpr hb) h

theorem maxByKey_eq_none : maxByKey key l = none ↔ l = [] := by
  rw [maxByKey, List.argmax_eq_none, List.reverse_eq_nil_iff]

theorem exists_maxByKey (h : a ∈ l) : ∃ m, maxByKey key l = some m := by
  cases hmax : maxByKey key l with
  | some m => exact ⟨m, rfl⟩
  | none =>
    rw [maxByKey_eq_none.mp hmax] at h
    cases h

def Graded (key : α → Nat) (l : List α) (p : α → Prop) : Prop :=
  ∀ a b, a ∈ l → b ∈ l → p a → p b → key a = key b → a = b

variable {p q : α → Prop} [DecidablePred p] [DecidablePred q]

def longestMatch (key : α → Nat) (l : List α) (p : α → Prop) [DecidablePred p] : Option α :=
  maxByKey key (l.filter fun a => p a)

theorem longestMatch_eq_none : longestMatch key l p = none ↔ ∀ a ∈ l, ¬ p a := by
  rw [longestMatch, maxByKey_eq_none, List.filter_eq_nil_iff]
  simp

theorem exists_longestMatch (h : a ∈ l) (hp : p a) : ∃ m, longestMatch key l p = some m :=
  exists_maxByKey (List.mem_filter.mpr ⟨h, decide_eq_true hp⟩)

theorem longestMatch_spec (h : longestMatch key l p = some a) : a ∈ l ∧ p a ∧ ∀ b ∈ l, p b → key b ≤ key a := by
  obtain ⟨hmem, hp⟩ := List.mem_filter.mp (maxByKey_mem h)
  refine ⟨hmem, of_decide_eq_true hp, ?_⟩
  intro b hb hpb
  exact le_maxByKey h (List.mem_filter.mpr ⟨hb, decide_eq_true hpb⟩)

theorem Graded.longestMatch_iff (hg : Graded key l p) :
    longestMatch key l p = some a ↔ a ∈ l ∧ p a ∧ ∀ b ∈ l, p b → key b ≤ key a := by
  constructor
  · exact longestMatch_spec
  · rintro ⟨hmem, hp, hmax⟩
    obtain ⟨m, hm⟩ := exists_longestMatch hmem hp
    obtain ⟨hmmem, hpm, hmmax⟩ := longestMatch_spec hm
    rw [hm, hg m a hmmem hmem hpm hp (Nat.le_antisymm (hmax m hmmem hpm) (hmmax a hmem hp))]

/-- What matches only one way is shorter than something that matches both ways. -/
def SameLongest (key : α → Nat) (l : List α) (p q : α → Prop) : Prop :=
  ∀ a ∈ l, (p a ↔ ¬ q a) → ∃ b ∈ l, p b ∧ q b ∧ key a < key b

theorem SameLongest.symm (h : SameLongest key l p q) : SameLongest key l q p := by
  intro a ha hone
  have hother : p a ↔ ¬ q a := by
    by_cases hp : p a <;> by_cases hq : q a <;> simp_all
  obtain ⟨b, hb, hp, hq, hlt⟩ := h a ha hother
  exact ⟨b, hb, hq, hp, hlt⟩

theorem SameLongest.longestMatch_some (h : SameLongest key l p q) (hq : Graded key l q)
    (ha : longestMatch key l p = some a) : longestMatch key l q = some a := by
  obtain ⟨hmem, hp, hmax⟩ := longestMatch_spec ha
  have hqa : q a := by
    apply Classical.byContradiction
    intro hnot
    obtain ⟨b, hb, hpb, -, hlt⟩ := h a hmem ⟨fun _ => hnot, fun _ => hp⟩
    exact absurd (hmax b hb hpb) (Nat.not_le.mpr hlt)
  rw [hq.longestMatch_iff]
  refine ⟨hmem, hqa, ?_⟩
  intro b hb hqb
  by_cases hpb : p b
  · exact hmax b hb hpb
  · obtain ⟨c, hc, hpc, -, hlt⟩ := h b hb ⟨fun hpos => absurd hpos hpb, fun hneg => absurd hqb hneg⟩
    exact Nat.le_trans (Nat.le_of_lt hlt) (hmax c hc hpc)

theorem longestMatch_eq_iff (hp : Graded key l p) (hq : Graded key l q) :
    longestMatch key l p = longestMatch key l q ↔ SameLongest key l p q := by
  constructor
  · intro heq a ha hone
    have hsome : ∃ m, longestMatch key l p = some m := by
      by_cases hpa : p a
      · exact exists_longestMatch ha hpa
      · have hqa : q a := Classical.byContradiction fun hnot => hpa (hone.mpr hnot)
        rw [heq]
        exact exists_longestMatch ha hqa
    obtain ⟨m, hm⟩ := hsome
    obtain ⟨hmem, hpm, hpmax⟩ := longestMatch_spec hm
    obtain ⟨-, hqm, hqmax⟩ := longestMatch_spec (heq ▸ hm)
    refine ⟨m, hmem, hpm, hqm, ?_⟩
    by_cases hpa : p a
    · have hne : key a ≠ key m := by
        intro hkey
        obtain rfl := hp a m ha hmem hpa hpm hkey
        exact hone.mp hpa hqm
      exact Nat.lt_of_le_of_ne (hpmax a ha hpa) hne
    · have hqa : q a := Classical.byContradiction fun hnot => hpa (hone.mpr hnot)
      have hne : key a ≠ key m := by
        intro hkey
        obtain rfl := hq a m ha hmem hqa hqm hkey
        exact hpa hpm
      exact Nat.lt_of_le_of_ne (hqmax a ha hqa) hne
  · intro h
    cases hl : longestMatch key l p with
    | some a => exact (h.longestMatch_some hq hl).symm
    | none =>
      cases hr : longestMatch key l q with
      | none => rfl
      | some b => exact hl.symm.trans (h.symm.longestMatch_some hp hr)

end InfiniShell.Collections
