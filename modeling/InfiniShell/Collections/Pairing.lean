import Mathlib.Data.List.Basic

namespace InfiniShell.Collections

variable {α : Type} (opens closes : α → Bool)

/-- An element that neither opens nor closes a pair. -/
def Plain (x : α) : Prop := opens x = false ∧ closes x = false

inductive Paired : List α → Prop where
  | nil : Paired []
  | plain {x : α} {l : List α} (hx : Plain opens closes x) (hl : Paired l) : Paired (x :: l)
  | pair {x y : α} {l : List α} (hx : opens x = true ∧ closes x = false)
      (hy : opens y = false ∧ closes y = true) (hl : Paired l) : Paired (x :: y :: l)

namespace Paired

variable {opens closes : α → Bool} {l r : List α}

theorem append (hl : Paired opens closes l) (hr : Paired opens closes r) :
    Paired opens closes (l ++ r) := by
  induction hl with
  | nil => exact hr
  | plain hx _ ih => exact plain hx ih
  | pair hx hy _ ih => exact pair hx hy ih

variable {l : List α}

theorem of_forall_plain (h : ∀ x ∈ l, Plain opens closes x) : Paired opens closes l := by
  induction l with
  | nil => exact nil
  | cons x l ih => exact plain (h x List.mem_cons_self) (ih fun y hy => h y (List.mem_cons_of_mem x hy))

variable {x : α}

theorem head_not_closes (h : Paired opens closes (x :: l)) : closes x = false := by
  cases h with
  | plain hx _ => exact hx.2
  | pair hx _ _ => exact hx.2

theorem split (h : Paired opens closes (l ++ r)) (hr : ∀ x ∈ r.head?, closes x = false) :
    Paired opens closes l ∧ Paired opens closes r := by
  generalize hm : l ++ r = m at h
  induction h generalizing l with
  | nil =>
    obtain ⟨rfl, rfl⟩ := List.append_eq_nil_iff.mp hm
    exact ⟨nil, nil⟩
  | @plain x m hx hrest ih =>
    cases l with
    | nil => exact ⟨nil, by subst hm; exact plain hx hrest⟩
    | cons x' l =>
      obtain ⟨hxx, hlr⟩ := List.cons.inj hm
      subst hxx
      exact ⟨plain hx (ih hlr).1, (ih hlr).2⟩
  | @pair x y m hx hy hrest ih =>
    cases l with
    | nil => exact ⟨nil, by subst hm; exact pair hx hy hrest⟩
    | cons x' l =>
      obtain ⟨hxx, hlr⟩ := List.cons.inj hm
      subst hxx
      cases l with
      | nil =>
        have hclose : closes y = false := hr y (by simp_all)
        exact absurd hy.2 (by simp [hclose])
      | cons y' l =>
        obtain ⟨hyy, htail⟩ := List.cons.inj hlr
        subst hyy
        exact ⟨pair hx hy (ih htail).1, (ih htail).2⟩

theorem congr {l l' : List α}
    (hl : l.map (fun x => (opens x, closes x)) = l'.map (fun x => (opens x, closes x)))
    (h : Paired opens closes l) : Paired opens closes l' := by
  induction h generalizing l' with
  | nil =>
    cases l' with
    | nil => exact nil
    | cons => cases hl
  | plain hx _ ih =>
    cases l' with
    | nil => cases hl
    | cons y l' =>
      obtain ⟨hy, hrest⟩ := List.cons.inj hl
      obtain ⟨ho, hc⟩ := Prod.mk.inj hy
      exact plain ⟨ho ▸ hx.1, hc ▸ hx.2⟩ (ih hrest)
  | pair hx hy _ ih =>
    cases l' with
    | nil => cases hl
    | cons x' l' =>
      cases l' with
      | nil => cases (List.cons.inj hl).2
      | cons y' l' =>
        obtain ⟨hx', hrest⟩ := List.cons.inj hl
        obtain ⟨hy', hrest⟩ := List.cons.inj hrest
        obtain ⟨hxo, hxc⟩ := Prod.mk.inj hx'
        obtain ⟨hyo, hyc⟩ := Prod.mk.inj hy'
        exact pair ⟨hxo ▸ hx.1, hxc ▸ hx.2⟩ ⟨hyo ▸ hy.1, hyc ▸ hy.2⟩ (ih hrest)

variable {i : Nat} {x y : α}

theorem set_of_eq (h : Paired opens closes l) (hx : l[i]? = some x)
    (ho : opens y = opens x) (hc : closes y = closes x) : Paired opens closes (l.set i y) := by
  apply h.congr
  rw [List.map_set, ho, hc]
  apply List.ext_getElem?
  intro j
  rw [List.getElem?_set]
  split
  next hij =>
    subst hij
    obtain ⟨hlt, hget⟩ := List.getElem?_eq_some_iff.mp hx
    simp [hlt, hget]
  next => rfl

theorem set_plain (h : Paired opens closes l) (hx : l[i]? = some x)
    (hplain : Plain opens closes x) (hy : Plain opens closes y) : Paired opens closes (l.set i y) :=
  h.set_of_eq hx (hy.1.trans hplain.1.symm) (hy.2.trans hplain.2.symm)

variable {k : Nat} (h : Paired opens closes l)
include h

theorem take (hk : ∀ x, l[k]? = some x → closes x = false) : Paired opens closes (l.take k) := by
  rw [← List.take_append_drop k l] at h
  exact (h.split fun x hx => hk x (by rwa [List.head?_drop] at hx)).1

theorem drop (hk : ∀ x, l[k]? = some x → closes x = false) : Paired opens closes (l.drop k) := by
  rw [← List.take_append_drop k l] at h
  exact (h.split fun x hx => hk x (by rwa [List.head?_drop] at hx)).2

theorem opens_iff (i : Nat) :
    (∃ x, l[i]? = some x ∧ opens x = true) ↔ ∃ y, l[i + 1]? = some y ∧ closes y = true := by
  induction h generalizing i with
  | nil => simp
  | @plain x l hx hl ih =>
    cases i with
    | zero =>
      constructor
      · intro hopen
        obtain ⟨y, hy, hopen⟩ := hopen
        simp_all [Plain]
      · intro hclose
        obtain ⟨y, hy, hclose⟩ := hclose
        cases hl with
        | nil => cases hy
        | plain hz _ => simp_all [Plain]
        | pair hz _ _ => simp_all
    | succ i => simpa using ih i
  | @pair x y l hx hy hl ih =>
    cases i with
    | zero => simp [hx, hy]
    | succ i =>
      cases i with
      | zero =>
        constructor
        · intro hopen
          obtain ⟨z, hz, hopen⟩ := hopen
          simp_all
        · intro hclose
          obtain ⟨z, hz, hclose⟩ := hclose
          cases hl with
          | nil => cases hz
          | plain hz' _ => simp_all [Plain]
          | pair hz' _ _ => simp_all
      | succ i => simpa using ih i

theorem getElem_zero (hx : l[0]? = some x) : closes x = false := by
  cases l with
  | nil => cases hx
  | cons y l =>
    cases hx
    exact h.head_not_closes

theorem not_both (hx : x ∈ l) (ho : opens x = true) : closes x = false := by
  induction h with
  | nil => cases hx
  | plain hy _ ih =>
    cases hx with
    | head => exact hy.2
    | tail _ hx => exact ih hx
  | pair hy hz _ ih =>
    cases hx with
    | head => exact hy.2
    | tail _ hx =>
      cases hx with
      | head => exact absurd ho (by simp [hz.1])
      | tail _ hx => exact ih hx

theorem set_pair {x y z : α} (hx : l[i + 1]? = some x)
    (hclose : closes x = true) (hy : Plain opens closes y) (hz : Plain opens closes z) :
    Paired opens closes ((l.set i y).set (i + 1) z) := by
  induction h generalizing i with
  | nil => cases hx
  | @plain w l hw hl ih =>
    cases i with
    | zero =>
      cases l with
      | nil => cases hx
      | cons v l =>
        cases hx
        exact absurd hl.head_not_closes (by simp [hclose])
    | succ i => exact plain hw (ih hx)
  | @pair v w l hv hw hl ih =>
    cases i with
    | zero => exact plain hy (plain hz hl)
    | succ i =>
      cases i with
      | zero =>
        cases l with
        | nil => cases hx
        | cons u l =>
          cases hx
          exact absurd hl.head_not_closes (by simp [hclose])
      | succ i => exact pair hv hw (ih hx)

theorem set_opens {x y v w : α} (hx : l[i]? = some x)
    (hplain : Plain opens closes x) (hy : l[i + 1]? = some y) (hplain' : Plain opens closes y)
    (hv : opens v = true ∧ closes v = false) (hw : opens w = false ∧ closes w = true) :
    Paired opens closes ((l.set i v).set (i + 1) w) := by
  induction h generalizing i with
  | nil => cases hx
  | @plain u l hu hl ih =>
    cases i with
    | zero =>
      cases l with
      | nil => cases hy
      | cons u' l =>
        cases hy
        have hrest : Paired opens closes l := by
          cases hl with
          | plain _ hrest => exact hrest
          | pair hu' _ _ => exact absurd hplain'.1 (by simp [hu'.1])
        exact pair hv hw hrest
    | succ i => exact plain hu (ih hx hy)
  | @pair u u' l hu hu' hl ih =>
    cases i with
    | zero =>
      cases hx
      exact absurd hplain.1 (by simp [hu.1])
    | succ i =>
      cases i with
      | zero =>
        cases hx
        exact absurd hplain.2 (by simp [hu'.2])
      | succ i => exact pair hu hu' (ih hx hy)

end Paired

end InfiniShell.Collections
