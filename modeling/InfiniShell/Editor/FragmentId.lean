import Mathlib.Data.List.Lex
import Mathlib.Order.Basic

namespace InfiniShell.Editor

/-- The entries are 16 bits wide; ids compare lexicographically. -/
abbrev FragmentId := List Nat

namespace FragmentId

def minValue : FragmentId := [0]

def maxValue : FragmentId := [65535]

/-- What the loop pushes from an entry of each id on; `None` when `r - l` or the sum leaves 16 bits, or when the
loop does not end. -/
def pushEntry (l r : Nat) (rest : Option (List Nat)) : Option (List Nat) :=
  if r < l then none
  else if r - l > 1 then
    let entry := l + min (max ((r - l) / 2) 1) 8
    if entry ≤ 65535 then some [entry] else none
  else rest.map (l :: ·)

/-- The entries pushed once the left id is used up. -/
def betweenZeros (maxValue : Nat) : List Nat → Option (List Nat)
  | [] => pushEntry 0 maxValue none
  | r :: right => pushEntry 0 r (betweenZeros maxValue right)

def betweenWithMax (maxValue : Nat) : List Nat → List Nat → Option (List Nat)
  | [], right => betweenZeros maxValue right
  | l :: left, [] => pushEntry l maxValue (betweenWithMax maxValue left [])
  | l :: left, r :: right => pushEntry l r (betweenWithMax maxValue left right)

def between (left right : FragmentId) : Option FragmentId := betweenWithMax 65535 left right

def mid (left right : FragmentId) : FragmentId := (between left right).getD []

def IsU16 (id : FragmentId) : Prop := ∀ entry ∈ id, entry ≤ 65535

/-- `left`, padded with zeros, differs from `right` in the last entry only, where it is smaller. -/
def Before : FragmentId → FragmentId → Prop
  | _, [] => False
  | left, [r] => left.headD 0 < r
  | left, r :: right => left.headD 0 = r ∧ Before left.tail right

theorem before_cons_cons {left : FragmentId} {r s : Nat} {right : FragmentId} :
    Before left (r :: s :: right) ↔ left.headD 0 = r ∧ Before left.tail (s :: right) := Iff.rfl

variable {left right : FragmentId}

theorem lt_of_before (h : Before left right) : left < right := by
  induction right generalizing left with
  | nil => exact absurd h id
  | cons r right ih =>
    cases left with
    | nil => exact List.nil_lt_cons r right
    | cons l left =>
      rw [List.cons_lt_cons_iff]
      cases right with
      | nil => exact Or.inl h
      | cons s right =>
        obtain ⟨heq, hrest⟩ := before_cons_cons.mp h
        exact Or.inr ⟨heq, ih hrest⟩

variable {id : FragmentId}

theorem headD_le (h : IsU16 id) : id.headD 0 ≤ 65535 := by
  cases id with
  | nil => exact Nat.zero_le _
  | cons entry id => exact h entry List.mem_cons_self

theorem IsU16.tail (h : IsU16 id) : IsU16 id.tail :=
  fun entry hmem => h entry (List.mem_of_mem_tail hmem)

theorem betweenWithMax_cons {maxValue r : Nat} : betweenWithMax maxValue left (r :: right) =
      pushEntry (left.headD 0) r (betweenWithMax maxValue left.tail right) := by
  cases left with
  | nil => rfl
  | cons l left => rfl

variable {l r : Nat}

theorem pushEntry_of_lt (rest : Option (List Nat)) (h : l + 1 < r) (hr : r ≤ 65535) :
    ∃ entry, pushEntry l r rest = some [entry] ∧ l < entry ∧ entry < r := by
  have hinterval : r - l > 1 := by omega
  have hentry : l + min (max ((r - l) / 2) 1) 8 < r := by omega
  refine ⟨l + min (max ((r - l) / 2) 1) 8, ?_, by omega, hentry⟩
  rw [pushEntry, if_neg (by omega), if_pos hinterval]
  exact if_pos (by omega)

theorem pushEntry_of_le {rest : Option (List Nat)} (hl : l ≤ r) (h : r ≤ l + 1) :
    pushEntry l r rest = rest.map (l :: ·) := by
  rw [pushEntry, if_neg (by omega), if_neg (by omega)]

theorem Before.cons {left rest : FragmentId} (h : Before left.tail rest) : Before left (left.headD 0 :: rest) := by
  cases rest with
  | nil => exact absurd h id
  | cons s rest => exact before_cons_cons.mpr ⟨rfl, h⟩

theorem isU16_cons {rest : FragmentId} (hl : l ≤ 65535) (hrest : IsU16 rest) : IsU16 (l :: rest) := by
  intro entry hentry
  cases List.mem_cons.mp hentry with
  | inl heq => rw [heq]; exact hl
  | inr hmem => exact hrest entry hmem

theorem isU16_singleton (hl : l ≤ 65535) : IsU16 [l] := isU16_cons hl nofun

theorem before_betweenWithMax_nil (h : IsU16 left) :
    ∃ id, betweenWithMax 65535 left [] = some id ∧ Before left id ∧ IsU16 id := by
  induction left with
  | nil =>
    have hlow : 0 < 8 := by decide
    exact ⟨[8], rfl, hlow, isU16_singleton (by decide)⟩
  | cons l left ih =>
    have hl : l ≤ 65535 := h l List.mem_cons_self
    obtain ⟨id, hid, hbefore, hu16⟩ := ih h.tail
    rw [betweenWithMax]
    by_cases hlt : l + 1 < 65535
    · obtain ⟨entry, heq, hlow, hhigh⟩ := pushEntry_of_lt (betweenWithMax 65535 left []) hlt (Nat.le_refl _)
      exact ⟨[entry], heq, hlow, isU16_singleton hhigh.le⟩
    · rw [pushEntry_of_le hl (by omega), hid]
      exact ⟨l :: id, rfl, Before.cons hbefore, isU16_cons hl hu16⟩

theorem exists_between (h : Before left right) (hl : IsU16 left) (hr : IsU16 right) :
    ∃ id, between left right = some id ∧ Before left id ∧ Before id right ∧ IsU16 id := by
  unfold between
  induction right generalizing left with
  | nil => exact absurd h id
  | cons r right ih =>
    have hr' : r ≤ 65535 := hr r List.mem_cons_self
    have hl' := headD_le hl
    rw [betweenWithMax_cons]
    cases right with
    | nil =>
      have hlt : left.headD 0 < r := h
      by_cases hroom : left.headD 0 + 1 < r
      · obtain ⟨entry, heq, hlow, hhigh⟩ := pushEntry_of_lt (betweenWithMax 65535 left.tail []) hroom hr'
        exact ⟨[entry], heq, hlow, hhigh, isU16_singleton (hhigh.le.trans hr')⟩
      · obtain ⟨id, hid, hbefore, hu16⟩ := before_betweenWithMax_nil hl.tail
        rw [pushEntry_of_le (by omega) (by omega), hid]
        have hright : Before (left.headD 0 :: id) [r] := hlt
        exact ⟨_, rfl, Before.cons hbefore, hright, isU16_cons hl' hu16⟩
    | cons s right =>
      obtain ⟨heq, hrest⟩ := before_cons_cons.mp h
      obtain ⟨id, hid, hleft, hright, hu16⟩ := ih hrest hl.tail hr.tail
      rw [pushEntry_of_le (Nat.le_of_eq heq) (by omega), hid]
      exact ⟨_, rfl, Before.cons hleft, before_cons_cons.mpr ⟨heq, hright⟩, isU16_cons hl' hu16⟩

theorem before_mid (h : Before left right) (hl : IsU16 left) (hr : IsU16 right) :
    between left right = some (mid left right) ∧ Before left (mid left right) ∧ Before (mid left right) right ∧
      IsU16 (mid left right) := by
  obtain ⟨id, hid, hleft, hright, hu16⟩ := exists_between h hl hr
  rw [mid, hid, Option.getD_some]
  exact ⟨rfl, hleft, hright, hu16⟩

end FragmentId

end InfiniShell.Editor
