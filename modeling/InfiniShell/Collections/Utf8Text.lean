import Mathlib.Data.List.Induction
import Mathlib.Tactic.Cases
import Mathlib.Algebra.GroupWithZero.Nat

namespace InfiniShell.Collections

def byteLen (chars : List Char) : Nat := (chars.map Char.utf8Size).sum

@[simp] theorem byteLen_nil : byteLen [] = 0 := rfl

@[simp] theorem byteLen_cons (c : Char) (l : List Char) : byteLen (c :: l) = c.utf8Size + byteLen l := rfl

@[simp] theorem byteLen_append (l r : List Char) : byteLen (l ++ r) = byteLen l + byteLen r := by
  rw [byteLen, List.map_append, List.sum_append]
  rfl

theorem length_le_byteLen (l : List Char) : l.length ≤ byteLen l := by
  induction l with
  | nil => exact Nat.le_refl 0
  | cons c l ih =>
    have hpos := c.utf8Size_pos
    rw [List.length_cons, byteLen_cons]
    omega

/-- The first bytes of a text, `none` where they are not the bytes of characters. -/
def takeBytes : List Char → Nat → Option (List Char)
  | _, 0 => some []
  | [], _ + 1 => none
  | c :: l, n + 1 => if c.utf8Size ≤ n + 1 then (takeBytes l (n + 1 - c.utf8Size)).map (c :: ·) else none

def dropBytes : List Char → Nat → Option (List Char)
  | l, 0 => some l
  | [], _ + 1 => none
  | c :: l, n + 1 => if c.utf8Size ≤ n + 1 then dropBytes l (n + 1 - c.utf8Size) else none

theorem takeBytes_append (l r : List Char) : takeBytes (l ++ r) (byteLen l) = some l := by
  induction l with
  | nil => simp [takeBytes]
  | cons c l ih =>
    have hpos := c.utf8Size_pos
    obtain ⟨n, hn⟩ : ∃ n, byteLen (c :: l) = n + 1 := ⟨byteLen (c :: l) - 1, by rw [byteLen_cons]; omega⟩
    have hrest : n + 1 - c.utf8Size = byteLen l := by
      rw [byteLen_cons] at hn
      omega
    have hle : c.utf8Size ≤ n + 1 := by
      rw [byteLen_cons] at hn
      omega
    rw [hn, List.cons_append, takeBytes, if_pos hle, hrest, ih]
    rfl

theorem dropBytes_append (l r : List Char) : dropBytes (l ++ r) (byteLen l) = some r := by
  induction l with
  | nil => simp [dropBytes]
  | cons c l ih =>
    have hpos := c.utf8Size_pos
    obtain ⟨n, hn⟩ : ∃ n, byteLen (c :: l) = n + 1 := ⟨byteLen (c :: l) - 1, by rw [byteLen_cons]; omega⟩
    have hrest : n + 1 - c.utf8Size = byteLen l := by
      rw [byteLen_cons] at hn
      omega
    have hle : c.utf8Size ≤ n + 1 := by
      rw [byteLen_cons] at hn
      omega
    rw [hn, List.cons_append, dropBytes, if_pos hle, hrest, ih]

variable {n : Nat}

theorem takeBytes_byteLen {l t : List Char} (h : takeBytes l n = some t) : byteLen t = n := by
  induction l generalizing n t with
  | nil =>
    cases n with
    | zero => rw [← Option.some.inj h, byteLen_nil]
    | succ n => cases h
  | cons c l ih =>
    cases n with
    | zero => rw [← Option.some.inj h, byteLen_nil]
    | succ n =>
      rw [takeBytes] at h
      split at h
      next hle =>
        obtain ⟨rest, hrest, rfl⟩ := Option.map_eq_some_iff.mp h
        rw [byteLen_cons, ih hrest]
        omega
      next => cases h

theorem prefix_of_byteLen_le {l₁ l₂ r₁ r₂ : List Char} (h : l₁ ++ r₁ = l₂ ++ r₂) (hle : byteLen l₁ ≤ byteLen l₂) :
    ∃ t, l₂ = l₁ ++ t := by
  cases List.append_eq_append_iff.mp h with
  | inl hr =>
    obtain ⟨t, hl, -⟩ := hr
    exact ⟨t, hl⟩
  | inr hl =>
    obtain ⟨t, ht, -⟩ := hl
    have hbytes := congrArg byteLen ht
    rw [byteLen_append] at hbytes
    have hnil : t = [] := by
      have hlen := length_le_byteLen t
      exact List.eq_nil_of_length_eq_zero (by omega)
    exact ⟨[], by rw [ht, hnil, List.append_nil, List.append_nil]⟩

theorem takeBytes_eq_some_iff {l t : List Char} :
    takeBytes l n = some t ↔ byteLen t = n ∧ ∃ r, l = t ++ r := by
  constructor
  · intro h
    refine ⟨takeBytes_byteLen h, ?_⟩
    induction l generalizing n t with
    | nil =>
      cases n with
      | zero => exact ⟨[], by rw [← Option.some.inj h, List.append_nil]⟩
      | succ n => cases h
    | cons c l ih =>
      cases n with
      | zero => exact ⟨c :: l, by rw [← Option.some.inj h, List.nil_append]⟩
      | succ n =>
        rw [takeBytes] at h
        split at h
        next =>
          obtain ⟨rest, hrest, rfl⟩ := Option.map_eq_some_iff.mp h
          obtain ⟨r, hr⟩ := ih hrest
          exact ⟨r, by rw [hr, List.cons_append]⟩
        next => cases h
  · rintro ⟨rfl, r, rfl⟩
    exact takeBytes_append t r

/-- `str::is_char_boundary`. -/
def isCharBoundary (l : List Char) (n : Nat) : Bool := (takeBytes l n).isSome

variable {l : List Char}

theorem isCharBoundary_iff : isCharBoundary l n = true ↔ ∃ t r, l = t ++ r ∧ byteLen t = n := by
  rw [isCharBoundary, Option.isSome_iff_exists]
  constructor
  · rintro ⟨t, ht⟩
    obtain ⟨hlen, r, hl⟩ := takeBytes_eq_some_iff.mp ht
    exact ⟨t, r, hl, hlen⟩
  · rintro ⟨t, r, hl, hlen⟩
    exact ⟨t, takeBytes_eq_some_iff.mpr ⟨hlen, r, hl⟩⟩

def floorCharBoundary (l : List Char) : Nat → Nat
  | 0 => 0
  | n + 1 => if isCharBoundary l (n + 1) then n + 1 else floorCharBoundary l n

def ceilLoop (l : List Char) : Nat → Nat → Nat
  | 0, n => n
  | fuel + 1, n => if isCharBoundary l n then n else ceilLoop l fuel (n + 1)

def ceilCharBoundary (l : List Char) (n : Nat) : Nat := ceilLoop l (byteLen l - n) n

theorem floorCharBoundary_spec (l : List Char) (n : Nat) :
    ∃ t r, l = t ++ r ∧ byteLen t = floorCharBoundary l n ∧ byteLen t ≤ n ∧
      ∀ t' r', l = t' ++ r' → byteLen t' ≤ n → byteLen t' ≤ byteLen t := by
  induction n with
  | zero =>
    refine ⟨[], l, rfl, rfl, Nat.le_refl 0, ?_⟩
    intro t' r' _ hle
    exact hle
  | succ n ih =>
    rw [floorCharBoundary]
    by_cases hboundary : isCharBoundary l (n + 1) = true
    · rw [if_pos hboundary]
      obtain ⟨t, r, hl, hlen⟩ := isCharBoundary_iff.mp hboundary
      exact ⟨t, r, hl, hlen, Nat.le_of_eq hlen, fun t' r' _ hle => hlen ▸ hle⟩
    · rw [if_neg hboundary]
      obtain ⟨t, r, hl, hlen, hle, hmax⟩ := ih
      refine ⟨t, r, hl, hlen, Nat.le_succ_of_le hle, ?_⟩
      intro t' r' hl' hle'
      apply hmax t' r' hl'
      have hne : byteLen t' ≠ n + 1 := fun heq => hboundary (isCharBoundary_iff.mpr ⟨t', r', hl', heq⟩)
      omega

theorem ceilLoop_spec {fuel n : Nat} (hfuel : n + fuel = byteLen l) :
    ∃ t r, l = t ++ r ∧ byteLen t = ceilLoop l fuel n ∧ n ≤ byteLen t ∧
      ∀ t' r', l = t' ++ r' → n ≤ byteLen t' → byteLen t ≤ byteLen t' := by
  induction fuel generalizing n with
  | zero =>
    refine ⟨l, [], (List.append_nil l).symm, hfuel.symm, Nat.le_of_eq hfuel, ?_⟩
    intro t' r' _ hle
    exact hfuel ▸ hle
  | succ fuel ih =>
    rw [ceilLoop]
    by_cases hboundary : isCharBoundary l n = true
    · rw [if_pos hboundary]
      obtain ⟨t, r, hl, hlen⟩ := isCharBoundary_iff.mp hboundary
      exact ⟨t, r, hl, hlen, Nat.le_of_eq hlen.symm, fun t' r' _ hle => hlen ▸ hle⟩
    · rw [if_neg hboundary]
      obtain ⟨t, r, hl, hlen, hle, hmin⟩ := ih (n := n + 1) (by omega)
      refine ⟨t, r, hl, hlen, Nat.le_of_succ_le hle, ?_⟩
      intro t' r' hl' hle'
      apply hmin t' r' hl'
      have hne : byteLen t' ≠ n := fun heq => hboundary (isCharBoundary_iff.mpr ⟨t', r', hl', heq⟩)
      omega

theorem ceilCharBoundary_spec (h : n ≤ byteLen l) :
    ∃ t r, l = t ++ r ∧ byteLen t = ceilCharBoundary l n ∧ n ≤ byteLen t ∧
      ∀ t' r', l = t' ++ r' → n ≤ byteLen t' → byteLen t ≤ byteLen t' :=
  ceilLoop_spec (Nat.add_sub_cancel' h)

variable {l t r : List Char}

theorem lt_longest_add_four (hl : l = t ++ r) (hn : n ≤ byteLen l)
    (hmax : ∀ t' r', l = t' ++ r' → byteLen t' ≤ n → byteLen t' ≤ byteLen t) : n < byteLen t + 4 := by
  cases r with
  | nil =>
    rw [hl, List.append_nil] at hn
    omega
  | cons c r =>
    have hsize := c.utf8Size_le_four
    have hpos := c.utf8Size_pos
    have hlonger := hmax (t ++ [c]) r (by rw [hl, List.append_assoc, List.singleton_append])
    rw [byteLen_append, byteLen_cons, byteLen_nil] at hlonger
    by_cases hle : byteLen t + (c.utf8Size + 0) ≤ n
    · exact absurd (hlonger hle) (by omega)
    · omega

theorem shortest_lt_add_four (hl : l = t ++ r) (hn : n ≤ byteLen t)
    (hmin : ∀ t' r', l = t' ++ r' → n ≤ byteLen t' → byteLen t ≤ byteLen t') : byteLen t < n + 4 := by
  cases t using List.reverseRecOn with
  | nil =>
    rw [byteLen_nil]
    omega
  | append_singleton t c =>
    have hsize := c.utf8Size_le_four
    have hpos := c.utf8Size_pos
    have hshorter := hmin t (c :: r) (by rw [hl, List.append_assoc, List.singleton_append])
    rw [byteLen_append, byteLen_cons, byteLen_nil] at hshorter ⊢
    by_cases hle : n ≤ byteLen t
    · exact absurd (hshorter hle) (by omega)
    · omega

end InfiniShell.Collections
