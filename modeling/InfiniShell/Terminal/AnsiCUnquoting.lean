import InfiniShell.Terminal.AnsiCDecoder
import Mathlib.Data.List.TakeWhile
import Mathlib.Algebra.Group.Nat.Defs

namespace InfiniShell.Terminal.AnsiC

open Collections

variable {c : Char} {cs rest : List Char}

theorem digitOr_lt {radix : Nat} (h : digitOr radix c < radix) : 48 ≤ c.toNat ∧ c.toNat < 128 ∧ c.toNat ≠ 92 := by
  unfold digitOr at h
  by_cases hdigit : 48 ≤ c.toNat ∧ c.toNat ≤ 57
  · omega
  by_cases hupper : 65 ≤ c.toNat ∧ c.toNat ≤ 90
  · omega
  by_cases hlower : 97 ≤ c.toNat ∧ c.toNat ≤ 122
  · omega
  · rw [if_neg hdigit, if_neg hupper, if_neg hlower] at h
    omega

theorem toDigit_bounds {radix d : Nat} (h : toDigit radix c = some d) :
    d < radix ∧ c.toNat < 128 ∧ c ≠ '\\' ∧ 48 ≤ c.toNat := by
  unfold toDigit at h
  by_cases hlt : digitOr radix c < radix
  · rw [if_pos hlt, Option.some.injEq] at h
    obtain ⟨hle, hascii, hbackslash⟩ := digitOr_lt hlt
    refine ⟨h ▸ hlt, hascii, ?_, hle⟩
    rintro rfl
    exact hbackslash rfl
  · rw [if_neg hlt] at h
    cases h

theorem toDigit_plus (radix : Nat) : toDigit radix '+' = none := by
  cases hd : toDigit radix '+' with
  | none => rfl
  | some d => exact absurd (toDigit_bounds hd).2.2.2 (by decide)

theorem utf8Size_of_lt (h : c.toNat < 128) : c.utf8Size = 1 := by
  rw [Char.utf8Size_eq_one_iff, UInt32.le_iff_toNat_le]
  exact Nat.le_of_lt_succ h

theorem mem_digits {radix width : Nat} {text : List Char} (h : c ∈ digits radix width text) :
    ∃ d, toDigit radix c = some d := by
  have hdigit := @List.mem_takeWhile_imp _ (fun c => (toDigit radix c).isSome) _ _ h
  exact Option.isSome_iff_exists.mp hdigit

theorem digits_append_drop (radix width : Nat) (text : List Char) :
    digits radix width text ++ text.drop (digits radix width text).length = text :=
  List.prefix_iff_eq_append.mp ((List.takeWhile_prefix _).trans (List.take_prefix _ _))

theorem backslash_notMem_digits (radix width : Nat) (text : List Char) : '\\' ∉ digits radix width text := by
  intro h
  obtain ⟨d, hd⟩ := mem_digits h
  exact (toDigit_bounds hd).2.2.1 rfl

theorem byteLen_digits (radix width : Nat) (text : List Char) :
    byteLen (digits radix width text) = (digits radix width text).length := by
  have hone : ∀ c ∈ digits radix width text, c.utf8Size = 1 := by
    intro c hc
    obtain ⟨d, hd⟩ := mem_digits hc
    exact utf8Size_of_lt (toDigit_bounds hd).2.1
  rw [byteLen, List.map_congr_left hone, List.map_const', List.sum_replicate_nat, Nat.mul_one]

theorem digitsValue_of_digits {radix : Nat} (ds : List Char) (h : ∀ c ∈ ds, ∃ d, toDigit radix c = some d) (n : Nat) :
    ∃ v, digitsValue radix n ds = some v ∧ v < (n + 1) * radix ^ ds.length := by
  induction ds generalizing n with
  | nil => exact ⟨n, rfl, by simp⟩
  | cons c ds ih =>
    obtain ⟨d, hd⟩ := h c List.mem_cons_self
    obtain ⟨v, hv, hlt⟩ := ih (fun c hc => h c (List.mem_cons_of_mem _ hc)) (n * radix + d)
    refine ⟨v, ?_, ?_⟩
    · rw [digitsValue, hd]
      exact hv
    · have hdigit := (toDigit_bounds hd).1
      have hstep : n * radix + d + 1 ≤ (n + 1) * radix := by
        rw [Nat.add_one_mul]
        omega
      calc v < (n * radix + d + 1) * radix ^ ds.length := hlt
        _ ≤ ((n + 1) * radix) * radix ^ ds.length := Nat.mul_le_mul_right _ hstep
        _ = (n + 1) * radix ^ (ds.length + 1) := by rw [Nat.pow_succ', Nat.mul_assoc]

theorem numeral_spec {radix : Nat} {ds : List Char} (hne : ds ≠ []) (h : ∀ c ∈ ds, ∃ d, toDigit radix c = some d) :
    ∃ n, numeral radix ds = some n ∧ n < radix ^ ds.length ∧
      ∀ maximum, n ≤ maximum → fromStrRadix radix maximum ds = some n := by
  obtain ⟨n, hn, hlt⟩ := digitsValue_of_digits ds h 0
  refine ⟨n, by rw [numeral, if_neg hne, hn], by simpa using hlt, ?_⟩
  intro maximum hle
  obtain ⟨c, cs, rfl⟩ := List.exists_cons_of_ne_nil hne
  obtain ⟨d, hd⟩ := h c List.mem_cons_self
  have hplus : c ≠ '+' := by
    rintro rfl
    rw [toDigit_plus] at hd
    cases hd
  unfold fromStrRadix
  split
  next heq => cases heq
  next heq => exact absurd (List.cons.inj heq).1 hplus
  next heq => exact absurd (List.cons.inj heq).1 hplus
  next => rw [hn, Option.filter_some, if_pos (by simpa using hle)]

theorem charFromU32_of_lt {n : Nat} (h : n < 256) : charFromU32 n = some (Char.ofNat n) :=
  if_pos (Or.inl (by omega))

/-! The condition. -/

def WholeHex (width : Nat) (read : Nat → Option Reading) (rest : List Char) : Prop :=
  (digits 16 width rest).length = width ∨
    ((manualHex width read rest).1 = .malformed ∧ takeBytes rest width = none)

def WholeOctal (next : Char) (rest : List Char) : Prop :=
  match numeral 8 (digits 8 3 (next :: rest)) with
  | some n => (digits 8 3 (next :: rest)).length = 3 ∧ n < 256
  | none => rest = []

def WholeControl : List Char → Prop
  | [] => True
  | c :: _ => c.isLower = false ∧ c ≠ '?'

/-- The escape behind this backslash is as wide as the window it is read through. -/
def WholeEscape : List Char → Prop
  | [] => True
  | next :: rest =>
    if (next :: rest).take 3 = ['0', '0', '1'] ∨ (next :: rest).take 3 = ['0', '0', '2'] then True
    else
      match letterEscape next with
      | some _ => True
      | none =>
        if next = 'x' then WholeHex 2 readByte rest
        else if next = 'u' then WholeHex 4 readUnicode rest
        else if next = 'U' then WholeHex 8 readUnicode rest
        else if next = 'c' then WholeControl rest
        else WholeOctal next rest

def Whole : List Char → Prop
  | [] => True
  | c :: cs => c = '\\' → WholeEscape cs

/-- Every escape is whole, and no bytes encode a character beyond ASCII. -/
structure InStep (body : List Char) : Prop where
  whole : ∀ p ∈ pieces body.length body, Whole p.2
  bytes : ∀ before c after, readings body = before ++ encoded c ++ after → c.utf8Size = 1

/-- What the decoder may push for a piece. -/
def Reading.Gives : Reading → List Char → Prop
  | .text c, pushed => pushed = [c]
  | .byte n, pushed => pushed = [Char.ofNat n]
  | .hidden, pushed => pushed = []
  | .malformed, _ => True

/-- A step that reads a piece; `lag` is left of a malformed one. -/
def Follows (s : Option Step) (p : Reading × List Char) : Prop :=
  ∃ pushed lag, s = some (pushed, lag ++ p.2) ∧ '\\' ∉ lag ∧ p.1.Gives (pushed ++ lag)

theorem Follows.of_gives {pushed : List Char} {r : Reading} (h : r.Gives pushed) :
    Follows (some (pushed, rest)) (r, rest) :=
  ⟨pushed, [], rfl, List.not_mem_nil, by rwa [List.append_nil]⟩

/-- What the decoder and the manual do with the value of hexadecimal digits. -/
structure HexRead (width maximum : Nat) (read : Nat → Option Reading) : Prop where
  two_le : 2 ≤ width
  fits : 16 ^ width ≤ maximum + 1
  gives : ∀ n < 16 ^ width, ((read n).getD .malformed).Gives (charFromU32 n).toList
  small : ∀ n < 16, ∀ pushed, ((read n).getD .malformed).Gives pushed → pushed = [Char.ofNat n]
  single : ∀ n r pushed, read n = some r → r.Gives pushed → pushed.length = 1

theorem follows_hex {width maximum : Nat} {read : Nat → Option Reading} (hread : HexRead width maximum read)
    (h : WholeHex width read rest) : Follows (some (hexEscape width maximum rest)) (manualHex width read rest) := by
  have happend := digits_append_drop 16 width rest
  cases h with
  | inl hlen =>
    have hne : digits 16 width rest ≠ [] := by
      intro hnil
      rw [hnil] at hlen
      exact absurd hlen (Nat.ne_of_lt (Nat.lt_of_succ_lt hread.two_le))
    obtain ⟨n, hn, hlt, hradix⟩ := numeral_spec hne fun c hc => mem_digits hc
    rw [hlen] at hlt
    have htake : takeBytes rest width = some (digits 16 width rest) := by
      have htake := takeBytes_append (digits 16 width rest) (rest.drop (digits 16 width rest).length)
      rwa [happend, byteLen_digits, hlen] at htake
    have hstep : hexEscape width maximum rest = ((charFromU32 n).toList, rest.drop width) := by
      unfold hexEscape
      rw [htake]
      simp only
      have hfits := hread.fits
      rw [hradix maximum (by omega), Option.bind_some]
    have hmanual : manualHex width read rest = ((read n).getD .malformed, rest.drop width) := by
      unfold manualHex
      rw [hn, hlen, Option.bind_some]
    rw [hstep, hmanual]
    exact Follows.of_gives (hread.gives n hlt)
  | inr hmalformed =>
    have hstep : hexEscape width maximum rest = ([], rest) := by
      unfold hexEscape
      rw [hmalformed.2]
    refine ⟨[], digits 16 width rest, ?_, backslash_notMem_digits _ _ _, ?_⟩
    · rw [hstep]
      exact congrArg (fun r => some ([], r)) happend.symm
    · rw [hmalformed.1]
      trivial

theorem hexRead_byte : HexRead 2 0xFF readByte where
  two_le := Nat.le_refl 2
  fits := by decide
  gives := by
    intro n hn
    rw [charFromU32_of_lt hn]
    rfl
  small := fun _ _ _ h => h
  single := by
    rintro n r pushed hr h
    cases hr
    rw [show pushed = [Char.ofNat n] from h]
    rfl

theorem hexRead_unicode {width : Nat} (htwo : 2 ≤ width) (hfits : 16 ^ width ≤ 0xFFFFFFFF + 1) :
    HexRead width 0xFFFFFFFF readUnicode where
  two_le := htwo
  fits := hfits
  gives := by
    intro n _
    unfold readUnicode
    cases charFromU32 n with
    | none => trivial
    | some c => rfl
  small := by
    intro n hn pushed h
    rw [readUnicode, charFromU32_of_lt (by omega)] at h
    exact h
  single := by
    intro n r pushed hr h
    obtain ⟨c, -, rfl⟩ := Option.map_eq_some_iff.mp hr
    rw [show pushed = [c] from h]
    rfl

theorem follows_octal {next : Char} (h : WholeOctal next rest) :
    Follows (some (octalEscape next rest)) (manualOctal next rest) := by
  unfold WholeOctal at h
  have happend := digits_append_drop 8 3 (next :: rest)
  split at h
  next n hn =>
    have hne : digits 8 3 (next :: rest) ≠ [] := by
      intro hnil
      rw [hnil] at h
      exact absurd h.1 (by decide)
    obtain ⟨m, hm, -, hradix⟩ := numeral_spec hne fun c hc => mem_digits hc
    obtain rfl : m = n := Option.some.inj (hm.symm.trans hn)
    have htake : takeBytes (next :: rest) 3 = some (digits 8 3 (next :: rest)) := by
      have htake := takeBytes_append (digits 8 3 (next :: rest))
        ((next :: rest).drop (digits 8 3 (next :: rest)).length)
      rwa [happend, byteLen_digits, h.1] at htake
    have hstep : octalEscape next rest = ([Char.ofNat m], rest.drop 2) := by
      unfold octalEscape
      rw [htake]
      simp only
      rw [hradix 0xFFFFFFFF (by omega), Option.bind_some, charFromU32_of_lt h.2]
      rfl
    have hmanual : manualOctal next rest = (.byte m, rest.drop 2) := by
      unfold manualOctal
      rw [hn]
      simp only
      rw [h.1, Nat.mod_eq_of_lt h.2]
      rfl
    rw [hstep, hmanual]
    exact Follows.of_gives rfl
  next hn =>
    subst h
    have hmanual : manualOctal next [] = (.malformed, []) := by
      unfold manualOctal
      rw [hn]
    obtain ⟨pushed, hstep⟩ : ∃ pushed, octalEscape next [] = (pushed, []) := by
      unfold octalEscape
      split
      next => exact ⟨_, rfl⟩
      next => exact ⟨_, rfl⟩
    rw [hstep, hmanual]
    exact Follows.of_gives trivial

theorem follows_control (h : WholeControl rest) : Follows (controlEscape rest) (manualControl rest) := by
  cases rest with
  | nil => exact Follows.of_gives trivial
  | cons c rest =>
    have hlower : c.isLower = false := h.1
    by_cases hrange : 0x40 ≤ c.toNat ∧ c.toNat ≤ 0x5f
    · have hstep : controlEscape (c :: rest) = some ([Char.ofNat (c.toNat - 64)], rest) := by
        rw [controlEscape, if_pos (Or.inl hrange), Nat.mod_eq_of_lt (by omega), checkedSub, if_pos hrange.1]
        rfl
      have hmanual : manualControl (c :: rest) = (.text (Char.ofNat (c.toNat - 64)), rest) := by
        rw [manualControl, controlOf, if_pos hrange]
        rfl
      rw [hstep, hmanual]
      exact Follows.of_gives rfl
    · have hmanual : manualControl (c :: rest) = (.malformed, rest) := by
        rw [manualControl, controlOf, if_neg hrange, if_neg (by rw [hlower]; decide), if_neg h.2]
        rfl
      obtain ⟨pushed, hstep⟩ : ∃ pushed, controlEscape (c :: rest) = some (pushed, rest) := by
        rw [controlEscape]
        by_cases hdelete : c.toNat = 0x7f
        · refine ⟨[Char.ofNat 63], ?_⟩
          rw [hdelete]
          rfl
        · exact ⟨[], if_neg (not_or.mpr ⟨hrange, hdelete⟩)⟩
      rw [hstep, hmanual]
      exact Follows.of_gives trivial

theorem takeBytes_four_iff {a b d : Char} (ha : a.utf8Size = 1) (hb : b.utf8Size = 1) (hd : d.utf8Size = 1) :
    takeBytes ('\\' :: cs) 4 = some ['\\', a, b, d] ↔ cs.take 3 = [a, b, d] := by
  rw [takeBytes_eq_some_iff]
  constructor
  · rintro ⟨-, r, hr⟩
    rw [(List.cons.inj hr).2]
    rfl
  · intro htake
    refine ⟨by simp [ha, hb, hd]; rfl, cs.drop 3, ?_⟩
    rw [List.cons_append, ← htake, List.take_append_drop]

theorem marksHidden_iff :
    marksHidden ('\\' :: cs) = true ↔ cs.take 3 = ['0', '0', '1'] ∨ cs.take 3 = ['0', '0', '2'] := by
  rw [marksHidden, Bool.or_eq_true, decide_eq_true_eq, decide_eq_true_eq, takeBytes_four_iff rfl rfl rfl,
    takeBytes_four_iff rfl rfl rfl]

/-- The kinds of escapes, as the decoder, the manual and the condition tell them apart. -/
theorem escape_cases (P : Option Step → Reading × List Char → Prop → Prop) (cs : List Char)
    (plain : ∀ pushed r rest, rest.length ≤ cs.length → r.Gives pushed → P (some (pushed, rest)) (r, rest) True)
    (hex : ∀ width maximum read rest, rest.length < cs.length → HexRead width maximum read →
      P (some (hexEscape width maximum rest)) (manualHex width read rest) (WholeHex width read rest))
    (control : ∀ rest, rest.length < cs.length → P (controlEscape rest) (manualControl rest) (WholeControl rest))
    (octal : ∀ next rest, rest.length < cs.length →
      P (some (octalEscape next rest)) (manualOctal next rest) (WholeOctal next rest)) :
    P (step '\\' cs) (manualStep '\\' cs) (WholeEscape cs) := by
  rw [step, if_neg (not_not.mpr rfl), manualStep, if_neg (not_not.mpr rfl),
    ite_congr (propext marksHidden_iff) (fun _ => rfl) (fun _ => rfl)]
  cases cs with
  | nil =>
    rw [if_neg (by simp)]
    exact plain [] .malformed [] (Nat.le_refl _) trivial
  | cons next rest =>
    have hlt : rest.length < (next :: rest).length := Nat.lt_succ_self _
    rw [WholeEscape, manualEscape]
    by_cases hhidden : (next :: rest).take 3 = ['0', '0', '1'] ∨ (next :: rest).take 3 = ['0', '0', '2']
    · rw [if_pos hhidden, if_pos hhidden, if_pos hhidden]
      exact plain [] .hidden (rest.drop 2) (by simp only [List.length_drop, List.length_cons]; omega) rfl
    rw [if_neg hhidden, if_neg hhidden, if_neg hhidden, readEscape]
    cases hletter : letterEscape next with
    | some c => exact plain [c] (.text c) rest (Nat.le_of_lt hlt) rfl
    | none =>
      simp only
      by_cases hx : next = 'x'
      · rw [if_pos hx, if_pos hx, if_pos hx]
        exact hex 2 0xFF readByte rest hlt hexRead_byte
      rw [if_neg hx, if_neg hx, if_neg hx]
      by_cases hu : next = 'u'
      · rw [if_pos hu, if_pos hu, if_pos hu]
        exact hex 4 0xFFFFFFFF readUnicode rest hlt (hexRead_unicode (by decide) (by decide))
      rw [if_neg hu, if_neg hu, if_neg hu]
      by_cases hU : next = 'U'
      · rw [if_pos hU, if_pos hU, if_pos hU]
        exact hex 8 0xFFFFFFFF readUnicode rest hlt (hexRead_unicode (by decide) (by decide))
      rw [if_neg hU, if_neg hU, if_neg hU]
      by_cases hcontrol : next = 'c'
      · rw [if_pos hcontrol, if_pos hcontrol, if_pos hcontrol]
        exact control rest hlt
      · rw [if_neg hcontrol, if_neg hcontrol, if_neg hcontrol]
        exact octal next rest hlt

theorem follows_step (h : Whole (c :: cs)) : Follows (step c cs) (manualStep c cs) := by
  by_cases hc : c = '\\'
  · subst hc
    apply escape_cases (fun s p whole => whole → Follows s p)
    · exact fun _ _ _ _ hgives _ => Follows.of_gives hgives
    · exact fun _ _ _ _ _ hread => follows_hex hread
    · exact fun _ _ => follows_control
    · exact fun _ _ _ => follows_octal
    · exact h rfl
  · rw [step, if_pos hc, manualStep, if_pos hc]
    exact Follows.of_gives rfl

theorem hexEscape_length (width maximum : Nat) (rest : List Char) :
    (hexEscape width maximum rest).2.length ≤ rest.length := by
  unfold hexEscape
  split
  next => exact Nat.le_refl _
  next => simp

theorem octalEscape_length (next : Char) (rest : List Char) : (octalEscape next rest).2.length ≤ rest.length := by
  unfold octalEscape
  split
  next => simp
  next => simp

theorem controlEscape_length {s : Step} (h : controlEscape rest = some s) : s.2.length ≤ rest.length := by
  cases rest with
  | nil =>
    cases h
    exact Nat.le_refl _
  | cons c rest =>
    rw [controlEscape] at h
    split at h
    next =>
      obtain ⟨n, -, rfl⟩ := Option.map_eq_some_iff.mp h
      exact Nat.le_succ _
    next =>
      cases h
      exact Nat.le_succ _

theorem step_length {s : Step} (h : step c cs = some s) : s.2.length ≤ cs.length := by
  by_cases hc : c = '\\'
  · subst hc
    revert h
    apply escape_cases (fun t _ _ => t = some s → s.2.length ≤ cs.length)
    · rintro pushed r rest hle - h
      cases h
      exact hle
    · rintro width maximum read rest hlt - h
      cases h
      exact Nat.le_trans (hexEscape_length _ _ _) (Nat.le_of_lt hlt)
    · intro rest hlt h
      exact Nat.le_trans (controlEscape_length h) (Nat.le_of_lt hlt)
    · intro next rest hlt h
      cases h
      exact Nat.le_trans (octalEscape_length _ _) (Nat.le_of_lt hlt)
  · rw [step, if_pos hc] at h
    cases h
    exact Nat.le_refl _

theorem manualStep_length (c : Char) (cs : List Char) : (manualStep c cs).2.length ≤ cs.length := by
  by_cases hc : c = '\\'
  · subst hc
    apply escape_cases (fun _ p _ => p.2.length ≤ cs.length)
    · exact fun _ _ _ hle _ => hle
    · intro width _ read rest hlt _
      rw [manualHex, List.length_drop]
      omega
    · intro rest hlt
      cases rest with
      | nil => exact Nat.zero_le _
      | cons c rest =>
        rw [List.length_cons] at hlt
        exact Nat.le_of_succ_le (Nat.le_of_lt hlt)
    · intro next rest hlt
      rw [manualOctal]
      split
      next n hn =>
        have hpos : 0 < (digits 8 3 (next :: rest)).length := by
          apply List.length_pos_iff.mpr
          intro hnil
          rw [hnil] at hn
          cases hn
        rw [List.length_drop, List.length_cons]
        omega
      next => exact Nat.le_of_lt hlt
  · rw [manualStep, if_pos hc]

theorem unescape_fuel {f g : Nat} {text : List Char} (hf : text.length ≤ f) (hg : text.length ≤ g) :
    unescape f text = unescape g text := by
  induction f generalizing g text with
  | zero =>
    rw [List.eq_nil_of_length_eq_zero (Nat.le_zero.mp hf), unescape, unescape]
  | succ f ih =>
    cases text with
    | nil => rw [unescape, unescape]
    | cons c cs =>
      rw [List.length_cons] at hf hg
      obtain ⟨g, rfl⟩ : ∃ g', g = g' + 1 := ⟨g - 1, by omega⟩
      rw [unescape, unescape]
      cases hstep : step c cs with
      | none => rfl
      | some s =>
        have hlen := step_length hstep
        change (unescape f s.2).bind _ = (unescape g s.2).bind _
        rw [@ih g s.2 (by omega) (by omega)]

theorem pieces_fuel {f g : Nat} {text : List Char} (hf : text.length ≤ f) (hg : text.length ≤ g) :
    pieces f text = pieces g text := by
  induction f generalizing g text with
  | zero =>
    rw [List.eq_nil_of_length_eq_zero (Nat.le_zero.mp hf), pieces, pieces]
  | succ f ih =>
    cases text with
    | nil => rw [pieces, pieces]
    | cons c cs =>
      rw [List.length_cons] at hf hg
      obtain ⟨g, rfl⟩ : ∃ g', g = g' + 1 := ⟨g - 1, by omega⟩
      have hlen := manualStep_length c cs
      rw [pieces, pieces, @ih g _ (by omega) (by omega)]

theorem unescape_append {fuel : Nat} {text rest : List Char} (htext : '\\' ∉ text)
    (hfuel : (text ++ rest).length ≤ fuel) : unescape fuel (text ++ rest) = (unescape fuel rest).map (text ++ ·) := by
  induction text generalizing fuel with
  | nil =>
    rw [List.nil_append]
    exact Option.map_id'.symm
  | cons c text ih =>
    rw [List.mem_cons, not_or] at htext
    rw [List.cons_append, List.length_cons] at hfuel
    obtain ⟨fuel, rfl⟩ : ∃ f, fuel = f + 1 := ⟨fuel - 1, by omega⟩
    have hrest : rest.length ≤ fuel := by
      rw [List.length_append] at hfuel
      omega
    rw [List.cons_append, unescape, step, if_pos (Ne.symm htext.1)]
    change (unescape fuel (text ++ rest)).bind _ = _
    rw [ih htext.2 (by omega), @unescape_fuel fuel (fuel + 1) rest hrest (by omega)]
    cases unescape (fuel + 1) rest with
    | none => rfl
    | some out => rfl

theorem unescape_of_whole {fuel : Nat} {text : List Char} (hfuel : text.length ≤ fuel)
    (h : ∀ p ∈ pieces fuel text, Whole p.2) :
    ∃ pushed, unescape fuel text = some pushed.flatten ∧
      List.Forall₂ Reading.Gives ((pieces fuel text).map Prod.fst) pushed := by
  induction fuel generalizing text with
  | zero =>
    rw [List.eq_nil_of_length_eq_zero (Nat.le_zero.mp hfuel)]
    exact ⟨[], rfl, .nil⟩
  | succ fuel ih =>
    cases text with
    | nil => exact ⟨[], rfl, .nil⟩
    | cons c cs =>
      rw [List.length_cons] at hfuel
      rw [pieces] at h ⊢
      obtain ⟨pushed, lag, hstep, hlag, hgives⟩ := follows_step (h _ List.mem_cons_self)
      have hlen := step_length hstep
      have hmanual := manualStep_length c cs
      obtain ⟨outs, hrest, hall⟩ := @ih (manualStep c cs).2 (by omega) fun p hp => h p (List.mem_cons_of_mem _ hp)
      refine ⟨(pushed ++ lag) :: outs, ?_, .cons hgives hall⟩
      rw [unescape, hstep]
      change (unescape fuel (lag ++ (manualStep c cs).2)).bind _ = _
      rw [unescape_append hlag (Nat.le_trans hlen (by omega)), hrest]
      simp

/-! What the pieces spell. -/

theorem encoded_of_ascii (h : c.utf8Size = 1) : encoded c = [.byte c.toNat] ∧ c.toNat < 128 := by
  have hle : c.toNat ≤ 127 := UInt32.le_iff_toNat_le.mp (Char.utf8Size_eq_one_iff.mp h)
  refine ⟨?_, Nat.lt_succ_of_le hle⟩
  have hbyte : c.val.toUInt8.toNat = c.toNat := by
    rw [UInt32.toNat_toUInt8]
    exact Nat.mod_eq_of_lt (Nat.lt_of_le_of_lt hle (by decide))
  rw [encoded, String.utf8EncodeChar_eq_singleton h, List.map_singleton, hbyte]

theorem toNat_ofNat_of_lt {n : Nat} (h : n < 512) : (Char.ofNat n).toNat = n := by
  have hvalid : n.isValidChar := Or.inl (by omega)
  rw [Char.ofNat, dif_pos hvalid]
  rfl

theorem length_encoded (c : Char) : (encoded c).length = c.utf8Size := by
  rw [encoded, List.length_map, String.length_utf8EncodeChar]

theorem exists_encoded (c : Char) : ∃ n tail, encoded c = .byte n :: tail := by
  have hlen := length_encoded c
  have hpos := c.utf8Size_pos
  unfold encoded at hlen ⊢
  cases hbytes : String.utf8EncodeChar c with
  | nil =>
    rw [hbytes] at hlen
    exact absurd hlen.symm (Nat.ne_of_gt hpos)
  | cons b bs => exact ⟨b.toNat, _, rfl⟩

theorem spells_of_gives {rs : List Reading} {outs : List (List Char)} (h : List.Forall₂ Reading.Gives rs outs)
    (hbytes : ∀ before c after, rs = before ++ encoded c ++ after → c.utf8Size = 1) : Spells rs outs.flatten := by
  induction h with
  | nil => exact .nil
  | @cons r out rs outs hgives _ ih =>
    have hrest := ih fun before c after heq => hbytes (r :: before) c after (by rw [heq]; rfl)
    rw [List.flatten_cons]
    cases r with
    | text c =>
      rw [show out = [c] from hgives]
      exact .text c hrest
    | hidden =>
      rw [show out = [] from hgives]
      exact .hidden hrest
    | malformed => exact .malformed out hrest
    | byte n =>
      rw [show out = [Char.ofNat n] from hgives]
      by_cases hascii : n < 128
      · have htoNat := toNat_ofNat_of_lt (Nat.lt_trans hascii (by decide : 128 < 512))
        have hencoded := (encoded_of_ascii (utf8Size_of_lt (by rw [htoNat]; exact hascii))).1
        rw [htoNat] at hencoded
        exact .encoded (Char.ofNat n) (by rw [hencoded]; rfl) hrest
      · apply Spells.stray n _ hrest
        intro c rest heq
        obtain ⟨hencoded, hlt⟩ := encoded_of_ascii (hbytes [] c rest heq)
        rw [hencoded] at heq
        injection heq with hbyte _
        injection hbyte with hn
        omega

theorem parse_quoted (body : List Char) :
    parseAnsiCQuotedString ('$' :: quote :: body ++ [quote]) = unescape body.length body := by
  have hvisible : ¬('$' :: quote :: body ++ [quote]).all Ssh.isWhitespace = true := Bool.false_ne_true
  have hlast : (body ++ [quote]).getLast? = some quote := List.getLast?_concat
  unfold parseAnsiCQuotedString
  rw [if_neg hvisible]
  simp only [List.cons_append]
  rw [if_pos ⟨trivial, trivial, hlast⟩, List.dropLast_concat]

theorem InStep.unquotes {body : List Char} (h : InStep body) : Unquotes body := by
  obtain ⟨outs, hout, hgives⟩ := unescape_of_whole (Nat.le_refl _) h.whole
  refine ⟨outs.flatten, ?_, spells_of_gives hgives h.bytes⟩
  rw [parse_quoted, hout]

/-! A body with one escape. -/

theorem readings_cons (c : Char) (cs : List Char) :
    readings (c :: cs) = (manualStep c cs).1 :: readings (manualStep c cs).2 := by
  rw [readings, List.length_cons, pieces, List.map_cons, pieces_fuel (manualStep_length c cs) (Nat.le_refl _)]
  rfl

theorem readings_append {text rest : List Char} (htext : '\\' ∉ text) :
    readings (text ++ rest) = text.map .text ++ readings rest := by
  induction text with
  | nil => rfl
  | cons c text ih =>
    rw [List.mem_cons, not_or] at htext
    rw [List.cons_append, readings_cons, manualStep, if_pos (Ne.symm htext.1), ih htext.2]
    rfl

theorem readings_plain {text : List Char} (htext : '\\' ∉ text) : readings text = text.map .text := by
  have h := @readings_append text [] htext
  rw [List.append_nil] at h
  rw [h]
  exact List.append_nil _

theorem spells_text {text out : List Char} (h : Spells (text.map .text) out) : out = text := by
  induction text generalizing out with
  | nil =>
    generalize hnil : ([] : List Char).map Reading.text = rs at h
    cases h with
    | nil => rfl
    | encoded c heq _ =>
      obtain ⟨n, tail, hencoded⟩ := exists_encoded c
      rw [hencoded, ← hnil] at heq
      cases heq
    | text | hidden | malformed | stray => cases hnil
  | cons c text ih =>
    rw [List.map_cons] at h
    cases h with
    | text _ h => rw [ih h]
    | encoded c' heq _ =>
      obtain ⟨n, tail, hencoded⟩ := exists_encoded c'
      rw [hencoded] at heq
      cases heq

theorem spells_text_append {text out : List Char} {rs : List Reading} (h : Spells (text.map .text ++ rs) out) :
    ∃ rest, out = text ++ rest ∧ Spells rs rest := by
  induction text generalizing out with
  | nil => exact ⟨out, rfl, h⟩
  | cons c text ih =>
    rw [List.map_cons, List.cons_append] at h
    cases h with
    | text _ h =>
      obtain ⟨rest, rfl, hrest⟩ := ih h
      exact ⟨rest, rfl, hrest⟩
    | encoded c' heq _ =>
      obtain ⟨n, tail, hencoded⟩ := exists_encoded c'
      rw [hencoded] at heq
      cases heq

theorem spells_one {r : Reading} {text out : List Char} (h : Spells (r :: text.map .text) out) :
    ∃ mid, r.Gives mid ∧ out = mid ++ text := by
  cases h with
  | text c h => exact ⟨[c], rfl, by rw [spells_text h]; rfl⟩
  | hidden h => exact ⟨[], rfl, spells_text h⟩
  | malformed lost h => exact ⟨lost, trivial, by rw [spells_text h]⟩
  | stray n _ h => exact ⟨[Char.ofNat n], rfl, by rw [spells_text h]; rfl⟩
  | encoded c heq h =>
    obtain ⟨n, tail, hencoded⟩ := exists_encoded c
    have htail : tail = [] := by
      rw [hencoded] at heq
      cases tail with
      | nil => rfl
      | cons r' tail =>
        have hbyte : r' ∈ encoded c := by
          rw [hencoded]
          exact List.mem_cons_of_mem _ List.mem_cons_self
        have htext : r' ∈ text.map Reading.text := by
          rw [(List.cons.inj heq).2]
          exact List.mem_cons_self
        obtain ⟨b, -, rfl⟩ := List.mem_map.mp hbyte
        obtain ⟨d, -, hd⟩ := List.mem_map.mp htext
        cases hd
    have hsize : c.utf8Size = 1 := by
      rw [← length_encoded, hencoded, htail]
      rfl
    obtain ⟨hbyte, hlt⟩ := encoded_of_ascii hsize
    rw [hbyte] at heq
    obtain ⟨hr, htext⟩ := List.cons.inj heq
    change text.map Reading.text = _ at htext
    subst htext
    refine ⟨[c], ?_, by rw [spells_text h]; rfl⟩
    rw [hr]
    change [c] = [Char.ofNat c.toNat]
    rw [Char.ofNat_toNat]

/-- A step after which the text is not the piece's followed by what stands behind it. -/
def Departs (s : Option Step) (p : Reading × List Char) : Prop :=
  ∃ pushed left, s = some (pushed, left) ∧ ('\\' ∉ p.2 → '\\' ∉ left) ∧
    ∀ mid, p.1.Gives mid → pushed ++ left ≠ mid ++ p.2

theorem byteLen_of_digits {radix : Nat} {ds : List Char} (h : ∀ c ∈ ds, ∃ d, toDigit radix c = some d) :
    byteLen ds = ds.length := by
  induction ds with
  | nil => rfl
  | cons c ds ih =>
    obtain ⟨d, hd⟩ := h c List.mem_cons_self
    rw [byteLen_cons, utf8Size_of_lt (toDigit_bounds hd).2.1, ih fun c hc => h c (List.mem_cons_of_mem _ hc),
      List.length_cons, Nat.add_comm]

theorem digits_of_digitsValue {radix n v : Nat} {ds : List Char} (h : digitsValue radix n ds = some v) :
    ∀ c ∈ ds, ∃ d, toDigit radix c = some d := by
  induction ds generalizing n with
  | nil => exact fun _ hc => absurd hc List.not_mem_nil
  | cons c ds ih =>
    obtain ⟨d, hd, hrest⟩ := Option.bind_eq_some_iff.mp h
    intro c' hc'
    cases List.mem_cons.mp hc' with
    | inl heq => exact ⟨d, heq ▸ hd⟩
    | inr hmem => exact ih hrest c' hmem

theorem window_of_fromStrRadix {radix maximum n : Nat} {window : List Char}
    (h : fromStrRadix radix maximum window = some n) :
    byteLen window = window.length ∧
      ((∀ c ∈ window, ∃ d, toDigit radix c = some d) ∨ window.head? = some '+') := by
  unfold fromStrRadix at h
  split at h
  next => cases h
  next => cases h
  next ds _ =>
    obtain ⟨hv, -⟩ := Option.filter_eq_some_iff.mp h
    have hds := digits_of_digitsValue hv
    exact ⟨by rw [byteLen_cons, byteLen_of_digits hds, List.length_cons, Nat.add_comm]; rfl, .inr rfl⟩
  next =>
    obtain ⟨hv, -⟩ := Option.filter_eq_some_iff.mp h
    have hds := digits_of_digitsValue hv
    exact ⟨byteLen_of_digits hds, .inl hds⟩

theorem digits_of_window {radix width : Nat} {window text : List Char} (hlen : window.length = width)
    (h : ∀ c ∈ window, ∃ d, toDigit radix c = some d) : digits radix width (window ++ text) = window := by
  rw [digits, ← hlen, List.take_left, List.takeWhile_eq_self_iff]
  intro c hc
  exact Option.isSome_iff_exists.mpr (h c hc)

theorem window_cases {radix maximum width : Nat} {window : List Char} {text : List Char}
    (hwindow : takeBytes text width = some window) (hshort : (digits radix width text).length ≠ width) :
    fromStrRadix radix maximum window = none ∨
      (text.head? = some '+' ∧ digits radix width text = [] ∧ width ≤ text.length) := by
  obtain ⟨hbytes, r, rfl⟩ := takeBytes_eq_some_iff.mp hwindow
  cases hparse : fromStrRadix radix maximum window with
  | none => exact .inl rfl
  | some n =>
    obtain ⟨hascii, hcases⟩ := window_of_fromStrRadix hparse
    have hlen : window.length = width := hascii.symm.trans hbytes
    cases hcases with
    | inl hdigits =>
      rw [digits_of_window hlen hdigits] at hshort
      exact absurd hlen hshort
    | inr hplus =>
      cases window with
      | nil => cases hplus
      | cons c window =>
        obtain rfl : c = '+' := Option.some.inj hplus
        refine .inr ⟨rfl, ?_, by rw [List.length_append]; omega⟩
        cases width with
        | zero => cases hlen
        | succ width =>
          rw [digits, List.cons_append, List.take_succ_cons, List.takeWhile_cons_of_neg]
          rw [toDigit_plus]
          exact Bool.false_ne_true

theorem length_toList_le {α : Type} (o : Option α) : o.toList.length ≤ 1 := by
  cases o with
  | none => exact Nat.zero_le 1
  | some x => exact Nat.le_refl 1

theorem notMem_drop {k width : Nat} {text : List Char} (hle : k ≤ width) (h : c ∉ text.drop k) : c ∉ text.drop width := by
  obtain ⟨more, rfl⟩ := Nat.exists_eq_add_of_le hle
  rw [← List.drop_drop]
  exact fun hmem => h (List.mem_of_mem_drop hmem)

theorem length_digits_le (radix width : Nat) (text : List Char) : (digits radix width text).length ≤ width :=
  Nat.le_trans (List.takeWhile_prefix _).length_le (List.length_take_le _ _)

theorem length_digits_lt {radix width : Nat} {text window : List Char} (hwindow : takeBytes text width = some window)
    (hshort : (digits radix width text).length ≠ width) : (digits radix width text).length < text.length := by
  have happend := digits_append_drop radix width text
  have hle := length_digits_le radix width text
  obtain ⟨hbytes, r, htext⟩ := takeBytes_eq_some_iff.mp hwindow
  by_contra hnot
  rw [List.drop_of_length_le (Nat.le_of_not_lt hnot), List.append_nil] at happend
  have hdigits := byteLen_digits radix width text
  rw [happend] at hdigits hle hshort
  rw [htext, byteLen_append, ← htext] at hdigits
  omega

theorem digit_ne {n : Nat} (h : numeral 16 [c] = some n) : n < 16 ∧ c ≠ Char.ofNat n := by
  rw [numeral, if_neg (List.cons_ne_nil _ _)] at h
  obtain ⟨d, hd, hn⟩ := Option.bind_eq_some_iff.mp h
  have hn : d = n := by simpa [digitsValue] using hn
  subst hn
  obtain ⟨hlt, -, -, hle⟩ := toDigit_bounds hd
  refine ⟨hlt, ?_⟩
  intro hc
  rw [hc, toNat_ofNat_of_lt (by omega)] at hle
  omega

theorem departs_hex {width maximum : Nat} {read : Nat → Option Reading} (hread : HexRead width maximum read)
    (h : ¬WholeHex width read rest) : Departs (some (hexEscape width maximum rest)) (manualHex width read rest) := by
  rw [WholeHex, not_or] at h
  obtain ⟨hshort, hnone⟩ := h
  have happend := digits_append_drop 16 width rest
  have hle := length_digits_le 16 width rest
  cases hwindow : takeBytes rest width with
  | none =>
    have hstep : hexEscape width maximum rest = ([], rest) := by
      unfold hexEscape
      rw [hwindow]
    have hformed : (manualHex width read rest).1 ≠ .malformed := fun hmalformed => hnone ⟨hmalformed, hwindow⟩
    refine ⟨[], rest, congrArg some hstep, ?_, ?_⟩
    · intro hafter hmem
      rw [← happend] at hmem
      cases List.mem_append.mp hmem with
      | inl hdigits => exact backslash_notMem_digits _ _ _ hdigits
      | inr hdrop => exact hafter hdrop
    · intro mid hgives heq
      have hmid : digits 16 width rest = mid := List.append_cancel_right (happend.trans heq)
      rw [manualHex] at hgives hformed
      cases hn : numeral 16 (digits 16 width rest) with
      | none =>
        rw [hn] at hformed
        exact hformed rfl
      | some n =>
        rw [hn, Option.bind_some] at hgives hformed
        cases hr : read n with
        | none =>
          rw [hr] at hformed
          exact hformed rfl
        | some r =>
          have hlen : mid.length = 1 := hread.single n r mid hr (by rwa [hr] at hgives)
          obtain ⟨c, rfl⟩ := List.length_eq_one_iff.mp hlen
          rw [hmid] at hn
          obtain ⟨hlt, hne⟩ := digit_ne hn
          exact hne (List.cons.inj (hread.small n hlt [c] hgives)).1
  | some window =>
    have hstep : hexEscape width maximum rest =
        (((fromStrRadix 16 maximum window).bind charFromU32).toList, rest.drop width) := by
      unfold hexEscape
      rw [hwindow]
    refine ⟨_, _, congrArg some hstep, notMem_drop hle, ?_⟩
    intro mid _ heq
    have hlens := congrArg List.length heq
    rw [List.length_append, List.length_append, manualHex, List.length_drop, List.length_drop] at hlens
    have htwo := hread.two_le
    cases @window_cases 16 maximum _ _ _ hwindow hshort with
    | inl hparse =>
      have hlt := length_digits_lt hwindow hshort
      rw [hparse] at hlens
      simp only [Option.bind_none, Option.toList_none, List.length_nil] at hlens
      omega
    | inr hplus =>
      have hpushed := length_toList_le ((fromStrRadix 16 maximum window).bind charFromU32)
      rw [hplus.2.1, List.length_nil] at hlens
      have hwide := hplus.2.2
      omega

theorem octalEscape_short {next : Char} (hshort : (digits 8 3 (next :: rest)).length ≠ 3) :
    ∃ pushed, octalEscape next rest = (pushed, rest.drop 2) ∧ pushed.length ≤ 1 ∧
      (pushed = [] ∨ (digits 8 3 (next :: rest) = [] ∧ 2 ≤ rest.length)) := by
  unfold octalEscape
  cases hwindow : takeBytes (next :: rest) 3 with
  | none => exact ⟨[], rfl, Nat.zero_le 1, .inl rfl⟩
  | some window =>
    refine ⟨_, rfl, length_toList_le _, ?_⟩
    cases @window_cases 8 0xFFFFFFFF _ _ _ hwindow hshort with
    | inl hparse =>
      rw [hparse]
      exact .inl rfl
    | inr hplus => exact .inr ⟨hplus.2.1, Nat.le_of_succ_le_succ hplus.2.2⟩

theorem departs_octal {next : Char} (h : ¬WholeOctal next rest) :
    Departs (some (octalEscape next rest)) (manualOctal next rest) := by
  have hle := length_digits_le 8 3 (next :: rest)
  cases hn : numeral 8 (digits 8 3 (next :: rest)) with
  | some n =>
    have hmanual : manualOctal next rest =
        (.byte (n % 256), (next :: rest).drop (digits 8 3 (next :: rest)).length) := by
      unfold manualOctal
      rw [hn]
    have hne : digits 8 3 (next :: rest) ≠ [] := by
      intro hnil
      rw [hnil] at hn
      cases hn
    rw [WholeOctal, hn, not_and] at h
    by_cases hlen : (digits 8 3 (next :: rest)).length = 3
    · have hbig := h hlen
      obtain ⟨m, hm, hlt, hradix⟩ := numeral_spec hne fun c hc => mem_digits hc
      obtain rfl : m = n := Option.some.inj (hm.symm.trans hn)
      rw [hlen] at hlt
      have htake : takeBytes (next :: rest) 3 = some (digits 8 3 (next :: rest)) := by
        have htake := takeBytes_append (digits 8 3 (next :: rest))
          ((next :: rest).drop (digits 8 3 (next :: rest)).length)
        rwa [digits_append_drop, byteLen_digits, hlen] at htake
      have hstep : octalEscape next rest = ([Char.ofNat m], rest.drop 2) := by
        unfold octalEscape
        rw [htake]
        simp only
        rw [hradix 0xFFFFFFFF (by omega), Option.bind_some, charFromU32, if_pos (Or.inl (by omega))]
        rfl
      rw [hlen] at hmanual
      refine ⟨_, _, congrArg some hstep, ?_, ?_⟩
      · rw [hmanual]
        exact id
      · intro mid hgives heq
        rw [hmanual] at hgives heq
        obtain rfl : mid = [Char.ofNat (m % 256)] := hgives
        have hchar := congrArg Char.toNat (List.cons.inj heq).1
        rw [toNat_ofNat_of_lt (by omega), toNat_ofNat_of_lt (by omega)] at hchar
        omega
    · obtain ⟨pushed, hstep, -, hpushed⟩ := octalEscape_short hlen
      refine ⟨_, _, congrArg some hstep, ?_, ?_⟩
      · rw [hmanual]
        exact @notMem_drop _ _ _ (next :: rest) hle
      · intro mid hgives heq
        rw [hmanual] at hgives heq
        obtain rfl : mid = [Char.ofNat (n % 256)] := hgives
        cases hpushed with
        | inl hnil =>
          have hlens := congrArg List.length heq
          rw [hnil, List.nil_append, List.length_append, List.length_drop, List.length_drop, List.length_singleton,
            List.length_cons] at hlens
          omega
        | inr hplus => exact hne hplus.1
  | none =>
    have hmanual : manualOctal next rest = (.malformed, rest) := by
      unfold manualOctal
      rw [hn]
    rw [WholeOctal, hn] at h
    have hshort : (digits 8 3 (next :: rest)).length ≠ 3 := by
      intro hlen
      obtain ⟨n, hsome, -, -⟩ := @numeral_spec 8 (digits 8 3 (next :: rest))
        (List.ne_nil_of_length_eq_add_one hlen) fun c hc => mem_digits hc
      rw [hn] at hsome
      cases hsome
    obtain ⟨pushed, hstep, hone, hpushed⟩ := octalEscape_short hshort
    refine ⟨_, _, congrArg some hstep, ?_, ?_⟩
    · rw [hmanual]
      exact fun hafter hmem => hafter (List.mem_of_mem_drop hmem)
    · intro mid _ heq
      rw [hmanual] at heq
      have hlens : (pushed ++ rest.drop 2).length = (mid ++ rest).length := congrArg List.length heq
      have hpos := List.length_pos_iff.mpr h
      rw [List.length_append, List.length_append, List.length_drop] at hlens
      cases hpushed with
      | inl hnil =>
        rw [hnil, List.length_nil] at hlens
        omega
      | inr hplus => omega

theorem departs_control (h : ¬WholeControl rest) : Departs (controlEscape rest) (manualControl rest) := by
  cases rest with
  | nil => exact absurd trivial h
  | cons c rest =>
    have houtside : ¬((0x40 ≤ c.toNat ∧ c.toNat ≤ 0x5f) ∨ c.toNat = 0x7f) ∧ ∃ d, controlOf c = some d := by
      rw [controlOf]
      by_cases hlower : c.isLower = true
      · have hbounds : 97 ≤ c.toNat ∧ c.toNat ≤ 122 := by
          have hval : (decide (c.val ≥ 'a'.val) && decide (c.val ≤ 'z'.val)) = true := hlower
          simpa [UInt32.le_iff_toNat_le] using hval
        refine ⟨by omega, ?_⟩
        rw [if_neg (by omega), if_pos hlower]
        exact ⟨_, rfl⟩
      · have hquestion : c = '?' := by
          by_contra hne
          exact h ⟨Bool.eq_false_iff.mpr hlower, hne⟩
        subst hquestion
        exact ⟨by decide, _, rfl⟩
    obtain ⟨hnot, d, hd⟩ := houtside
    refine ⟨[], rest, by rw [controlEscape, if_neg hnot], id, ?_⟩
    intro mid hgives heq
    rw [manualControl, hd] at hgives
    obtain rfl : mid = [d] := hgives
    have hlens : rest.length = ([d] ++ rest).length := congrArg List.length heq
    rw [List.length_append, List.length_singleton] at hlens
    omega

theorem departs_step (h : ¬WholeEscape cs) : Departs (step '\\' cs) (manualStep '\\' cs) := by
  apply escape_cases (fun s p whole => ¬whole → Departs s p)
  · exact fun _ _ _ _ _ hnot => absurd trivial hnot
  · exact fun _ _ _ _ _ hread => departs_hex hread
  · exact fun _ _ => departs_control
  · exact fun _ _ _ => departs_octal
  · exact h

theorem pieces_cons (c : Char) (cs : List Char) :
    pieces (c :: cs).length (c :: cs) =
      ((manualStep c cs).1, c :: cs) :: pieces (manualStep c cs).2.length (manualStep c cs).2 := by
  rw [List.length_cons, pieces, pieces_fuel (manualStep_length c cs) (Nat.le_refl _)]

theorem whole_append_iff {text : List Char} (htext : '\\' ∉ text) (rest : List Char) :
    (∀ p ∈ pieces (text ++ rest).length (text ++ rest), Whole p.2) ↔ ∀ p ∈ pieces rest.length rest, Whole p.2 := by
  induction text with
  | nil => exact Iff.rfl
  | cons c text ih =>
    rw [List.mem_cons, not_or] at htext
    have hc : c ≠ '\\' := Ne.symm htext.1
    rw [List.cons_append, pieces_cons, manualStep, if_pos hc, List.forall_mem_cons, ih htext.2]
    exact and_iff_right fun heq => absurd heq hc

theorem whole_plain {text : List Char} (htext : '\\' ∉ text) : ∀ p ∈ pieces text.length text, Whole p.2 := by
  have h := (whole_append_iff htext []).mpr fun p hp => absurd hp List.not_mem_nil
  rwa [List.append_nil] at h

def Reading.isByte : Reading → Bool
  | .byte _ => true
  | _ => false

theorem countP_text (text : List Char) : (text.map Reading.text).countP Reading.isByte = 0 := by
  rw [List.countP_eq_zero]
  intro r hr
  obtain ⟨c, -, rfl⟩ := List.mem_map.mp hr
  exact Bool.false_ne_true

theorem countP_encoded (c : Char) : (encoded c).countP Reading.isByte = c.utf8Size := by
  rw [← length_encoded, List.countP_eq_length]
  intro r hr
  obtain ⟨b, -, rfl⟩ := List.mem_map.mp hr
  rfl

variable {before : List Char}

theorem readings_one (hbefore : '\\' ∉ before) (hafter : '\\' ∉ (manualStep '\\' cs).2) :
    readings (before ++ '\\' :: cs) =
      before.map .text ++ (manualStep '\\' cs).1 :: (manualStep '\\' cs).2.map .text := by
  rw [readings_append hbefore, readings_cons, readings_plain hafter]

theorem inStep_one_iff (hbefore : '\\' ∉ before) (hafter : '\\' ∉ (manualStep '\\' cs).2) :
    InStep (before ++ '\\' :: cs) ↔ WholeEscape cs := by
  constructor
  · intro h
    have hwhole := (whole_append_iff hbefore _).mp h.whole
    rw [pieces_cons] at hwhole
    exact hwhole _ List.mem_cons_self rfl
  · intro h
    constructor
    · rw [whole_append_iff hbefore, pieces_cons, List.forall_mem_cons]
      exact ⟨fun _ => h, whole_plain hafter⟩
    · intro early c late heq
      rw [readings_one hbefore hafter] at heq
      have hcount := congrArg (List.countP Reading.isByte) heq
      rw [List.countP_append, List.countP_append, List.countP_append, countP_text, countP_encoded, List.countP_cons,
        countP_text] at hcount
      have hpos := c.utf8Size_pos
      split at hcount
      next => omega
      next => omega

theorem wholeEscape_of_unquotes (hbefore : '\\' ∉ before) (hafter : '\\' ∉ (manualStep '\\' cs).2)
    (h : Unquotes (before ++ '\\' :: cs)) : WholeEscape cs := by
  by_contra hnot
  obtain ⟨pushed, left, hstep, hleft, hdeparts⟩ := departs_step hnot
  obtain ⟨out, hout, hspells⟩ := h
  have hleft := hleft hafter
  have hlen := step_length hstep
  have hrest : unescape cs.length left = some left := by
    have hplain := @unescape_append cs.length left [] hleft (by rwa [List.append_nil])
    rwa [List.append_nil, unescape, Option.map_some, List.append_nil] at hplain
  have hescape : unescape (before ++ '\\' :: cs).length ('\\' :: cs) = some (pushed ++ left) := by
    rw [@unescape_fuel _ (cs.length + 1) ('\\' :: cs) (by simp) (Nat.le_refl _), unescape, hstep]
    change (unescape cs.length left).bind _ = _
    rw [hrest]
    rfl
  rw [parse_quoted, unescape_append hbefore (Nat.le_refl _), hescape, Option.map_some, Option.some.injEq] at hout
  rw [readings_one hbefore hafter] at hspells
  obtain ⟨rest, hsplit, hspells⟩ := spells_text_append hspells
  obtain ⟨mid, hgives, rfl⟩ := spells_one hspells
  exact hdeparts mid hgives (List.append_cancel_left (hout.trans hsplit))

/-- A body is unquoted rightly where every escape fills its window and no bytes encode a character beyond ASCII.
-/
theorem unquotes_in_step (body : List Char) :
    (InStep body → Unquotes body) ∧
      ∀ before cs, body = before ++ '\\' :: cs → '\\' ∉ before → '\\' ∉ (manualStep '\\' cs).2 →
        (Unquotes body ↔ InStep body) := by
  refine ⟨fun h => h.unquotes, ?_⟩
  rintro before cs rfl hbefore hafter
  constructor
  · intro h
    exact (inStep_one_iff hbefore hafter).mpr (wholeEscape_of_unquotes hbefore hafter h)
  · exact InStep.unquotes

theorem unquotes_in_step_prompt : Unquotes ['a', '\\', 'E', '[', 'm'] :=
  (unquotes_in_step _).1 ((@inStep_one_iff ['E', '[', 'm'] ['a'] (by decide) (by decide)).mpr trivial)

/-- One hexadecimal digit, and a character behind it that is none. -/
theorem unquotes_loses_character :
    parseAnsiCQuotedString ['$', quote, '\\', 'x', '7', 'z', quote] = some [] ∧ ¬Unquotes ['\\', 'x', '7', 'z'] := by
  refine ⟨by decide +kernel, ?_⟩
  rintro ⟨out, hout, hspells⟩
  obtain rfl : out = [] := Option.some.inj (hout.symm.trans (by decide +kernel))
  have hreadings : readings ['\\', 'x', '7', 'z'] = [.byte 7, .text 'z'] := by decide +kernel
  rw [hreadings] at hspells
  cases hspells

end InfiniShell.Terminal.AnsiC
