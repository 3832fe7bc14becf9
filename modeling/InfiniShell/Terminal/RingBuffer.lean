import InfiniShell.Collections.SwapChain
import InfiniShell.Terminal.Storage
import Mathlib.Data.Int.ModEq
import Mathlib.Tactic.Ring

namespace InfiniShell.Terminal.Storage

open Collections

variable {s : Storage} {columns : Nat}

def offset (s : Storage) (i : Int) : Int :=
  if s.isSequential then s.bottomRow + i else s.bottomRow + s.len - 1 - i

def place (s : Storage) (i : Int) : Nat := (s.offset i % s.inner.length).toNat

/-- The row `i` steps below the topmost one, around the ring. -/
def ringRow (s : Storage) (i : Int) : Row := s.inner[s.place i]?.getD ⟨[], 0⟩

def rows (s : Storage) : List Row := (List.range s.len).map fun i : Nat => s.ringRow i

/-- The live rows fit into the ring, and all of them are visible. -/
structure Sound (columns : Nat) (s : Storage) : Prop where
  bottomRow_lt : s.bottomRow < s.inner.length
  len_le : s.len ≤ s.inner.length
  visibleLines : s.visibleLines = s.len
  sound : ∀ row ∈ s.inner, row.Sound columns

theorem Sound.pos (h : s.Sound columns) : 0 < s.inner.length := Nat.zero_lt_of_lt h.bottomRow_lt

section

variable (h : 0 < s.inner.length)
include h

theorem place_lt (i : Int) : s.place i < s.inner.length := by
  have hne : (s.inner.length : Int) ≠ 0 := by omega
  have hnonneg := Int.emod_nonneg (s.offset i) hne
  have hlt := Int.emod_lt_of_pos (s.offset i) (show (0 : Int) < s.inner.length by omega)
  rw [place]
  omega

theorem place_cast (i : Int) : (s.place i : Int) = s.offset i % s.inner.length := by
  rw [place, Int.toNat_of_nonneg (Int.emod_nonneg _ (by omega))]

theorem place_inj {i j : Int} (hdist : |i - j| < s.inner.length) (heq : s.place i = s.place j) : i = j := by
  have hmod : s.offset i % s.inner.length = s.offset j % s.inner.length := by
    rw [← place_cast h, ← place_cast h, heq]
  have hdvd : (s.inner.length : Int) ∣ s.offset i - s.offset j := Int.ModEq.dvd hmod.symm
  have hoffset : |s.offset i - s.offset j| = |i - j| := by
    simp only [offset]
    split
    · congr 1
      ring
    · rw [← abs_neg]
      congr 1
      ring
  have hzero := Int.eq_zero_of_abs_lt_dvd hdvd (hoffset ▸ hdist)
  simp only [offset] at hzero
  split at hzero <;> omega

theorem ringRow_eq (i : Int) : s.inner[s.place i]? = some (s.ringRow i) := by
  rw [ringRow, List.getElem?_eq_getElem (place_lt h i), Option.getD_some]

end

theorem ringRow_sound (h : s.Sound columns) (i : Int) : (s.ringRow i).Sound columns :=
  h.sound _ (List.mem_of_getElem? (ringRow_eq h.pos i))

theorem rows_length : s.rows.length = s.len := by simp [rows]

variable {i : Nat}

theorem getElem?_rows (h : i < s.len) : s.rows[i]? = some (s.ringRow i) := by
  simp [rows, h]

theorem wrap_eq {n z : Nat} (h : z < 2 * n) : (if z ≥ n then z - n else z) = ((z : Int) % n).toNat := by
  rw [← Int.natCast_mod, Int.toNat_natCast]
  by_cases hz : z ≥ n
  · rw [if_pos hz, Nat.mod_eq_sub_mod hz, Nat.mod_eq_of_lt (by omega)]
  · rw [if_neg hz, Nat.mod_eq_of_lt (by omega)]

theorem fromGridIndex_eq (h : s.Sound columns) (hi : i < s.len) : s.fromGridIndex i = some (s.place i) := by
  have hbottom := h.bottomRow_lt
  have hlen := h.len_le
  rw [fromGridIndex, if_pos hi, place, offset]
  simp only
  split
  · rw [wrap_eq (by omega), Nat.cast_add]
  · have hcast : ((s.bottomRow + (s.len - i - 1) : Nat) : Int) = s.bottomRow + s.len - 1 - i := by omega
    rw [wrap_eq (by omega), hcast]

theorem get_eq (h : s.Sound columns) (hi : i < s.len) : s.get i = some (s.ringRow i) := by
  rw [get, fromGridIndex_eq h hi]
  exact ringRow_eq h.pos i

theorem toGridIndex_eq (h : s.Sound columns) (i : Nat) : s.toGridIndex i = some i := by
  rw [toGridIndex, h.visibleLines, checkedSub, if_pos (Nat.le_refl _), Nat.sub_self, Option.map_some, Nat.zero_add]

variable {rows : List Row}

theorem rows_ext (hlen : rows.length = s.len)
    (hrow : ∀ i : Nat, i < s.len → rows[i]? = some (s.ringRow i)) : s.rows = rows := by
  apply List.ext_getElem?
  intro i
  by_cases hi : i < s.len
  · rw [getElem?_rows hi, hrow i hi]
  · rw [List.getElem?_eq_none (by rw [rows_length]; omega), List.getElem?_eq_none (by omega)]

structure Becomes (columns : Nat) (s : Storage) (rows : List Row) (s' : Storage) : Prop where
  sound : s'.Sound columns
  rows : s'.rows = rows
  isSequential : s'.isSequential = s.isSequential

theorem Becomes.trans {rows rows' : List Row} {s' s'' : Storage} (h : Becomes columns s rows s')
    (h' : Becomes columns s' rows' s'') : Becomes columns s rows' s'' where
  sound := h'.sound
  rows := h'.rows
  isSequential := h'.isSequential.trans h.isSequential

theorem Becomes.len {s' : Storage} (h : Becomes columns s rows s') : s'.len = rows.length := by
  rw [← h.rows, rows_length]

section Update

variable {row : Row}

@[simp] theorem setRaw_len (raw : Nat) : (s.setRaw raw row).len = s.len := rfl

@[simp] theorem setRaw_place (raw : Nat) (i : Int) : (s.setRaw raw row).place i = s.place i := by
  cases hs : s.isSequential <;> simp [setRaw, place, offset, hs]

variable {i j : Nat}

theorem ringRow_setRaw (h : s.Sound columns) (hi : i < s.len) (hj : j < s.len) :
    (s.setRaw (s.place i) row).ringRow j = if i = j then row else s.ringRow j := by
  have hlen := h.len_le
  rw [ringRow, setRaw_place, setRaw, List.getElem?_set]
  by_cases hij : i = j
  · rw [if_pos (by rw [hij]), if_pos (place_lt h.pos _), if_pos hij, Option.getD_some]
  · have hne : s.place i ≠ s.place j := by
      intro heq
      have hij' := place_inj h.pos (by rw [abs_lt]; omega) heq
      omega
    rw [if_neg hne, if_neg hij, ringRow]

theorem setRaw_becomes (h : s.Sound columns) (hrow : row.Sound columns) (hi : i < s.len) :
    Becomes columns s (s.rows.set i row) (s.setRaw (s.place i) row) where
  sound := by
    refine ⟨by simpa [setRaw] using h.bottomRow_lt, by simpa [setRaw] using h.len_le, h.visibleLines, ?_⟩
    intro row' hmem
    cases List.mem_or_eq_of_mem_set hmem with
    | inl hmem => exact h.sound row' hmem
    | inr heq => rw [heq]; exact hrow
  rows := by
    refine rows_ext (by rw [List.length_set, rows_length, setRaw_len]) ?_
    intro j hj
    rw [setRaw_len] at hj
    rw [ringRow_setRaw h hi hj, List.getElem?_set, rows_length, if_pos hi, getElem?_rows hj]
    split <;> rfl
  isSequential := rfl

theorem update_becomes (h : s.Sound columns) (hi : i < s.len) {f : Row → Option Row}
    (hf : f (s.ringRow i) = some row) (hrow : row.Sound columns) :
    ∃ s', s.update i f = some s' ∧ Becomes columns s (s.rows.set i row) s' := by
  refine ⟨_, ?_, setRaw_becomes h hrow hi⟩
  simp only [update, fromGridIndex_eq h hi, ringRow_eq h.pos, hf, Option.bind_eq_bind, Option.bind_some]

theorem swap_becomes (h : s.Sound columns) (hi : i < s.len) (hj : j < s.len) :
    ∃ s', s.swap i j = some s' ∧ Becomes columns s (swapped s.rows i j) s' := by
  have hset := setRaw_becomes h (ringRow_sound h j) hi
  have hset' := setRaw_becomes hset.sound (ringRow_sound h i) (show j < _ from hj)
  rw [hset.rows, setRaw_place] at hset'
  refine ⟨(s.setRaw (s.place i) (s.ringRow j)).setRaw (s.place j) (s.ringRow i), ?_, ?_⟩
  · simp only [swap, fromGridIndex_eq h hi, fromGridIndex_eq h hj, swapRaw, ringRow_eq h.pos, Option.bind_eq_bind,
      Option.bind_some]
  · rw [swapped, getElem?_rows hi, getElem?_rows hj]
    exact hset.trans hset'

theorem foldlM_becomes {f : Storage → Nat → Option Storage} (g : List Row → Nat → List Row) {n : Nat}
    (indices : List Nat) (h : s.Sound columns) (hlen : s.len = n)
    (hstep : ∀ s i, i ∈ indices → s.Sound columns → s.len = n → ∃ s', f s i = some s' ∧ Becomes columns s (g s.rows i) s')
    (hg : ∀ rows i, (g rows i).length = rows.length) :
    ∃ s', indices.foldlM f s = some s' ∧ Becomes columns s (indices.foldl g s.rows) s' := by
  induction indices generalizing s with
  | nil => exact ⟨s, rfl, h, rfl, rfl⟩
  | cons i indices ih =>
    obtain ⟨s₁, hf, hbecomes⟩ := hstep s i List.mem_cons_self h hlen
    have hlen₁ : s₁.len = n := by rw [hbecomes.len, hg, rows_length, hlen]
    obtain ⟨s₂, hrest, hbecomes'⟩ := ih hbecomes.sound hlen₁
      fun s i hi => hstep s i (List.mem_cons_of_mem _ hi)
    rw [hbecomes.rows] at hbecomes'
    refine ⟨s₂, ?_, hbecomes.trans hbecomes'⟩
    rw [List.foldlM_cons, hf]
    exact hrest

end Update

section Rotate

theorem rotate_spec (h : s.Sound columns) {count : Int} (hcount : count.natAbs ≤ s.len) :
    ∃ s', s.rotate count = some s' ∧ s'.Sound columns ∧ s'.isSequential = s.isSequential ∧ s'.len = s.len ∧
      s'.inner = s.inner ∧ ∀ i, s'.ringRow i = s.ringRow (if s.isSequential then i + count else i - count) := by
  have hlen := h.len_le
  have hpos := h.pos
  have hbottom := h.bottomRow_lt
  refine ⟨{ s with bottomRow := (s.bottomRow + count + s.inner.length).toNat % s.inner.length }, ?_, ?_, rfl, rfl,
    rfl, ?_⟩
  · rw [rotate, if_pos (by omega)]
  · exact ⟨Nat.mod_lt _ hpos, hlen, h.visibleLines, h.sound⟩
  · intro i
    have hturn : (((s.bottomRow + count + s.inner.length).toNat % s.inner.length : Nat) : Int) =
        (s.bottomRow + count) % s.inner.length := by
      rw [Int.natCast_mod, Int.toNat_of_nonneg (by omega), Int.add_emod_right]
    simp only [ringRow, place, offset, hturn]
    cases s.isSequential with
    | true =>
      simp only [if_true]
      rw [Int.emod_add_emod, Int.add_assoc, Int.add_comm count i]
    | false =>
      simp only [Bool.false_eq_true, if_false]
      have hturned : ((s.bottomRow + count) % s.inner.length + s.len - 1 - i) % s.inner.length =
          (s.bottomRow + s.len - 1 - (i - count)) % s.inner.length := by
        rw [show (s.bottomRow + count : Int) % s.inner.length + s.len - 1 - i =
          (s.bottomRow + count) % s.inner.length + (s.len - 1 - i) by ring, Int.emod_add_emod]
        congr 1
        ring
      rw [hturned]

variable {count : Nat}

theorem rows_of_shift {s' : Storage} (hlen : s'.len = s.len) (hcount : count ≤ s.len)
    (hrow : ∀ i, s'.ringRow i = s.ringRow (i + count)) : s'.rows.take (s.len - count) = s.rows.drop count := by
  apply List.ext_getElem?
  intro i
  rw [List.getElem?_take, List.getElem?_drop]
  by_cases hi : i < s.len - count
  · rw [if_pos hi, getElem?_rows (by omega), getElem?_rows (by omega), hrow, Nat.cast_add, Int.add_comm]
  · rw [if_neg hi, List.getElem?_eq_none]
    rw [rows_length]
    omega

theorem extend_spec (h : s.Sound columns) (hcount : count ≤ s.len) :
    ∃ s', s.extend count = some s' ∧ s'.Sound columns ∧ s'.isSequential = s.isSequential ∧ s'.len = s.len ∧
      s'.rows.take (s.len - count) = s.rows.drop count := by
  cases hlayout : s.isSequential with
  | true =>
    obtain ⟨s', hrotate, hsound, hsame, hlen, -, hrow⟩ := rotate_spec h (show (count : Int).natAbs ≤ s.len by simpa)
    refine ⟨s', by rw [extend, hlayout, if_pos rfl, hrotate], hsound, hsame.trans hlayout, hlen, ?_⟩
    exact rows_of_shift hlen hcount fun i => by rw [hrow, hlayout, if_pos rfl]
  | false =>
    obtain ⟨s', hrotate, hsound, hsame, hlen, -, hrow⟩ :=
      rotate_spec h (show (-(count : Int)).natAbs ≤ s.len by simpa)
    refine ⟨s', by rw [extend, hlayout, if_neg Bool.false_ne_true, hrotate], hsound, hsame.trans hlayout, hlen, ?_⟩
    exact rows_of_shift hlen hcount fun i => by rw [hrow, hlayout, if_neg Bool.false_ne_true, Int.sub_neg]

theorem retract_spec (h : s.Sound columns) (hcount : count ≤ s.len) :
    ∃ s', s.retract count = some s' ∧ s'.Sound columns ∧ s'.isSequential = s.isSequential ∧ s'.len = s.len ∧
      s'.rows.drop count = s.rows.take (s.len - count) := by
  have hback : ∀ {s' : Storage}, s'.len = s.len → (∀ i, s'.ringRow i = s.ringRow (i - count)) →
      s'.rows.drop count = s.rows.take (s.len - count) := by
    intro s' hlen hrow
    rw [← hlen]
    refine (rows_of_shift hlen.symm (hlen ▸ hcount) ?_).symm
    intro i
    rw [hrow, Int.add_sub_cancel]
  cases hlayout : s.isSequential with
  | true =>
    obtain ⟨s', hrotate, hsound, hsame, hlen, -, hrow⟩ :=
      rotate_spec h (show (-(count : Int)).natAbs ≤ s.len by simpa)
    refine ⟨s', by rw [retract, hlayout, if_pos rfl, hrotate], hsound, hsame.trans hlayout, hlen, hback hlen ?_⟩
    exact fun i => by rw [hrow, hlayout, if_pos rfl, Int.sub_eq_add_neg]
  | false =>
    obtain ⟨s', hrotate, hsound, hsame, hlen, -, hrow⟩ := rotate_spec h (show (count : Int).natAbs ≤ s.len by simpa)
    refine ⟨s', by rw [retract, hlayout, if_neg Bool.false_ne_true, hrotate], hsound, hsame.trans hlayout, hlen,
      hback hlen ?_⟩
    exact fun i => by rw [hrow, hlayout, if_neg Bool.false_ne_true]

end Rotate

section Resize

theorem rezero_spec (h : s.Sound columns) :
    s.rezero.Sound columns ∧ s.rezero.bottomRow = 0 ∧ s.rezero.len = s.len ∧
      s.rezero.isSequential = s.isSequential ∧ s.rezero.inner.length = s.inner.length ∧
      ∀ i, s.rezero.ringRow i = s.ringRow i := by
  rw [rezero]
  by_cases hzero : s.bottomRow = 0
  · rw [if_pos hzero]
    exact ⟨h, hzero, rfl, rfl, rfl, fun _ => rfl⟩
  · rw [if_neg hzero]
    refine ⟨⟨?_, ?_, h.visibleLines, ?_⟩, rfl, rfl, rfl, List.length_rotate _ _, ?_⟩
    · rw [List.length_rotate]
      exact h.pos
    · rw [List.length_rotate]
      exact h.len_le
    · intro row hrow
      exact h.sound row (List.mem_rotate.mp hrow)
    · intro i
      have hpos := h.pos
      let s' : Storage := { s with inner := s.inner.rotate s.bottomRow, bottomRow := 0 }
      have hlen : s'.inner.length = s.inner.length := List.length_rotate _ _
      have hplace : (s'.place i + s.bottomRow) % s.inner.length = s.place i := by
        have hcast : (((s'.place i + s.bottomRow) % s.inner.length : Nat) : Int) = s.place i := by
          rw [Int.natCast_mod, Nat.cast_add, place_cast (by rw [hlen]; exact hpos), place_cast hpos, hlen,
            Int.emod_add_emod]
          congr 1
          simp only [offset, s']
          split <;> ring
        exact Int.ofNat.inj hcast
      have hlt : s'.place i < s.inner.length := hlen ▸ place_lt (by rw [hlen]; exact hpos) i
      change s'.ringRow i = s.ringRow i
      rw [ringRow, ringRow, List.getElem?_rotate hlt, hplace]

theorem rows_of_ringRow {s' : Storage} (hlen : s'.len = s.len) (hrow : ∀ i : Nat, i < s.len → s'.ringRow i = s.ringRow i) :
    s'.rows = s.rows := by
  refine rows_ext (by rw [rows_length, hlen]) ?_
  intro i hi
  rw [hlen] at hi
  rw [getElem?_rows hi, hrow i hi]

variable {i : Nat}

theorem place_zero (h : s.bottomRow = 0) (hlen : s.len ≤ s.inner.length) (hi : i < s.len) :
    s.place i = if s.isSequential then i else s.len - 1 - i := by
  rw [place, offset, h]
  split
  · rw [Nat.cast_zero, Int.zero_add, ← Int.natCast_mod, Int.toNat_natCast, Nat.mod_eq_of_lt (by omega)]
  · rw [show ((0 : Nat) : Int) + s.len - 1 - i = ((s.len - 1 - i : Nat) : Int) by omega, ← Int.natCast_mod,
      Int.toNat_natCast, Nat.mod_eq_of_lt (by omega)]

theorem place_zero_lt (h : s.bottomRow = 0) (hlen : s.len ≤ s.inner.length) (hi : i < s.len) :
    s.place i < s.len := by
  rw [place_zero h hlen hi]
  split <;> omega

theorem truncateUnusedRows_becomes (h : s.Sound columns) (hpos : 0 < s.len) :
    Becomes columns s s.rows s.truncateUnusedRows := by
  obtain ⟨hsound, hzero, hlen, hlayout, -, hrow⟩ := rezero_spec h
  have hle := hsound.len_le
  have htake : s.truncateUnusedRows.inner.length = s.rezero.len := by
    rw [truncateUnusedRows, List.length_take, Nat.min_eq_left hle]
  refine ⟨⟨?_, ?_, hsound.visibleLines, ?_⟩, ?_, hlayout⟩
  · rw [htake, hlen, show s.truncateUnusedRows.bottomRow = 0 from hzero]
    exact hpos
  · rw [htake]
    exact Nat.le_refl _
  · intro row hmem
    exact hsound.sound row (List.mem_of_mem_take hmem)
  · refine rows_of_ringRow hlen ?_
    intro i hi
    rw [← hlen] at hi
    have hplace : s.truncateUnusedRows.place i = s.rezero.place i := by
      rw [place_zero hzero hle hi, place_zero (show s.truncateUnusedRows.bottomRow = 0 from hzero) htake.ge hi]
      rfl
    rw [← hrow, ringRow, hplace, ringRow, truncateUnusedRows, List.getElem?_take,
      if_pos (place_zero_lt hzero hle hi)]

variable {target : Nat} (h : s.Sound columns)
include h

theorem shrinkVisibleLines_eq (hle : target ≤ s.len) : s.shrinkVisibleLines target = some (
      if s.inner.length > target + s.maxCacheSize then
        { s with len := target, visibleLines := target }.truncateUnusedRows
      else { s with len := target, visibleLines := target }) := by
  have hlen : s.len - (s.len - target) = target := by omega
  simp only [shrinkVisibleLines, h.visibleLines, shrinkLines, checkedSub, if_pos hle, if_pos (Nat.sub_le _ _), hlen,
    Option.bind_eq_bind, Option.bind_some]
  split
  · simp only [truncateUnusedRows, rezero]
    split <;> rfl
  · rfl

theorem shrink_becomes (hlayout : s.isSequential = false) (hpos : 0 < target) (hle : target ≤ s.len) :
    ∃ s', (s.rotate (s.len - target : Nat)).bind (·.shrinkVisibleLines target) = some s' ∧
      Becomes columns s (s.rows.take target) s' := by
  obtain ⟨turned, hrotate, hsound, hsame, hlen, -, hrow⟩ := rotate_spec h
    (show (((s.len - target : Nat) : Int)).natAbs ≤ s.len by omega)
  have hturned := hsound.len_le
  let shrunk : Storage := { turned with len := target, visibleLines := target }
  have hshrunk : Becomes columns s (s.rows.take target) shrunk := by
    refine ⟨⟨hsound.bottomRow_lt, ?_, rfl, hsound.sound⟩, ?_, hsame⟩
    · exact (hle.trans_eq hlen.symm).trans hturned
    · refine rows_ext (by rw [List.length_take, rows_length]; exact Nat.min_eq_left hle) ?_
      intro i hi
      have hi' : i < target := hi
      have hup : shrunk.ringRow i = turned.ringRow (i + (s.len - target : Nat)) := by
        have hoffset : shrunk.offset i = turned.offset (i + (s.len - target : Nat)) := by
          simp only [offset, hsame, hlayout, Bool.false_eq_true, if_false, hlen, shrunk]
          omega
        simp only [ringRow, place, hoffset, shrunk]
      rw [List.getElem?_take, if_pos hi', getElem?_rows (by omega), hup, hrow, hlayout, if_neg Bool.false_ne_true,
        Int.add_sub_cancel]
  rw [hrotate, Option.bind_some, shrinkVisibleLines_eq hsound (hle.trans_eq hlen.symm)]
  split
  · have htruncated := truncateUnusedRows_becomes hshrunk.sound hpos
    rw [hshrunk.rows] at htruncated
    exact ⟨_, rfl, hshrunk.trans htruncated⟩
  · exact ⟨_, rfl, hshrunk⟩

theorem append_becomes (hzero : s.bottomRow = 0) {more : List Row}
    (hmore : ∀ row ∈ more, row.Sound columns) :
    Becomes columns s s.rows { s with inner := s.inner ++ more } := by
  have hle : s.len ≤ (s.inner ++ more).length := by
    rw [List.length_append]
    exact h.len_le.trans (Nat.le_add_right _ _)
  refine ⟨⟨?_, hle, h.visibleLines, ?_⟩, ?_, rfl⟩
  · rw [List.length_append]
    exact Nat.lt_of_lt_of_le h.bottomRow_lt (Nat.le_add_right _ _)
  · intro row hmem
    cases List.mem_append.mp hmem with
    | inl hmem => exact h.sound row hmem
    | inr hmem => exact hmore row hmem
  · refine rows_of_ringRow (show _ = s.len from rfl) ?_
    intro i hi
    have hplace : { s with inner := s.inner ++ more }.place i = s.place i := by
      rw [place_zero hzero h.len_le hi]
      exact place_zero (s := { s with inner := s.inner ++ more }) hzero hle hi
    rw [ringRow, hplace, ringRow, List.getElem?_append_left (place_lt h.pos _)]

theorem withRoom_becomes (additionalRows : Nat) :
    Becomes columns s s.rows (s.withRoom additionalRows columns) ∧
      s.len + additionalRows ≤ (s.withRoom additionalRows columns).inner.length := by
  rw [withRoom]
  by_cases hfull : s.len + additionalRows > s.inner.length
  · rw [if_pos hfull]
    obtain ⟨hsound, hzero, hlen, hlayout, hlength, hrow⟩ := rezero_spec h
    have hrezero : Becomes columns s s.rows s.rezero :=
      ⟨hsound, rows_of_ringRow hlen fun i _ => hrow i, hlayout⟩
    have hnew : ∀ row ∈ List.replicate (max additionalRows s.rezero.maxCacheSize) (Row.new columns),
        row.Sound columns := by
      intro row hmem
      rw [List.eq_of_mem_replicate hmem]
      exact Row.new_sound columns
    have happend := append_becomes hsound hzero hnew
    rw [hrezero.rows] at happend
    refine ⟨hrezero.trans happend, ?_⟩
    simp only [List.length_append, List.length_replicate, hlength]
    have hmax := Nat.le_max_left additionalRows s.rezero.maxCacheSize
    have hlen' := h.len_le
    omega
  · rw [if_neg hfull]
    exact ⟨⟨h, rfl, rfl⟩, by omega⟩

theorem grow_spec (hlayout : s.isSequential = false) {next : Nat} (hpos : 0 < s.len) (hle : s.len ≤ next) :
    ∃ s', s.growVisibleLines next = some s' ∧ s'.Sound columns ∧ s'.isSequential = s.isSequential ∧
      s'.len = next ∧ s'.rows.drop (next - s.len) = s.rows := by
  obtain ⟨hroom, hfits⟩ := withRoom_becomes h (next - s.len)
  have hlen := hroom.len
  have hlayout' := hroom.isSequential.trans hlayout
  have hrows := hroom.rows
  have hsound := hroom.sound
  have hcolumns : (s.ringRow (0 : Nat)).inner.length = columns := (ringRow_sound h _).length
  have hnext : s.len + (next - s.len) = next := Nat.add_sub_of_le hle
  rw [rows_length] at hlen
  simp only [growVisibleLines, h.visibleLines, checkedSub, if_pos hle, get_eq h hpos, hcolumns, initializeRows,
    Option.bind_eq_bind, Option.bind_some, hnext]
  generalize s.withRoom (next - s.len) columns = room at *
  rw [hnext] at hfits
  let grown : Storage := { room with len := next, visibleLines := next }
  refine ⟨grown, rfl, ⟨hsound.bottomRow_lt, hfits, rfl, hsound.sound⟩, hroom.isSequential, rfl, ?_⟩
  have hup : ∀ i : Nat, grown.ringRow (next - s.len + i : Nat) = room.ringRow i := by
    intro i
    have hoffset : grown.offset (next - s.len + i : Nat) = room.offset i := by
      simp only [offset, hlayout', Bool.false_eq_true, if_false, hlen, grown]
      omega
    simp only [ringRow, place, hoffset, grown]
  rw [← hrows]
  apply List.ext_getElem?
  intro i
  rw [List.getElem?_drop]
  by_cases hi : i < s.len
  · have hi' : next - s.len + i < grown.len := by
      change _ < next
      omega
    rw [getElem?_rows hi', hup, getElem?_rows (by omega)]
  · rw [List.getElem?_eq_none, List.getElem?_eq_none]
    · rw [rows_length]
      omega
    · rw [rows_length]
      change next ≤ _
      omega

end Resize

end InfiniShell.Terminal.Storage
