import InfiniShell.Scrollback.Storage
import Mathlib.Algebra.GroupWithZero.Nat

namespace InfiniShell.Scrollback

open Collections Terminal

variable {A : Type}

namespace AttributeMap

variable {m : AttributeMap A}

theorem accepts_of_lt {start : Nat} (h : ∀ e ∈ m.map.entries, e.1 < start) : m.Accepts start := by
  rw [Accepts]
  split
  next hstart =>
    rw [hstart] at h
    rw [BTreeMap.last?, List.getLast?_eq_none_iff]
    exact List.eq_nil_iff_forall_not_mem.mpr fun e he => Nat.not_lt_zero _ (h e he)
  next hstart =>
    unfold lastEndOffset
    cases hlast : m.map.last? with
    | none => exact Nat.pos_of_ne_zero hstart
    | some e => exact BTreeMap.last?_lt_iff.mp h e hlast

def KeysBelow (m : AttributeMap A) (n : Nat) : Prop := ∀ e ∈ m.map.entries, e.1 < n

theorem new_keysBelow (startingValue : A) (n : Nat) : (new startingValue).KeysBelow n :=
  fun _ he => absurd he List.not_mem_nil

theorem KeysBelow.mono {n k : Nat} (h : m.KeysBelow n) (hle : n ≤ k) : m.KeysBelow k :=
  fun e he => Nat.lt_of_lt_of_le (h e he) hle

theorem KeysBelow.pushAttributeChange [DecidableEq A] {n start : Nat} (h : m.KeysBelow n) (hlt : start ≤ n)
    (value : A) : (m.pushAttributeChange start value).KeysBelow n := by
  unfold AttributeMap.pushAttributeChange
  split
  next => exact h
  next =>
    split
    next => exact h
    next hstart =>
      intro e he
      cases BTreeMap.mem_insertList _ _ _ e he with
      | inl he =>
        rw [he]
        simp only
        omega
      | inr he => exact h e he

theorem keysBelow_truncate (m : AttributeMap A) (n : Nat) : (m.truncate n).KeysBelow n :=
  fun _ he => (BTreeMap.mem_below.mp he).2

theorem KeysBelow.truncateFront {n : Nat} (h : m.KeysBelow n) (k : Nat) : (m.truncateFront k).KeysBelow n :=
  fun e he => h e (BTreeMap.mem_atLeast.mp he).1

end AttributeMap

def Attributes.after (a : Attributes) (cells : List Cell) : Attributes :=
  cells.foldl (fun a cell => if Cell.isSpacer cell then a else .ofCell cell) a

def Attributes.skips (a : Attributes) (cell : Cell) : Bool :=
  cell.isEmpty && a = .ofCell cell && cell.endOfPromptMarker.isNone

/-- No spacer follows a skipped cell, and no skipped cell has another length than the stored one. -/
def Attributes.inStep (a : Attributes) (skipped : Bool) : List Cell → Bool
  | [] => true
  | cell :: cells =>
    if Cell.isSpacer cell then !skipped && inStep a false cells
    else if a.skips cell then byteLen cell.rawContent.chars = 1 && inStep (.ofCell cell) true cells
    else inStep (.ofCell cell) false cells

def Attributes.ChangesInStep (a : Attributes) (cells : List Cell) : Prop :=
  ∀ before cell after, cells = before ++ cell :: after → Cell.isSpacer cell = false →
    a.after before ≠ .ofCell cell → a.inStep false before

def Attributes.RowsInStep (a : Attributes) : List Row → Prop
  | [] => True
  | row :: rows =>
    ∀ cells, Row.dirtyCells row = some cells → a.ChangesInStep cells ∧ (a.after cells).RowsInStep rows

theorem Attributes.after_append (a : Attributes) (l r : List Cell) : a.after (l ++ r) = (a.after l).after r :=
  List.foldl_append

def Attributes.endsSkipped (a : Attributes) (skipped : Bool) : List Cell → Bool
  | [] => skipped
  | cell :: cells =>
    if Cell.isSpacer cell then endsSkipped a false cells
    else if a.skips cell then endsSkipped (.ofCell cell) true cells
    else endsSkipped (.ofCell cell) false cells

theorem Attributes.inStep_append_singleton (a : Attributes) (skipped : Bool) (cells : List Cell) (cell : Cell) :
    a.inStep skipped (cells ++ [cell]) = (a.inStep skipped cells &&
      (a.after cells).inStep (a.endsSkipped skipped cells) [cell]) := by
  induction cells generalizing a skipped with
  | nil => rfl
  | cons d cells ih =>
    have hafter : a.after (d :: cells) = (if Cell.isSpacer d then a else Attributes.ofCell d).after cells := rfl
    rw [List.cons_append, inStep, inStep, endsSkipped, hafter]
    split
    next => rw [ih, Bool.and_assoc]
    next =>
      split
      next => rw [ih, Bool.and_assoc]
      next => rw [ih]

theorem Attributes.endsSkipped_append_singleton (a : Attributes) (skipped : Bool) (cells : List Cell) (cell : Cell) :
    a.endsSkipped skipped (cells ++ [cell]) = (!Cell.isSpacer cell && (a.after cells).skips cell) := by
  induction cells generalizing a skipped with
  | nil =>
    rw [List.nil_append, endsSkipped]
    change _ = (!Cell.isSpacer cell && a.skips cell)
    cases Cell.isSpacer cell
    · cases a.skips cell <;> rfl
    · rfl
  | cons d cells ih =>
    have hafter : a.after (d :: cells) = (if Cell.isSpacer d then a else Attributes.ofCell d).after cells := rfl
    rw [List.cons_append, endsSkipped, hafter]
    split
    next => exact ih _ _
    next =>
      split
      next => exact ih _ _
      next => exact ih _ _

theorem foldlM_pushGrapheme_endOffset {gs : List Grapheme} {c next : Content}
    (h : gs.foldlM Content.pushGrapheme c = some next) :
    next.endOffset = c.endOffset + (gs.map fun g => byteLen g.content).sum := by
  induction gs generalizing c with
  | nil =>
    obtain rfl := Option.some.inj h
    rfl
  | cons g gs ih =>
    rw [List.foldlM_cons, Option.bind_eq_bind, Option.bind_eq_some_iff] at h
    obtain ⟨d, hpush, hrest⟩ := h
    rw [ih hrest, Content.pushGrapheme_endOffset hpush, List.map_cons, List.sum_cons, Nat.add_assoc]

structure FlatStorage.KeysBelow (s : FlatStorage) (n : Nat) : Prop where
  fgColor : s.fgColorMap.KeysBelow n
  bgAndStyle : s.bgAndStyleMap.KeysBelow n
  hyperlinkId : s.hyperlinkIdMap.KeysBelow n

theorem FlatStorage.KeysBelow.mono {s : FlatStorage} {n k : Nat} (h : s.KeysBelow n) (hle : n ≤ k) : s.KeysBelow k :=
  ⟨h.fgColor.mono hle, h.bgAndStyle.mono hle, h.hyperlinkId.mono hle⟩

namespace RowPush

structure NotesAccepted (s : RowPush) (cell : Cell) : Prop where
  fgColor : cell.fg ≠ s.attributes.fgColor → s.storage.fgColorMap.Accepts s.offset
  bgAndStyle : s.attributes.bgAndStyle ≠ .ofCell cell → s.storage.bgAndStyleMap.Accepts s.offset
  hyperlinkId : s.attributes.hyperlinkId ≠ cell.hyperlinkId → s.storage.hyperlinkIdMap.Accepts s.offset

variable {s t : RowPush} {cell : Cell}

theorem ne_ofCell_iff (s : RowPush) (cell : Cell) : s.attributes ≠ .ofCell cell ↔ cell.fg ≠ s.attributes.fgColor ∨
    s.attributes.bgAndStyle ≠ .ofCell cell ∨ s.attributes.hyperlinkId ≠ cell.hyperlinkId := by
  have heq : s.attributes = .ofCell cell ↔ cell.fg = s.attributes.fgColor ∧
      s.attributes.bgAndStyle = .ofCell cell ∧ s.attributes.hyperlinkId = cell.hyperlinkId := by
    cases s.attributes
    simp [Attributes.ofCell, eq_comm]
  rw [Ne, heq, not_and_or, not_and_or]

theorem needsProcessing_eq (s : RowPush) (cell : Cell) : s.needsProcessing cell = !s.attributes.skips cell := by
  have hne := ne_ofCell_iff s cell
  rw [Bool.eq_iff_iff, needsProcessing, Attributes.skips]
  simp only [Bool.or_eq_true, Bool.not_eq_true', decide_eq_true_eq, Bool.and_eq_false_iff, decide_eq_false_iff_not,
    Option.isNone_eq_false_iff]
  rw [← Ne, hne]
  tauto

theorem noteAttributes_keysBelow {n : Nat} (h : s.storage.KeysBelow n)
    (hle : s.attributes ≠ .ofCell cell → s.offset ≤ n) : (s.noteAttributes cell).storage.KeysBelow n := by
  have hstart := ne_ofCell_iff s cell
  unfold noteAttributes
  refine ⟨?_, ?_, ?_⟩
  · simp only
    split
    next hne => exact h.fgColor.pushAttributeChange (hle (hstart.mpr (.inl hne))) _
    next => exact h.fgColor
  · simp only
    split
    next hne => exact h.bgAndStyle.pushAttributeChange (hle (hstart.mpr (.inr (.inl hne)))) _
    next => exact h.bgAndStyle
  · simp only
    split
    next hne => exact h.hyperlinkId.pushAttributeChange (hle (hstart.mpr (.inr (.inr hne)))) _
    next => exact h.hyperlinkId

structure Behind (a : Attributes) (seen : List Cell) (s : RowPush) : Prop where
  attributes : s.attributes = a.after seen
  keys : s.storage.KeysBelow s.storage.content.endOffset
  last : s.lastCell ≤ s.idx
  pending : a.endsSkipped false seen = decide (s.lastCell < s.idx)
  offset : a.inStep false seen = true → s.offset = s.storage.content.endOffset + (s.idx - s.lastCell).toNat

variable {a : Attributes} {seen : List Cell}

theorem Behind.notesAccepted (h : s.Behind a seen) (hin : s.attributes ≠ .ofCell cell → a.inStep false seen = true) :
    s.NotesAccepted cell := by
  have hstart := ne_ofCell_iff s cell
  have hle : s.attributes ≠ .ofCell cell → s.storage.content.endOffset ≤ s.offset := by
    intro hne
    rw [h.offset (hin hne)]
    exact Nat.le_add_right _ _
  constructor
  · intro hne
    exact AttributeMap.accepts_of_lt (h.keys.fgColor.mono (hle (hstart.mpr (.inl hne))))
  · intro hne
    exact AttributeMap.accepts_of_lt (h.keys.bgAndStyle.mono (hle (hstart.mpr (.inr (.inl hne)))))
  · intro hne
    exact AttributeMap.accepts_of_lt (h.keys.hyperlinkId.mono (hle (hstart.mpr (.inr (.inr hne)))))

theorem Behind.spacer (h : s.Behind a seen) (hspacer : Cell.isSpacer cell = true) (builder : EntryBuilder) :
    { s with idx := s.idx + 1, builder, lastCell := s.idx + 1 : RowPush }.Behind a (seen ++ [cell]) where
  attributes := by
    rw [Attributes.after_append, ← h.attributes]
    simp [Attributes.after, hspacer]
  keys := h.keys
  last := Int.le_refl _
  pending := by simp [Attributes.endsSkipped_append_singleton, hspacer]
  offset := by
    intro hin
    rw [Attributes.inStep_append_singleton, Attributes.inStep, if_pos hspacer] at hin
    simp only [Bool.and_eq_true, Bool.not_eq_true', h.pending, decide_eq_false_iff_not] at hin
    have hoffset := h.offset hin.1
    have hlast := h.last
    simp only
    omega

variable {g : Grapheme} (h : s.Behind a seen)
include h

theorem Behind.skipped (hspacer : Cell.isSpacer cell = false)
    (hskips : s.attributes.skips cell = true) (hg : Grapheme.newFromCell cell = some g) :
    (s.note cell g).Behind a (seen ++ [cell]) where
  attributes := by
    rw [Attributes.after_append, ← h.attributes]
    simp [Attributes.after, hspacer, note, noteAttributes]
  keys := by
    rw [note_storage_content]
    apply noteAttributes_keysBelow h.keys
    intro hne
    simp only [Attributes.skips, Bool.and_eq_true, decide_eq_true_eq] at hskips
    exact absurd hskips.1.2 hne
  last := by
    have hlast := h.last
    simp only [note, noteAttributes]
    omega
  pending := by
    have hlast := h.last
    rw [Attributes.endsSkipped_append_singleton, hspacer, ← h.attributes, hskips]
    simp only [note, noteAttributes, Bool.not_false, Bool.and_self, eq_comm (a := true), decide_eq_true_eq]
    omega
  offset := by
    intro hin
    have hlast := h.last
    rw [Attributes.inStep_append_singleton, Attributes.inStep, hspacer, if_neg Bool.false_ne_true, ← h.attributes,
      if_pos hskips] at hin
    simp only [Bool.and_eq_true, decide_eq_true_eq] at hin
    have hoffset := h.offset hin.1
    have hlen : g.len = 1 := by
      rw [← hin.2.1, Grapheme.newFromCell_len hg]
    rw [note_storage_content]
    simp only [note, noteAttributes]
    omega

theorem Behind.stored (hspacer : Cell.isSpacer cell = false)
    (hskips : s.attributes.skips cell = false) (hg : Grapheme.newFromCell cell = some g)
    (hin : s.attributes ≠ .ofCell cell → a.inStep false seen = true) (hprocess : (s.note cell g).process g = some t) :
    t.Behind a (seen ++ [cell]) := by
  have hstores := process_spec hprocess
  have hpending : (s.note cell g).pending = (s.idx - s.lastCell).toNat := by
    simp only [note, noteAttributes, RowPush.pending]
    congr 1
    omega
  have hend : t.storage.content.endOffset = s.storage.content.endOffset + ((s.idx - s.lastCell).toNat + g.len) := by
    rw [foldlM_pushGrapheme_endOffset hstores.content, hpending, List.map_append, List.map_replicate, List.sum_append,
      List.sum_replicate_nat, List.map_singleton, List.sum_singleton, Grapheme.newFromCell_content hg,
      Grapheme.newFromCell_len hg]
    have hempty : byteLen Grapheme.emptyCell.content = 1 := by decide
    rw [hempty, Nat.mul_one]
    rfl
  rw [hstores.frame]
  have hlast := h.last
  refine ⟨?_, ?_, Int.le_refl _, ?_, ?_⟩
  · rw [Attributes.after_append, ← h.attributes]
    simp [Attributes.after, hspacer, note, noteAttributes]
  · have hkeys : (s.noteAttributes cell).storage.KeysBelow t.storage.content.endOffset := by
      apply noteAttributes_keysBelow (h.keys.mono (by omega))
      intro hne
      have hoffset := h.offset (hin hne)
      omega
    exact ⟨hkeys.fgColor, hkeys.bgAndStyle, hkeys.hyperlinkId⟩
  · rw [Attributes.endsSkipped_append_singleton, hspacer, ← h.attributes, hskips]
    simp
  · intro hall
    rw [Attributes.inStep_append_singleton] at hall
    have hoffset := h.offset (Bool.and_eq_true_iff.mp hall).1
    simp only [note, noteAttributes, Int.sub_self, Int.toNat_zero, Nat.add_zero]
    omega

theorem Behind.pushCell (hpush : s.pushCell cell = some t)
    (hin : Cell.isSpacer cell = false → a.after seen ≠ .ofCell cell → a.inStep false seen = true) :
    t.Behind a (seen ++ [cell]) := by
  rw [← h.attributes] at hin
  cases pushCell_cases hpush with
  | inl hcase =>
    rw [hcase.2]
    exact h.spacer hcase.1 _
  | inr hcase =>
    obtain ⟨hspacer, g, hg, hcase⟩ := hcase
    rw [needsProcessing_eq] at hcase
    cases hcase with
    | inl hcase =>
      rw [hcase.2]
      exact h.skipped hspacer (by simpa using hcase.1) hg
    | inr hcase => exact h.stored hspacer (by simpa using hcase.1) hg (hin hspacer) hcase.2

theorem Behind.foldlM {cells : List Cell} (hfold : cells.foldlM RowPush.pushCell s = some t)
    (hin : a.ChangesInStep (seen ++ cells)) : t.Behind a (seen ++ cells) := by
  induction cells generalizing s seen with
  | nil =>
    obtain rfl := Option.some.inj hfold
    rwa [List.append_nil]
  | cons cell cells ih =>
    rw [List.foldlM_cons, Option.bind_eq_bind, Option.bind_eq_some_iff] at hfold
    obtain ⟨u, hpush, hrest⟩ := hfold
    have hu := h.pushCell hpush (hin seen cell cells rfl)
    rw [List.append_cons]
    exact ih hu hrest (by rwa [← List.append_cons])

end RowPush

theorem Attributes.ChangesInStep.left {a : Attributes} {l r : List Cell} (h : a.ChangesInStep (l ++ r)) :
    a.ChangesInStep l := by
  intro before cell after hl
  exact h before cell (after ++ r) (by rw [hl, List.append_assoc, List.cons_append])

namespace FlatStorage

variable {s t : FlatStorage} {attributes : Attributes}

theorem startRow_behind (h : s.KeysBelow s.content.endOffset) (attributes : Attributes) :
    (s.startRow attributes).Behind attributes [] where
  attributes := rfl
  keys := h
  last := Int.le_refl _
  pending := by simp [Attributes.endsSkipped, startRow]
  offset := fun _ => rfl

theorem finish_keysBelow {p : RowPush} (h : p.storage.KeysBelow p.storage.content.endOffset) {rowSoftWraps : Bool}
    (hfinish : p.finish rowSoftWraps = some t) : t.KeysBelow t.content.endOffset := by
  unfold RowPush.finish at hfinish
  split at hfinish
  next =>
    rw [← Option.some.inj hfinish]
    exact ⟨h.fgColor, h.bgAndStyle, h.hyperlinkId⟩
  next =>
    rw [Option.bind_eq_bind, Option.bind_eq_some_iff] at hfinish
    obtain ⟨content, hpush, hnext⟩ := hfinish
    have hend := Content.pushGrapheme_endOffset hpush
    have hmono := h.mono (k := content.endOffset) (by omega)
    rw [← Option.some.inj hnext]
    exact ⟨hmono.fgColor, hmono.bgAndStyle, hmono.hyperlinkId⟩

theorem pushRow_spec {sa ta : FlatStorage × Attributes} {row : Row} (h : pushRow sa row = some ta) :
    ∃ cells p rowSoftWraps, Row.dirtyCells row = some cells ∧
      cells.foldlM RowPush.pushCell (sa.1.startRow sa.2) = some p ∧ Row.softWraps row sa.1.columns = some rowSoftWraps ∧
      p.finish rowSoftWraps = some ta.1 ∧ ta.2 = p.attributes := by
  unfold pushRow at h
  simp only [Option.bind_eq_bind, Option.bind_eq_some_iff] at h
  obtain ⟨cells, hcells, p, hp, wraps, hwraps, t, hfinish, hnext⟩ := h
  rw [← Option.some.inj hnext]
  exact ⟨cells, p, wraps, hcells, hp, hwraps, hfinish, rfl⟩

/-- Every push of an attribute in this loop over rows satisfies what its map asks. -/
def PushesAccepted (s : FlatStorage) (attributes : Attributes) (rows : List Row) : Prop :=
  ∀ before row after sa, rows = before ++ row :: after → before.foldlM pushRow (s, attributes) = some sa →
    ∀ seen cell rest p, Row.dirtyCells row = some (seen ++ cell :: rest) →
      seen.foldlM RowPush.pushCell (sa.1.startRow sa.2) = some p → Cell.isSpacer cell = false → p.NotesAccepted cell

theorem pushRow_keysBelow {sa ta : FlatStorage × Attributes} {row : Row} {rows : List Row}
    (h : sa.1.KeysBelow sa.1.content.endOffset) (hin : sa.2.RowsInStep (row :: rows)) (hpush : pushRow sa row = some ta) :
    ta.1.KeysBelow ta.1.content.endOffset ∧ ta.2.RowsInStep rows := by
  obtain ⟨cells, p, wraps, hcells, hp, -, hfinish, hattributes⟩ := pushRow_spec hpush
  obtain ⟨hchanges, hrest⟩ := hin cells hcells
  have hbehind := (startRow_behind h sa.2).foldlM hp hchanges
  rw [hattributes, hbehind.attributes]
  exact ⟨finish_keysBelow hbehind.keys hfinish, hrest⟩

theorem pushRows_keysBelow {sa ta : FlatStorage × Attributes} {rows : List Row}
    (h : sa.1.KeysBelow sa.1.content.endOffset) (hin : sa.2.RowsInStep rows) (hpush : rows.foldlM pushRow sa = some ta) :
    ta.1.KeysBelow ta.1.content.endOffset := by
  induction rows generalizing sa with
  | nil =>
    obtain rfl := Option.some.inj hpush
    exact h
  | cons row rows ih =>
    rw [List.foldlM_cons, Option.bind_eq_bind, Option.bind_eq_some_iff] at hpush
    obtain ⟨ua, hrow, hrest⟩ := hpush
    obtain ⟨hu, hin⟩ := pushRow_keysBelow h hin hrow
    exact ih hu hin hrest

section

variable (h : s.KeysBelow s.content.endOffset)
include h

theorem pushesAccepted {rows : List Row} (hin : attributes.RowsInStep rows) :
    s.PushesAccepted attributes rows := by
  induction rows generalizing s attributes with
  | nil =>
    intro before row after sa hrows
    simp at hrows
  | cons first rows ih =>
    intro before row after sa hrows hbefore seen cell rest p hcells hp hspacer
    cases before with
    | nil =>
      obtain ⟨rfl, rfl⟩ := List.cons_eq_cons.mp hrows
      obtain rfl := Option.some.inj hbefore
      obtain ⟨hchanges, -⟩ := hin _ hcells
      have hbehind := (startRow_behind h attributes).foldlM hp hchanges.left
      apply hbehind.notesAccepted
      intro hne
      rw [hbehind.attributes] at hne
      exact hchanges seen cell rest rfl hspacer hne
    | cons other before =>
      obtain ⟨rfl, hcons⟩ := List.cons_eq_cons.mp hrows
      rw [List.foldlM_cons, Option.bind_eq_bind, Option.bind_eq_some_iff] at hbefore
      obtain ⟨ua, hrow, hbefore⟩ := hbefore
      obtain ⟨hu, hin⟩ := pushRow_keysBelow h hin hrow
      exact ih hu hin before row after sa hcons hbefore seen cell rest p hcells hp hspacer

theorem truncateRowsFront_keysBelow (count : Nat) :
    (s.truncateRowsFront count).KeysBelow (s.truncateRowsFront count).content.endOffset := by
  unfold truncateRowsFront
  split
  next => exact h
  next => exact ⟨h.fgColor.truncateFront _, h.bgAndStyle.truncateFront _, h.hyperlinkId.truncateFront _⟩

theorem applyMaxRows_keysBelow : s.applyMaxRows.KeysBelow s.applyMaxRows.content.endOffset := by
  unfold applyMaxRows
  split
  next =>
    split
    next => exact truncateRowsFront_keysBelow h _
    next => exact h
  next => exact h

end

theorem truncate_keysBelow {n : Nat} (htruncate : s.truncate n = some t) : t.KeysBelow t.content.endOffset := by
  unfold truncate at htruncate
  simp only [Option.bind_eq_bind, Option.bind_eq_some_iff] at htruncate
  obtain ⟨content, hcontent, hnext⟩ := htruncate
  rw [← Option.some.inj hnext]
  simp only [Content.truncate_endOffset hcontent]
  exact ⟨AttributeMap.keysBelow_truncate _ _, AttributeMap.keysBelow_truncate _ _, AttributeMap.keysBelow_truncate _ _⟩

def Step.rows : Step → List Row
  | .pushRows rows => rows
  | .pushRowsWithoutTruncation rows => rows
  | _ => []

theorem step_keysBelow (h : s.KeysBelow s.content.endOffset) {next : Step} (hin : s.tails.RowsInStep next.rows)
    (hstep : s.step next = some t) : t.KeysBelow t.content.endOffset := by
  have hinternal : ∀ {rows u}, s.tails.RowsInStep rows → s.pushRowsInternal rows = some u →
      u.KeysBelow u.content.endOffset := by
    intro rows u hin hpush
    obtain ⟨ua, hrows, rfl⟩ := Option.map_eq_some_iff.mp hpush
    exact pushRows_keysBelow h hin hrows
  cases next with
  | pushRows rows =>
    obtain ⟨u, hpush, rfl⟩ := Option.map_eq_some_iff.mp hstep
    exact applyMaxRows_keysBelow (hinternal hin hpush)
  | pushRowsWithoutTruncation rows => exact hinternal hin hstep
  | applyMaxRows =>
    obtain rfl := Option.some.inj hstep
    exact applyMaxRows_keysBelow h
  | popRows count =>
    obtain ⟨popped, hpop, rfl⟩ := Option.map_eq_some_iff.mp hstep
    unfold popRows at hpop
    simp only [Option.bind_eq_bind, Option.bind_eq_some_iff] at hpop
    obtain ⟨rows, -, u, htruncate, hnext⟩ := hpop
    rw [← Option.some.inj hnext]
    exact truncate_keysBelow htruncate
  | truncateRowsFront count =>
    obtain rfl := Option.some.inj hstep
    exact truncateRowsFront_keysBelow h count
  | clear => exact truncate_keysBelow hstep
  | setColumns newColumns =>
    change s.setColumns newColumns = some t at hstep
    unfold setColumns at hstep
    split at hstep
    next =>
      obtain rfl := Option.some.inj hstep
      exact h
    next =>
      obtain ⟨index, -, rfl⟩ := Option.map_eq_some_iff.mp hstep
      exact ⟨h.fgColor, h.bgAndStyle, h.hyperlinkId⟩

theorem new_keysBelow (columns : Nat) (maxRows : Option Nat) :
    (new columns maxRows).KeysBelow (new columns maxRows).content.endOffset :=
  ⟨AttributeMap.new_keysBelow _ _, AttributeMap.new_keysBelow _ _, AttributeMap.new_keysBelow _ _⟩

/-- Along the run every pushed row changes its attributes in step. -/
def RunInStep (s : FlatStorage) (steps : List Step) : Prop :=
  ∀ before step after t, steps = before ++ step :: after → s.run before = some t → t.tails.RowsInStep step.rows

/-- Along the run every push of an attribute satisfies what its map asks. -/
def RunAccepted (s : FlatStorage) (steps : List Step) : Prop :=
  ∀ before step after t, steps = before ++ step :: after → s.run before = some t → t.PushesAccepted t.tails step.rows

theorem runAccepted (h : s.KeysBelow s.content.endOffset) {steps : List Step} (hin : s.RunInStep steps) :
    s.RunAccepted steps := by
  have hkeys : ∀ before after t, steps = before ++ after → s.run before = some t → t.KeysBelow t.content.endOffset := by
    intro before
    induction before using List.reverseRecOn with
    | nil =>
      intro after t _ hrun
      obtain rfl := Option.some.inj hrun
      exact h
    | append_singleton before step ih =>
      intro after t hsteps hrun
      rw [List.append_assoc, List.singleton_append] at hsteps
      rw [run, List.foldlM_append, Option.bind_eq_bind, Option.bind_eq_some_iff] at hrun
      obtain ⟨u, hbefore, hstep⟩ := hrun
      rw [List.foldlM_cons, Option.bind_eq_bind, Option.bind_eq_some_iff] at hstep
      obtain ⟨v, hstep, hnil⟩ := hstep
      obtain rfl := Option.some.inj hnil
      exact step_keysBelow (ih _ u hsteps hbefore) (hin before step after u hsteps hbefore) hstep
  intro before step after t hsteps hrun
  exact pushesAccepted (hkeys before _ t hsteps hrun) (hin before step after t hsteps hrun)

end FlatStorage

theorem Attributes.changesInStep_iff {a : Attributes} {cells : List Cell} : a.ChangesInStep cells ↔
    ∀ i : Fin cells.length, Cell.isSpacer cells[i] = false → a.after (cells.take i) ≠ .ofCell cells[i] →
      a.inStep false (cells.take i) = true := by
  constructor
  · intro h i
    exact h (cells.take i) cells[i] (cells.drop (i + 1)) (by
      rw [Fin.getElem_fin, List.cons_getElem_drop_succ, List.take_append_drop])
  · intro h before cell after hcells
    have hlt : before.length < cells.length := by
      rw [hcells, List.length_append, List.length_cons]
      omega
    have hi := h ⟨before.length, hlt⟩
    simpa [hcells] using hi

instance (a : Attributes) (cells : List Cell) : Decidable (a.ChangesInStep cells) :=
  decidable_of_iff _ Attributes.changesInStep_iff.symm

instance Attributes.decidableRowsInStep : (a : Attributes) → (rows : List Row) → Decidable (a.RowsInStep rows)
  | _, [] => isTrue trivial
  | a, row :: rows =>
    match h : Row.dirtyCells row with
    | none => isTrue fun cells hcells => absurd (h.symm.trans hcells) (Option.some_ne_none cells).symm
    | some cells =>
      have := decidableRowsInStep (a.after cells) rows
      decidable_of_iff (a.ChangesInStep cells ∧ (a.after cells).RowsInStep rows) (by simp [RowsInStep, h])

theorem FlatStorage.runInStep_singleton {s : FlatStorage} {step : FlatStorage.Step} (h : s.tails.RowsInStep step.rows) :
    s.RunInStep [step] := by
  intro before other after t hsteps hrun
  cases before with
  | nil =>
    obtain ⟨rfl, -⟩ := List.cons_eq_cons.mp hsteps
    obtain rfl := Option.some.inj hrun
    exact h
  | cons first before => simp at hsteps

/-- A map says what its pushes describe as long as no truncation is at a change and rows change in step. -/
theorem attribute_changes_followed {A : Type} [DecidableEq A] (startingValue : A) (ops : List (AttributeChange A))
    (columns : Nat) (maxRows : Option Nat) (steps : List FlatStorage.Step) :
    ((AttributeChanges.new startingValue).Increasing ops →
      ((∀ i, ((ops.take i).foldl AttributeMap.apply (.new startingValue)).Agrees
          ((ops.take i).foldl AttributeChanges.apply (.new startingValue))) ↔
        ∀ i n, ops[i]? = some (.truncate n) →
          ((ops.take i).foldl AttributeChanges.apply (.new startingValue)).QuietAt n)) ∧
      ((FlatStorage.new columns maxRows).RunInStep steps → (FlatStorage.new columns maxRows).RunAccepted steps) := by
  constructor
  · intro hinc
    exact (AttributeMap.new_represents startingValue).agrees_iff hinc
  · intro hin
    exact FlatStorage.runAccepted (FlatStorage.new_keysBelow columns maxRows) hin

def redCell (c : Char) : Cell := { c, fg := .named .red }

theorem attribute_changes_followed_kept :
    (((([.push 3 true, .truncate 5] : List (AttributeChange Bool)).foldl AttributeMap.apply (.new false)).Agrees
        (([.push 3 true, .truncate 5] : List (AttributeChange Bool)).foldl AttributeChanges.apply (.new false))) ∧
      (FlatStorage.new 2 none).RunAccepted [.pushRows [⟨[{ c := 'a' }, redCell 'b'], 2⟩, ⟨[{}, { c := 'c' }], 2⟩]]) := by
  constructor
  · have hinc : (AttributeChanges.new false).Increasing [.push 3 true, .truncate 5] := by
      refine ⟨?_, ?_, trivial⟩
      · intro start value _ e he
        cases he
      · intro start value heq
        cases heq
    apply ((attribute_changes_followed false [.push 3 true, .truncate 5] 0 none []).1 hinc).mpr _ 2
    intro i n hi
    match i with
    | 0 => cases hi
    | 1 =>
      obtain rfl : 5 = n := by simpa using hi
      decide
    | i + 2 => simp at hi
  · apply (attribute_changes_followed false [] 2 none _).2
    apply FlatStorage.runInStep_singleton
    decide +kernel

def tornRow : Row := ⟨[{}, {}, {}, {}, {}, { flags := { wideCharSpacer := true } }, redCell 'x'], 7⟩

/-- A truncation at a change keeps its value, and the row after a torn one pushes before an earlier change. -/
theorem attribute_changes_lost :
    ¬ ((([.push 3 true, .truncate 3] : List (AttributeChange Bool)).foldl AttributeMap.apply (.new false)).Agrees
        (([.push 3 true, .truncate 3] : List (AttributeChange Bool)).foldl AttributeChanges.apply (.new false))) ∧
      ¬ (FlatStorage.new 7 none).RunAccepted [.pushRows [tornRow, ⟨[{ c := 'y' }], 1⟩]] := by
  constructor
  · intro hagrees
    have hfirst := hagrees 3 (by decide) 1
    revert hfirst
    decide
  · intro haccepted
    have hpushes := haccepted [] _ [] _ rfl rfl
    have hcomputed : (FlatStorage.pushRow (FlatStorage.new 7 none, (FlatStorage.new 7 none).tails) tornRow).map
        (fun sa => decide (sa.2.fgColor = .named .red ∧ ¬ sa.1.fgColorMap.Accepts sa.1.content.endOffset)) =
          some true := by decide +kernel
    obtain ⟨sa, hsa, hstate⟩ := Option.map_eq_some_iff.mp hcomputed
    obtain ⟨hred, hrefused⟩ := of_decide_eq_true hstate
    have hnotes := hpushes [tornRow] _ [] sa rfl (by rw [List.foldlM_cons, hsa]; rfl) [] { c := 'y' } [] _ rfl rfl rfl
    apply hrefused
    apply hnotes.fgColor
    change _ ≠ sa.2.fgColor
    rw [hred]
    decide

end InfiniShell.Scrollback
