import InfiniShell.Scrollback.Runs

namespace InfiniShell.Scrollback

open Collections Terminal

inductive TextUnit where
  | grapheme (g : Grapheme)
  | newline

namespace TextUnit

def len : TextUnit → Nat
  | grapheme g => g.len
  | newline => 1

def content : TextUnit → List Char
  | grapheme g => g.content
  | newline => ['\n']

def totalLen (units : List TextUnit) : Nat := (units.map len).sum

@[simp] theorem totalLen_nil : totalLen [] = 0 := rfl

@[simp] theorem totalLen_cons (u : TextUnit) (units : List TextUnit) : totalLen (u :: units) = u.len + totalLen units := rfl

@[simp] theorem totalLen_append (l r : List TextUnit) : totalLen (l ++ r) = totalLen l + totalLen r := by
  rw [totalLen, List.map_append, List.sum_append]
  rfl

end TextUnit

structure TextRow where
  graphemes : List Grapheme
  newline : Bool
  leading : Bool
deriving DecidableEq

namespace TextRow

def infos (row : TextRow) : List GraphemeInfo := row.graphemes.map Grapheme.sizingInfo

def bytes (row : TextRow) : Nat := bytesOf row.infos + row.newline.toNat

def units (row : TextRow) : List TextUnit :=
  row.graphemes.map .grapheme ++ if row.newline then [.newline] else []

end TextRow

def totalBytes (rows : List TextRow) : Nat := (rows.map TextRow.bytes).sum

@[simp] theorem totalBytes_nil : totalBytes [] = 0 := rfl

@[simp] theorem totalBytes_cons (row : TextRow) (rows : List TextRow) :
    totalBytes (row :: rows) = row.bytes + totalBytes rows := rfl

@[simp] theorem totalBytes_append (l r : List TextRow) : totalBytes (l ++ r) = totalBytes l + totalBytes r := by
  rw [totalBytes, List.map_append, List.sum_append]
  rfl

theorem totalBytes_take_add_drop (rows : List TextRow) (n : Nat) :
    totalBytes (rows.take n) + totalBytes (rows.drop n) = totalBytes rows := by
  rw [← totalBytes_append, List.take_append_drop]

def textOf (rows : List TextRow) : List TextUnit := rows.flatMap TextRow.units

@[simp] theorem textOf_append (l r : List TextRow) : textOf (l ++ r) = textOf l ++ textOf r := List.flatMap_append

theorem bytesOf_graphemes (gs : List Grapheme) :
    bytesOf (gs.map Grapheme.sizingInfo) = TextUnit.totalLen (gs.map .grapheme) := by
  induction gs with
  | nil => rfl
  | cons g gs ih =>
    rw [List.map_cons, bytesOf_cons, List.map_cons, TextUnit.totalLen_cons, ih]
    rfl

theorem TextRow.bytes_eq (row : TextRow) : row.bytes = TextUnit.totalLen row.units := by
  rw [TextRow.bytes, TextRow.infos, bytesOf_graphemes, TextRow.units, TextUnit.totalLen_append]
  cases row.newline <;> rfl

theorem totalBytes_eq (rows : List TextRow) : totalBytes rows = TextUnit.totalLen (textOf rows) := by
  induction rows with
  | nil => rfl
  | cons row rows ih =>
    rw [totalBytes_cons, TextRow.bytes_eq, ih, ← TextUnit.totalLen_append]
    rfl

def sizingOf : List GraphemeRun → GraphemeSizing
  | [] => .emptyRow
  | [run] => .uniform run
  | _ => .nonUniform

structure Entry.Describes (sizings : BTreeMap Nat (List GraphemeRun)) (offset : Nat) (entry : Entry) (row : TextRow) :
    Prop where
  start : entry.contentOffset = offset
  newline : entry.hasTrailingNewline = row.newline
  leading : entry.endsWithLeadingWideCharSpacer = row.leading
  runs : ∃ runs, Encodes row.infos runs ∧ entry.graphemeSizing = sizingOf runs ∧
    (sizingOf runs = .nonUniform → sizings.get offset = some runs)

inductive Lays (sizings : BTreeMap Nat (List GraphemeRun)) : Nat → List Entry → List TextRow → Prop
  | nil (offset : Nat) : Lays sizings offset [] []
  | cons {offset : Nat} {entry : Entry} {row : TextRow} {entries : List Entry} {rows : List TextRow} :
      entry.Describes sizings offset row → Lays sizings (offset + row.bytes) entries rows →
        Lays sizings offset (entry :: entries) (row :: rows)

variable {sizings next : BTreeMap Nat (List GraphemeRun)} {offset : Nat} {entries : List Entry} {rows : List TextRow}

variable {entry : Entry}

theorem Entry.Describes.congr {row : TextRow} (h : entry.Describes sizings offset row)
    (hget : 0 < row.bytes → next.get offset = sizings.get offset) : entry.Describes next offset row := by
  obtain ⟨runs, hencodes, hsizing, hkey⟩ := h.runs
  refine ⟨h.start, h.newline, h.leading, runs, hencodes, hsizing, ?_⟩
  intro hnonUniform
  have hne : row.infos ≠ [] := by
    intro hnil
    rw [hencodes.nil_iff.mpr hnil] at hnonUniform
    cases hnonUniform
  obtain ⟨info, infos, hinfos⟩ := List.exists_cons_of_ne_nil hne
  have hbytes : 0 < row.bytes := by
    have hpos := info.pos
    rw [TextRow.bytes, hinfos, bytesOf_cons]
    omega
  rw [hget hbytes, hkey hnonUniform]

theorem Lays.congr (h : Lays sizings offset entries rows)
    (hget : ∀ k, offset ≤ k → k < offset + totalBytes rows → next.get k = sizings.get k) :
    Lays next offset entries rows := by
  induction h with
  | nil offset => exact .nil offset
  | cons hentry hrest ih =>
    rename_i offset entry row entries rows
    apply Lays.cons
    · apply hentry.congr
      intro hpos
      apply hget offset (Nat.le_refl _)
      rw [totalBytes_cons]
      omega
    · apply ih
      intro k hle hlt
      apply hget k (by omega)
      rw [totalBytes_cons]
      omega

theorem Lays.length (h : Lays sizings offset entries rows) : entries.length = rows.length := by
  induction h with
  | nil => rfl
  | cons _ _ ih => rw [List.length_cons, List.length_cons, ih]

theorem Lays.append {entries' : List Entry} {rows' : List TextRow} (h : Lays sizings offset entries rows)
    (h' : Lays sizings (offset + totalBytes rows) entries' rows') :
    Lays sizings offset (entries ++ entries') (rows ++ rows') := by
  induction h with
  | nil => exact h'
  | cons hentry _ ih =>
    apply Lays.cons hentry
    apply ih
    rwa [totalBytes_cons, ← Nat.add_assoc] at h'

theorem Lays.take (h : Lays sizings offset entries rows) (n : Nat) :
    Lays sizings offset (entries.take n) (rows.take n) := by
  induction h generalizing n with
  | nil offset =>
    rw [List.take_nil, List.take_nil]
    exact .nil offset
  | cons hentry _ ih =>
    cases n with
    | zero => exact .nil _
    | succ n => exact .cons hentry (ih n)

theorem Lays.drop (h : Lays sizings offset entries rows) (n : Nat) :
    Lays sizings (offset + totalBytes (rows.take n)) (entries.drop n) (rows.drop n) := by
  induction h generalizing n with
  | nil offset =>
    rw [List.drop_nil, List.drop_nil]
    exact .nil _
  | cons hentry hrest ih =>
    cases n with
    | zero => exact .cons hentry hrest
    | succ n =>
      have hdrop := ih n
      rw [Nat.add_assoc, ← totalBytes_cons] at hdrop
      exact hdrop

theorem Lays.get (h : Lays sizings offset entries rows) {i : Nat} (hentry : entries[i]? = some entry) :
    ∃ row, rows[i]? = some row ∧ entry.Describes sizings (offset + totalBytes (rows.take i)) row := by
  induction h generalizing i with
  | nil => simp at hentry
  | cons hdescribes _ ih =>
    cases i with
    | zero =>
      obtain rfl := Option.some.inj hentry
      exact ⟨_, rfl, hdescribes⟩
    | succ i =>
      obtain ⟨row, hrow, hget⟩ := ih hentry
      rw [Nat.add_assoc, ← totalBytes_cons] at hget
      exact ⟨row, hrow, hget⟩

theorem Lays.getElem?_map_contentOffset (h : Lays sizings offset entries rows) (i : Nat) :
    entries[i]?.map Entry.contentOffset = if i < rows.length then some (offset + totalBytes (rows.take i)) else none := by
  split
  next hlt =>
    rw [← h.length] at hlt
    obtain ⟨row, -, hdescribes⟩ := h.get (List.getElem?_eq_getElem hlt)
    rw [List.getElem?_eq_getElem hlt, Option.map_some, hdescribes.start]
  next hge =>
    rw [List.getElem?_eq_none (by rw [h.length]; omega)]
    rfl

namespace Index

variable {index : Index} {front : Nat}

/-- The index is that of these rows, the first of which starts at `front`. -/
structure Holds (index : Index) (front : Nat) (rows : List TextRow) : Prop where
  entries : Lays index.graphemeSizing front index.rows rows
  contentLen : index.contentLen = front + totalBytes rows

variable {row : TextRow}

theorem runsOfEntry_eq (h : entry.Describes index.graphemeSizing offset row) :
    ∃ runs, Encodes row.infos runs ∧ entry.graphemeSizing = sizingOf runs ∧ index.runsOfEntry entry = some runs := by
  obtain ⟨runs, hencodes, hsizing, hkey⟩ := h.runs
  refine ⟨runs, hencodes, hsizing, ?_⟩
  unfold runsOfEntry
  rw [hsizing, h.start]
  match runs with
  | [] => rfl
  | [run] => rfl
  | first :: second :: rest => exact hkey rfl

theorem Holds.len (h : index.Holds front rows) : index.len = rows.length := h.entries.length

theorem Holds.contentOffsetForRow (h : index.Holds front rows) (i : Nat) :
    index.contentOffsetForRow i = if i < rows.length then some (front + totalBytes (rows.take i)) else none :=
  h.entries.getElem?_map_contentOffset i

variable {i : Nat}

theorem Holds.getEntry (h : index.Holds front rows) (hrow : rows[i]? = some row) :
    ∃ entry, index.getEntry i = some entry ∧
      entry.Describes index.graphemeSizing (front + totalBytes (rows.take i)) row := by
  have hlt := (List.getElem?_eq_some_iff.mp hrow).1
  rw [← h.entries.length] at hlt
  obtain ⟨row', hrow', hdescribes⟩ := h.entries.get (List.getElem?_eq_getElem hlt)
  obtain rfl := Option.some.inj (hrow.symm.trans hrow')
  exact ⟨_, List.getElem?_eq_getElem hlt, hdescribes⟩

theorem Holds.graphemeInfosForRow (h : index.Holds front rows) (hrow : rows[i]? = some row) :
    index.graphemeInfosForRow i = some row.infos := by
  obtain ⟨entry, hentry, hdescribes⟩ := h.getEntry hrow
  obtain ⟨runs, hencodes, -, hruns⟩ := runsOfEntry_eq hdescribes
  rw [Index.graphemeInfosForRow, graphemeRunsForRow, hentry, Option.bind_eq_bind, Option.bind_some, hruns,
    Option.map_some, hencodes.expand]

theorem new_holds (columns : Nat) : (new columns).Holds 0 [] := ⟨.nil 0, rfl⟩

end Index

structure EntryBuilder.Builds (b : EntryBuilder) (row : TextRow) : Prop where
  runs : Encodes row.infos b.graphemeRuns
  bytes : b.incrContentOffset = row.bytes
  newline : b.hasTrailingNewline = row.newline
  leading : b.endsWithLeadingWideCharSpacer = row.leading

namespace EntryBuilder

variable {b : EntryBuilder} {row : TextRow} {index : Index} {front : Nat}

theorem new_builds : ({} : EntryBuilder).Builds ⟨[], false, false⟩ := ⟨Encodes.nil, rfl, rfl, rfl⟩

variable {gs : List Grapheme} {leading : Bool}

theorem Builds.push (h : b.Builds ⟨gs, false, leading⟩) {g : Grapheme}
    {next : EntryBuilder} (hpush : b.processGraphemeInfoUnchecked g.sizingInfo = some next) :
    next.Builds ⟨gs ++ [g], false, leading⟩ := by
  unfold processGraphemeInfoUnchecked at hpush
  rw [Option.bind_eq_bind, Option.bind_eq_some_iff] at hpush
  obtain ⟨runs, hruns, hnext⟩ := hpush
  obtain rfl := Option.some.inj hnext
  have hinfos : (TextRow.mk (gs ++ [g]) false leading).infos =
      (TextRow.mk gs false leading).infos ++ [g.sizingInfo] := by
    rw [TextRow.infos, List.map_append]
    rfl
  refine ⟨?_, ?_, h.newline, h.leading⟩
  · rw [hinfos]
    exact h.runs.push hruns
  · have hbytes := h.bytes
    simp only [TextRow.bytes, Bool.toNat_false, Nat.add_zero] at hbytes ⊢
    rw [hinfos, bytesOf_append, hbytes]
    rfl

theorem Builds.newline_row (h : b.Builds ⟨gs, false, leading⟩) :
    b.addTrailingNewline.Builds ⟨gs, true, leading⟩ := by
  refine ⟨h.runs, ?_, rfl, h.leading⟩
  have hbytes := h.bytes
  have hsize : '\n'.utf8Size = 1 := by decide
  simp only [TextRow.bytes, TextRow.infos, addTrailingNewline, Bool.toNat_false, Bool.toNat_true, Nat.add_zero] at hbytes ⊢
  rw [hbytes, hsize]

theorem Builds.leading_row {newline leading : Bool} (h : b.Builds ⟨gs, newline, leading⟩) :
    b.addLeadingWideCharSpacer.Builds ⟨gs, newline, true⟩ := ⟨h.runs, h.bytes, h.newline, rfl⟩

theorem Builds.appendToIndex (h : b.Builds row) (hindex : index.Holds front rows) :
    (b.appendToIndex index).Holds front (rows ++ [row]) := by
  have hsizings : (b.appendToIndex index).graphemeSizing = if sizingOf b.graphemeRuns = .nonUniform then
      index.graphemeSizing.insert index.contentLen b.graphemeRuns else index.graphemeSizing := by
    unfold EntryBuilder.appendToIndex
    match b.graphemeRuns with
    | [] => rfl
    | [run] => rfl
    | first :: second :: rest => rfl
  have hrows : (b.appendToIndex index).rows =
      index.rows ++ [⟨index.contentLen, sizingOf b.graphemeRuns, b.hasTrailingNewline, b.endsWithLeadingWideCharSpacer⟩] := by
    unfold EntryBuilder.appendToIndex
    match b.graphemeRuns with
    | [] => rfl
    | [run] => rfl
    | first :: second :: rest => rfl
  have hlen : (b.appendToIndex index).contentLen = index.contentLen + b.incrContentOffset := rfl
  refine ⟨?_, ?_⟩
  · rw [hrows]
    apply Lays.append
    · apply hindex.entries.congr
      intro k _ hlt
      rw [hsizings]
      split
      next =>
        rw [BTreeMap.get_insert, if_neg]
        rw [hindex.contentLen]
        omega
      next => rfl
    · apply Lays.cons _ (.nil _)
      refine ⟨hindex.contentLen, h.newline, h.leading, b.graphemeRuns, h.runs, rfl, ?_⟩
      intro hnonUniform
      rw [hsizings, if_pos hnonUniform, BTreeMap.get_insert, hindex.contentLen, if_pos rfl]
  · rw [hlen, hindex.contentLen, h.bytes, totalBytes_append, Nat.add_assoc]
    rfl

end EntryBuilder

namespace Index

variable {index : Index} {front : Nat}

theorem Holds.truncate (h : index.Holds front rows) (n : Nat) :
    (index.truncate n).1.Holds front (rows.take n) ∧ (index.truncate n).2 = front + totalBytes (rows.take n) := by
  unfold Index.truncate
  rw [h.contentOffsetForRow]
  by_cases hlt : n < rows.length
  · rw [if_pos hlt]
    refine ⟨⟨?_, rfl⟩, rfl⟩
    apply (h.entries.take n).congr
    intro k _ hk
    exact (BTreeMap.get_below _ _ _).trans (if_pos hk)
  · rw [if_neg hlt, List.take_of_length_le (Nat.not_lt.mp hlt)]
    exact ⟨h, h.contentLen⟩

theorem Holds.truncateFront (h : index.Holds front rows) (n : Nat) :
    (index.truncateFront n).1.Holds (front + totalBytes (rows.take n)) (rows.drop n) ∧
      (index.truncateFront n).2 = front + totalBytes (rows.take n) := by
  have hstart : (index.contentOffsetForRow n).getD index.contentLen = front + totalBytes (rows.take n) := by
    rw [h.contentOffsetForRow]
    by_cases hlt : n < rows.length
    · rw [if_pos hlt]
      rfl
    · rw [if_neg hlt, Option.getD_none, h.contentLen, List.take_of_length_le (Nat.not_lt.mp hlt)]
  refine ⟨⟨?_, ?_⟩, hstart⟩
  · apply (h.entries.drop n).congr
    intro k hk _
    rw [← hstart] at hk
    exact (BTreeMap.get_atLeast _ _ _).trans (if_pos hk)
  · change index.contentLen = _
    rw [h.contentLen, Nat.add_assoc, totalBytes_take_add_drop]

end Index

end InfiniShell.Scrollback

namespace InfiniShell.Scrollback

/-- Rows that are finished, and the graphemes of the next one. -/
structure Wrapping where
  done : List TextRow := []
  current : List Grapheme := []

namespace Wrapping

def cells (w : Wrapping) : Nat := colsOf (w.current.map Grapheme.sizingInfo)

/-- A grapheme that does not fit starts a row; a wide one may leave the last cell to a spacer. -/
def addGrapheme (columns : Nat) (w : Wrapping) (g : Grapheme) : Wrapping :=
  if columns < w.cells + g.cellWidth then
    { done := w.done ++ [⟨w.current, false, 1 < g.cellWidth && w.cells ≠ columns⟩], current := [g] }
  else { w with current := w.current ++ [g] }

def addNewline (w : Wrapping) : Wrapping := { done := w.done ++ [⟨w.current, true, false⟩] }

def add (columns : Nat) (w : Wrapping) : TextUnit → Wrapping
  | .grapheme g => w.addGrapheme columns g
  | .newline => w.addNewline

def rows (w : Wrapping) : List TextRow :=
  if w.current = [] then w.done else w.done ++ [⟨w.current, false, false⟩]

end Wrapping

def rewrap (columns : Nat) (text : List TextUnit) : List TextRow := (text.foldl (Wrapping.add columns) {}).rows

def Wrapping.text (w : Wrapping) : List TextUnit := textOf w.done ++ w.current.map .grapheme

theorem Wrapping.add_text (columns : Nat) (w : Wrapping) (u : TextUnit) : (w.add columns u).text = w.text ++ [u] := by
  cases u with
  | newline => simp [Wrapping.add, addNewline, Wrapping.text, textOf, TextRow.units]
  | grapheme g =>
    unfold Wrapping.add addGrapheme
    simp only
    split <;> simp [Wrapping.text, textOf, TextRow.units]

theorem Wrapping.rows_text (w : Wrapping) : textOf w.rows = w.text := by
  unfold Wrapping.rows
  split
  next hnil => simp [Wrapping.text, hnil]
  next => simp [Wrapping.text, textOf, TextRow.units]

theorem rewrap_text (columns : Nat) (text : List TextUnit) : textOf (rewrap columns text) = text := by
  have hfold : ∀ (text : List TextUnit) (w : Wrapping), (text.foldl (Wrapping.add columns) w).text = w.text ++ text := by
    intro text
    induction text with
    | nil => simp
    | cons u text ih =>
      intro w
      rw [List.foldl_cons, ih, w.add_text, List.append_assoc, List.singleton_append]
  rw [rewrap, Wrapping.rows_text, hfold]
  rfl

def Stored (rows : List TextRow) (g : Grapheme) : Prop := ∃ row ∈ rows, g ∈ row.graphemes

variable {rows : List TextRow} {g : Grapheme}

theorem stored_iff : Stored rows g ↔ TextUnit.grapheme g ∈ textOf rows := by
  rw [textOf, List.mem_flatMap]
  constructor
  · rintro ⟨row, hrow, hg⟩
    exact ⟨row, hrow, List.mem_append_left _ (List.mem_map_of_mem hg)⟩
  · rintro ⟨row, hrow, hg⟩
    refine ⟨row, hrow, ?_⟩
    cases List.mem_append.mp hg with
    | inl hg =>
      obtain ⟨g', hg', heq⟩ := List.mem_map.mp hg
      obtain rfl := TextUnit.grapheme.inj heq
      exact hg'
    | inr hg =>
      split at hg <;> simp at hg

structure Wraps (columns front : Nat) (w : Wrapping) (s : EntryBuilder × Index) : Prop where
  index : s.2.Holds front w.done
  builder : s.1.Builds ⟨w.current, false, false⟩
  cells : s.1.numCells = w.cells
  columns : s.2.columns = columns

variable {columns front : Nat} {w : Wrapping} {s t : EntryBuilder × Index}

theorem EntryBuilder.processGraphemeInfoUnchecked_numCells {b next : EntryBuilder} {info : GraphemeInfo}
    (h : b.processGraphemeInfoUnchecked info = some next) : next.numCells = b.numCells := by
  unfold processGraphemeInfoUnchecked at h
  rw [Option.bind_eq_bind, Option.bind_eq_some_iff] at h
  obtain ⟨runs, -, hnext⟩ := h
  rw [← Option.some.inj hnext]

section

variable (h : Wraps columns front w s)
include h

theorem Wraps.processGraphemeInfo (hwidth : g.cellWidth ≠ 0)
    (hprocess : s.1.processGraphemeInfo g.sizingInfo s.2 = some t) : Wraps columns front (w.addGrapheme columns g) t := by
  unfold EntryBuilder.processGraphemeInfo at hprocess
  have hne : g.sizingInfo.cellWidth ≠ 0 := hwidth
  rw [if_neg hne] at hprocess
  simp only [Option.bind_eq_bind, Option.bind_eq_some_iff] at hprocess
  obtain ⟨b, hb, hnext⟩ := hprocess
  obtain rfl := Option.some.inj hnext
  have hinfo : g.sizingInfo.cellWidth = g.cellWidth := rfl
  rw [h.cells, h.columns, hinfo] at hb
  rw [h.cells, h.columns, hinfo]
  unfold Wrapping.addGrapheme
  split
  next hfull =>
    rw [if_pos hfull] at hb
    simp only at hb
    refine ⟨?_, ?_, ?_, ?_⟩
    · apply EntryBuilder.Builds.appendToIndex _ h.index
      split
      next hlead =>
        have hdecide : (decide (1 < g.cellWidth) && decide (w.cells ≠ columns)) = true := by simpa using hlead
        rw [hdecide]
        exact h.builder.leading_row
      next hlead =>
        have hdecide : (decide (1 < g.cellWidth) && decide (w.cells ≠ columns)) = false := by
          rw [Bool.eq_false_iff]
          simpa using hlead
        rw [hdecide]
        exact h.builder
    · have hfresh : EntryBuilder.Builds { numCells := 0 + g.cellWidth } ⟨[], false, false⟩ :=
        ⟨Encodes.nil, rfl, rfl, rfl⟩
      exact hfresh.push hb
    · rw [EntryBuilder.processGraphemeInfoUnchecked_numCells hb]
      simp [Wrapping.cells, hinfo]
    · exact h.columns
  next hfits =>
    rw [if_neg hfits] at hb
    refine ⟨h.index, ?_, ?_, h.columns⟩
    · have hbuilds : EntryBuilder.Builds { s.1 with numCells := s.1.numCells + g.cellWidth } ⟨w.current, false, false⟩ :=
        ⟨h.builder.runs, h.builder.bytes, h.builder.newline, h.builder.leading⟩
      exact hbuilds.push hb
    · rw [EntryBuilder.processGraphemeInfoUnchecked_numCells hb]
      change s.1.numCells + g.cellWidth = _
      rw [h.cells]
      simp [Wrapping.cells, hinfo]

theorem Wraps.processNewline : Wraps columns front w.addNewline (s.1.processNewline s.2) where
  index := h.builder.newline_row.appendToIndex h.index
  builder := EntryBuilder.new_builds
  cells := rfl
  columns := h.columns

theorem Wraps.foldlM {gs : List Grapheme} (hwidth : ∀ g ∈ gs, g.cellWidth ≠ 0)
    (hfold : (gs.map Grapheme.sizingInfo).foldlM (fun s info => s.1.processGraphemeInfo info s.2) s = some t) :
    Wraps columns front ((gs.map TextUnit.grapheme).foldl (Wrapping.add columns) w) t := by
  induction gs generalizing s w with
  | nil =>
    obtain rfl := Option.some.inj hfold
    exact h
  | cons g gs ih =>
    rw [List.map_cons, List.foldlM_cons, Option.bind_eq_bind, Option.bind_eq_some_iff] at hfold
    obtain ⟨u, hu, hrest⟩ := hfold
    exact ih (h.processGraphemeInfo (hwidth g List.mem_cons_self) hu)
      (fun g hg => hwidth g (List.mem_cons_of_mem _ hg)) hrest

theorem Wraps.rebuildRow {old : Index} {oldFront : Nat}
    (hold : old.Holds oldFront rows) {i : Nat} {row : TextRow} (hrow : rows[i]? = some row)
    (hwidth : ∀ g ∈ row.graphemes, g.cellWidth ≠ 0) {entry : Entry} (hentry : old.getEntry i = some entry)
    (hrebuild : old.rebuildRow i entry s = some t) :
    Wraps columns front (row.units.foldl (Wrapping.add columns) w) t := by
  obtain ⟨entry', hentry', hdescribes⟩ := hold.getEntry hrow
  obtain rfl := Option.some.inj (hentry.symm.trans hentry')
  unfold Index.rebuildRow at hrebuild
  rw [hold.graphemeInfosForRow hrow, Option.getD_some, Option.bind_eq_bind, Option.bind_eq_some_iff] at hrebuild
  obtain ⟨u, hfold, hnext⟩ := hrebuild
  have hu := h.foldlM hwidth hfold
  rw [TextRow.units, List.foldl_append, ← Option.some.inj hnext, hdescribes.newline]
  split
  next => exact hu.processNewline
  next => exact hu

end

theorem Index.Holds.rebuild {old next : Index} (hold : old.Holds front rows)
    (hwidth : ∀ g, Stored rows g → g.cellWidth ≠ 0) (hrebuild : old.rebuild columns = some next) :
    next.Holds front (rewrap columns (textOf rows)) ∧ next.columns = columns := by
  unfold Index.rebuild at hrebuild
  simp only [Option.bind_eq_bind, Option.bind_eq_some_iff] at hrebuild
  obtain ⟨t, hfold, hnext⟩ := hrebuild
  have hstart : (old.rows.head?.map Entry.contentOffset).getD old.contentLen = front := by
    have hfirst := hold.contentOffsetForRow 0
    rw [Index.contentOffsetForRow, ← List.head?_eq_getElem?] at hfirst
    rw [hfirst]
    split
    next => simp
    next hempty =>
      have hnil : rows = [] := List.eq_nil_of_length_eq_zero (Nat.eq_zero_of_not_pos hempty)
      rw [Option.getD_none, hold.contentLen, hnil]
      rfl
  rw [hstart] at hfold
  -- The loop over the rows `i` and later, after the text of the rows before.
  have hloop : ∀ (entries : List Entry) (i : Nat) (w : Wrapping) (s : EntryBuilder × Index),
      old.rows.drop i = entries → Wraps columns front w s →
        (entries.zipIdx i).foldlM (fun s e => old.rebuildRow e.2 e.1 s) s = some t →
          Wraps columns front ((textOf (rows.drop i)).foldl (Wrapping.add columns) w) t := by
    intro entries
    induction entries with
    | nil =>
      intro i w s hdrop hs hfold
      have hlen := List.drop_eq_nil_iff.mp hdrop
      rw [hold.entries.length] at hlen
      obtain rfl := Option.some.inj hfold
      rw [List.drop_eq_nil_iff.mpr hlen]
      exact hs
    | cons entry entries ih =>
      intro i w s hdrop hs hfold
      have hlt : i < old.rows.length := by
        apply Nat.lt_of_not_le
        intro hle
        rw [List.drop_eq_nil_iff.mpr hle] at hdrop
        cases hdrop
      rw [List.drop_eq_getElem_cons hlt] at hdrop
      obtain ⟨hentry, hrest⟩ := List.cons_eq_cons.mp hdrop
      have hltrow := hlt
      rw [hold.entries.length] at hltrow
      rw [List.zipIdx_cons, List.foldlM_cons, Option.bind_eq_bind, Option.bind_eq_some_iff] at hfold
      obtain ⟨u, hrow, hfold⟩ := hfold
      have hget : old.getEntry i = some entry := by
        rw [Index.getEntry, List.getElem?_eq_getElem hlt, hentry]
      have hu := hs.rebuildRow hold (List.getElem?_eq_getElem hltrow)
        (fun g hg => hwidth g ⟨_, List.getElem_mem hltrow, hg⟩) hget hrow
      have hall := ih (i + 1) _ u hrest hu hfold
      rw [List.drop_eq_getElem_cons hltrow]
      change Wraps columns front (((rows[i].units ++ textOf (rows.drop (i + 1)))).foldl (Wrapping.add columns) w) t
      rw [List.foldl_append]
      exact hall
  have hstart : Wraps columns front {} ({}, { Index.new columns with contentLen := front }) :=
    ⟨⟨.nil front, rfl⟩, EntryBuilder.new_builds, rfl, rfl⟩
  have hend := hloop old.rows 0 {} _ rfl hstart hfold
  rw [← Option.some.inj hnext, rewrap]
  unfold EntryBuilder.appendToIndexIfNonempty Wrapping.rows
  rw [List.drop_zero] at hend
  generalize (textOf rows).foldl (Wrapping.add columns) {} = w at hend ⊢
  have hempty : t.1.isEmpty = true ↔ w.current = [] := by
    have hruns := hend.builder.runs.nil_iff
    have hbytes := hend.builder.bytes
    simp only [TextRow.bytes, TextRow.infos, Bool.toNat_false, Nat.add_zero] at hruns hbytes
    rw [List.map_eq_nil_iff] at hruns
    rw [EntryBuilder.isEmpty, hend.builder.newline, hend.builder.leading, hbytes]
    simp only [Bool.not_false, Bool.and_true, Bool.and_eq_true, decide_eq_true_eq, List.isEmpty_iff, hruns]
    constructor
    · exact fun h => h.2
    · intro hnil
      rw [hnil]
      exact ⟨rfl, rfl⟩
  by_cases hcurrent : w.current = []
  · rw [if_pos (hempty.mpr hcurrent), if_pos hcurrent]
    exact ⟨hend.index, hend.columns⟩
  · rw [if_neg (mt hempty.mp hcurrent), if_neg hcurrent]
    exact ⟨hend.builder.appendToIndex hend.index, hend.columns⟩

end InfiniShell.Scrollback
