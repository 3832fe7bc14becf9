import InfiniShell.Scrollback.AttributeMap
import InfiniShell.Scrollback.Index

namespace InfiniShell.Scrollback

open Collections Terminal

structure EndOfPromptMarker where
  offset : Nat
  hasExtraTrailingNewline : Bool

structure FlatStorage where
  content : Content
  index : Index
  columns : Nat
  fgColorMap : AttributeMap Color
  bgAndStyleMap : AttributeMap BgAndStyle
  hyperlinkIdMap : AttributeMap (Option Nat)
  endOfPromptMarker : Option EndOfPromptMarker
  maxRows : Option Nat
  numTruncatedRows : Nat

structure Attributes where
  fgColor : Color
  bgAndStyle : BgAndStyle
  hyperlinkId : Option Nat
deriving DecidableEq

def Attributes.ofCell (cell : Cell) : Attributes := ⟨cell.fg, .ofCell cell, cell.hyperlinkId⟩

def Cell.isSpacer (cell : Cell) : Bool := cell.flags.wideCharSpacer || cell.flags.leadingWideCharSpacer

structure RowPush where
  storage : FlatStorage
  attributes : Attributes
  builder : EntryBuilder := {}
  lastCell : Int := -1
  offset : Nat
  idx : Int := -1

namespace RowPush

/-- Whether the cell is stored at once: it is not empty, changes an attribute or ends the prompt. -/
def needsProcessing (s : RowPush) (cell : Cell) : Bool :=
  !cell.isEmpty || cell.fg ≠ s.attributes.fgColor || s.attributes.bgAndStyle ≠ .ofCell cell
    || s.attributes.hyperlinkId ≠ cell.hyperlinkId || cell.endOfPromptMarker.isSome

def noteAttributes (s : RowPush) (cell : Cell) : RowPush :=
  let old := s.attributes
  let storage := s.storage
  { s with
    attributes := .ofCell cell
    storage := { storage with
      fgColorMap :=
        if cell.fg ≠ old.fgColor then storage.fgColorMap.pushAttributeChange s.offset cell.fg else storage.fgColorMap
      bgAndStyleMap :=
        if old.bgAndStyle ≠ .ofCell cell then
          storage.bgAndStyleMap.pushAttributeChange s.offset (.ofCell cell)
        else storage.bgAndStyleMap
      hyperlinkIdMap :=
        if old.hyperlinkId ≠ cell.hyperlinkId then
          storage.hyperlinkIdMap.pushAttributeChange s.offset cell.hyperlinkId
        else storage.hyperlinkIdMap
      endOfPromptMarker := match cell.endOfPromptMarker with
        | some marker => some ⟨s.offset, marker.hasExtraTrailingNewline⟩
        | none => storage.endOfPromptMarker } }

def store (s : RowPush) (g : Grapheme) : Option RowPush := do
  let builder ← s.builder.processGraphemeInfoUnchecked g.sizingInfo
  let content ← s.storage.content.pushGrapheme g
  some { s with builder, storage := { s.storage with content } }

/-- Adds the empty cells back that were skipped before a cell with content. -/
def storeEmpty : Nat → RowPush → Option RowPush
  | 0, s => some s
  | count + 1, s => s.store .emptyCell >>= storeEmpty count

/-- The empty cells are those from behind the last stored cell to the one before this. -/
def process (s : RowPush) (g : Grapheme) : Option RowPush := do
  let s ← storeEmpty (s.idx - 1 - s.lastCell).toNat s
  RowPush.store { s with lastCell := s.idx } g

def pushCell (s : RowPush) (cell : Cell) : Option RowPush :=
  let s := { s with idx := s.idx + 1 }
  if Cell.isSpacer cell then
    some { s with
      builder := if cell.flags.leadingWideCharSpacer then s.builder.addLeadingWideCharSpacer else s.builder
      lastCell := s.idx }
  else do
    let needed := s.needsProcessing cell
    let s := s.noteAttributes cell
    let g ← Grapheme.newFromCell cell
    let s := { s with offset := s.offset + g.len }
    if needed then s.process g else some s

end RowPush

namespace FlatStorage

def new (columns : Nat) (maxRows : Option Nat) : FlatStorage where
  content := .new
  index := .new columns
  columns := columns
  fgColorMap := .new (.named .foreground)
  bgAndStyleMap := .new {}
  hyperlinkIdMap := .new none
  endOfPromptMarker := none
  maxRows := maxRows
  numTruncatedRows := 0

def tails (s : FlatStorage) : Attributes := ⟨s.fgColorMap.tail, s.bgAndStyleMap.tail, s.hyperlinkIdMap.tail⟩

def totalRows (s : FlatStorage) : Nat := s.index.len

def startRow (s : FlatStorage) (attributes : Attributes) : RowPush :=
  { storage := s, attributes, offset := s.content.endOffset }

end FlatStorage

def Row.dirtyCells (row : Row) : Option (List Cell) :=
  if row.occ ≤ row.inner.length then some (row.inner.take row.occ) else none

/-- Whether the last cell of a full row is marked as wrapped. -/
def Row.softWraps (row : Row) (columns : Nat) : Option Bool :=
  if row.occ ≠ columns then some false
  else if columns = 0 then none
  else row.inner[columns - 1]?.map fun cell => cell.flags.wrapline

def RowPush.finish (s : RowPush) (rowSoftWraps : Bool) : Option FlatStorage := do
  if rowSoftWraps then
    some { s.storage with index := s.builder.appendToIndex s.storage.index }
  else
    let content ← s.storage.content.pushGrapheme .newline
    some { s.storage with content, index := s.builder.addTrailingNewline.appendToIndex s.storage.index }

namespace FlatStorage

def pushRow (s : FlatStorage × Attributes) (row : Row) : Option (FlatStorage × Attributes) := do
  let cells ← Row.dirtyCells row
  let push ← cells.foldlM RowPush.pushCell (s.1.startRow s.2)
  let storage ← push.finish (← Row.softWraps row s.1.columns)
  some (storage, push.attributes)

/-- `none` is a panic. -/
def pushRowsInternal (s : FlatStorage) (rows : List Row) : Option FlatStorage :=
  (rows.foldlM pushRow (s, s.tails)).map Prod.fst

def truncateRowsFront (s : FlatStorage) (count : Nat) : FlatStorage :=
  if count = 0 then s
  else
    let count := min count s.totalRows
    let (index, newStartOffset) := s.index.truncateFront count
    { s with
      index
      content := s.content.truncateFront newStartOffset
      fgColorMap := s.fgColorMap.truncateFront newStartOffset
      bgAndStyleMap := s.bgAndStyleMap.truncateFront newStartOffset
      hyperlinkIdMap := s.hyperlinkIdMap.truncateFront newStartOffset
      numTruncatedRows := s.numTruncatedRows + count }

def applyMaxRows (s : FlatStorage) : FlatStorage :=
  match s.maxRows with
  | some maxRows => if maxRows ≤ s.index.len then s.truncateRowsFront (s.index.len - maxRows) else s
  | none => s

def pushRows (s : FlatStorage) (rows : List Row) : Option FlatStorage :=
  (s.pushRowsInternal rows).map applyMaxRows

def pushRowsWithoutTruncation (s : FlatStorage) (rows : List Row) : Option FlatStorage := s.pushRowsInternal rows

def truncate (s : FlatStorage) (newLen : Nat) : Option FlatStorage := do
  let (index, newContentLen) := s.index.truncate newLen
  let content ← s.content.truncate newContentLen
  some { s with
    index
    content
    fgColorMap := s.fgColorMap.truncate newContentLen
    bgAndStyleMap := s.bgAndStyleMap.truncate newContentLen
    hyperlinkIdMap := s.hyperlinkIdMap.truncate newContentLen
    endOfPromptMarker := s.endOfPromptMarker.filter fun marker => marker.offset < newContentLen }

def clear (s : FlatStorage) : Option FlatStorage := s.truncate 0

def setColumns (s : FlatStorage) (newColumns : Nat) : Option FlatStorage :=
  if s.columns = newColumns then some s
  else (s.index.rebuild newColumns).map fun index => { s with columns := newColumns, index }

def contentOffsetAtPoint (s : FlatStorage) (point : Point) : Except ContentOffsetToPointError Nat :=
  s.index.contentOffsetAtPoint point

def contentOffsetToPoint (s : FlatStorage) (offset : Nat) : Option (Except PointFromContentOffsetError Point) :=
  s.index.contentOffsetToPoint offset

def cellType (s : FlatStorage) (row col : Nat) : Option CellType := s.index.cellType row col

end FlatStorage

namespace RowPush

variable {s t : RowPush} {cell : Cell} {g : Grapheme}

/-- What storing graphemes one after the other does: the rest of the loop's state stays. -/
structure Stores (s : RowPush) (gs : List Grapheme) (t : RowPush) : Prop where
  content : gs.foldlM Content.pushGrapheme s.storage.content = some t.storage.content
  builder : (gs.map Grapheme.sizingInfo).foldlM EntryBuilder.processGraphemeInfoUnchecked s.builder = some t.builder
  frame : t = { s with builder := t.builder, storage := { s.storage with content := t.storage.content } }

theorem Stores.nil (s : RowPush) : s.Stores [] s := ⟨rfl, rfl, rfl⟩

theorem store_spec (h : s.store g = some t) : s.Stores [g] t := by
  unfold store at h
  simp only [Option.bind_eq_bind, Option.bind_eq_some_iff] at h
  obtain ⟨builder, hbuilder, content, hcontent, hnext⟩ := h
  obtain rfl := Option.some.inj hnext
  refine ⟨?_, ?_, rfl⟩
  · rw [List.foldlM_cons, hcontent]
    rfl
  · rw [List.map_singleton, List.foldlM_cons, hbuilder]
    rfl

theorem Stores.append {u : RowPush} {gs ms : List Grapheme} (h : s.Stores gs t) (h' : t.Stores ms u) :
    s.Stores (gs ++ ms) u := by
  refine ⟨?_, ?_, ?_⟩
  · rw [List.foldlM_append, h.content]
    exact h'.content
  · rw [List.map_append, List.foldlM_append, h.builder]
    exact h'.builder
  · have hframe := h'.frame
    rw [h.frame] at hframe
    exact hframe

theorem storeEmpty_spec {count : Nat} (h : storeEmpty count s = some t) :
    s.Stores (List.replicate count .emptyCell) t := by
  induction count generalizing s with
  | zero =>
    obtain rfl := Option.some.inj h
    exact Stores.nil s
  | succ count ih =>
    rw [storeEmpty, Option.bind_eq_bind, Option.bind_eq_some_iff] at h
    obtain ⟨u, hstore, hrest⟩ := h
    exact (store_spec hstore).append (ih hrest)

def pending (s : RowPush) : Nat := (s.idx - 1 - s.lastCell).toNat

theorem process_spec (h : s.process g = some t) :
    { s with lastCell := s.idx : RowPush }.Stores (List.replicate s.pending .emptyCell ++ [g]) t := by
  unfold process at h
  rw [Option.bind_eq_bind, Option.bind_eq_some_iff] at h
  obtain ⟨u, hempty, hstore⟩ := h
  have hu := storeEmpty_spec hempty
  have hset : { s with lastCell := s.idx : RowPush }.Stores (List.replicate s.pending .emptyCell)
      { u with lastCell := u.idx } := by
    refine ⟨hu.content, hu.builder, ?_⟩
    rw [hu.frame]
  exact hset.append (store_spec hstore)

def note (s : RowPush) (cell : Cell) (g : Grapheme) : RowPush :=
  { { s with idx := s.idx + 1 : RowPush }.noteAttributes cell with offset := s.offset + g.len }

theorem note_storage_content (s : RowPush) (cell : Cell) (g : Grapheme) :
    (s.note cell g).storage.content = s.storage.content := rfl

theorem pushCell_cases (h : s.pushCell cell = some t) :
    (Cell.isSpacer cell = true ∧ t = { s with
      idx := s.idx + 1
      builder := if cell.flags.leadingWideCharSpacer then s.builder.addLeadingWideCharSpacer else s.builder
      lastCell := s.idx + 1 }) ∨
    (Cell.isSpacer cell = false ∧ ∃ g, Grapheme.newFromCell cell = some g ∧
      (s.needsProcessing cell = false ∧ t = s.note cell g ∨
        s.needsProcessing cell = true ∧ (s.note cell g).process g = some t)) := by
  unfold pushCell at h
  simp only at h
  split at h
  next hspacer =>
    left
    exact ⟨hspacer, (Option.some.inj h).symm⟩
  next hspacer =>
    right
    refine ⟨Bool.eq_false_iff.mpr hspacer, ?_⟩
    simp only [Option.bind_eq_bind, Option.bind_eq_some_iff] at h
    obtain ⟨g, hg, h⟩ := h
    refine ⟨g, hg, ?_⟩
    split at h
    next hneeded => exact .inr ⟨hneeded, h⟩
    next hneeded => exact .inl ⟨Bool.eq_false_iff.mpr hneeded, (Option.some.inj h).symm⟩

end RowPush

/-- `row` is the buffer that is filled again for each row. -/
structure RowIterator where
  storage : FlatStorage
  rowIndex : Nat
  row : Row

structure RowFill where
  row : Row
  currentOffset : Nat
  fgColorIter : AttributeMap.Iter Color
  bgAndStyleIter : AttributeMap.Iter BgAndStyle
  hyperlinkIdIter : AttributeMap.Iter (Option Nat)

def Grapheme.writeTo (g : Grapheme) (cell : Cell) : Option Cell :=
  match g.content with
  | [] => none
  | c :: rest => some (rest.foldl (fun cell c => (cell.pushZerowidth c).1) { cell with c })

def Cell.markIf (marker : Option EndOfPromptMarker) (offset : Nat) (cell : Cell) : Cell :=
  match marker with
  | some marker => if marker.offset = offset then cell.markEndOfPrompt marker.hasExtraTrailingNewline else cell
  | none => cell

def Cell.insertWideChar (cell : Cell) : Cell := { cell with flags := { cell.flags with wideChar := true } }

def Cell.insertWideCharSpacer (hyperlinkId : Option Nat) (cell : Cell) : Cell :=
  Cell.setHyperlinkId { cell with flags := { cell.flags with wideCharSpacer := true } } hyperlinkId

def Cell.insertWrapline (cell : Cell) : Cell := { cell with flags := { cell.flags with wrapline := true } }

def Cell.insertLeadingWideCharSpacer (cell : Cell) : Cell :=
  { cell with flags := { cell.flags with leadingWideCharSpacer := true } }

/-- `row.last_mut().unwrap()` marks the whole row as modified. -/
def Row.modifyLast (row : Row) (f : Cell → Cell) : Option Row :=
  if row.inner.length = 0 then none
  else some ⟨row.inner.modify (row.inner.length - 1) f, row.inner.length⟩

namespace RowFill

/-- The next cell, and the spacer behind it where the grapheme is wide. -/
def place (s : RowFill) (marker : Option EndOfPromptMarker) (g : Grapheme) (attributes : Attributes) :
    Option Row := do
  let idx := s.row.occ
  let cell ← s.row.inner[idx]?
  let cell ← g.writeTo cell
  let cell : Cell :=
    { cell with fg := attributes.fgColor, bg := attributes.bgAndStyle.bg, flags := attributes.bgAndStyle.flags }
  let cell := Cell.markIf marker s.currentOffset (cell.setHyperlinkId attributes.hyperlinkId)
  let row ← s.row.put idx cell
  if g.cellWidth = 2 then
    let row ← row.modify idx Cell.insertWideChar
    row.modify (idx + 1) (Cell.insertWideCharSpacer attributes.hyperlinkId)
  else
    some row

def nextAttributes (s : RowFill) (g : Grapheme) : Attributes × RowFill :=
  let (fgColor, fgColorIter) := s.fgColorIter.nth (g.len - 1)
  let (bgAndStyle, bgAndStyleIter) := s.bgAndStyleIter.nth (g.len - 1)
  let (hyperlinkId, hyperlinkIdIter) := s.hyperlinkIdIter.nth (g.len - 1)
  (⟨fgColor, bgAndStyle, hyperlinkId⟩, { s with fgColorIter, bgAndStyleIter, hyperlinkIdIter })

/-- `none` is a panic. -/
def fill (storage : FlatStorage) : List GraphemeInfo → RowFill → Option Row
  | [], s => some s.row
  | info :: infos, s => do
    let content ← storage.content.get s.currentOffset (s.currentOffset + info.utf8Bytes)
    let g := Grapheme.newFromStrAndInfo content info
    if g.startsNewRow then
      some s.row
    else
      let (attributes, s) := s.nextAttributes g
      let row ← if g.cellWidth = 0 then some s.row else s.place storage.endOfPromptMarker g attributes
      fill storage infos { s with row, currentOffset := s.currentOffset + g.len }

end RowFill

def Entry.markLast (entry : Entry) (row : Row) : Option Row := do
  let row ← if entry.hasTrailingNewline then some row else Row.modifyLast row Cell.insertWrapline
  if entry.endsWithLeadingWideCharSpacer then Row.modifyLast row Cell.insertLeadingWideCharSpacer else some row

namespace RowIterator

def new (storage : FlatStorage) (startRow : Nat) : RowIterator := ⟨storage, startRow, Row.new storage.columns⟩

/-- `none` is a panic, `some none` the end. -/
def next (it : RowIterator) : Option (Option (Row × RowIterator)) :=
  match it.storage.index.contentRangeForRow it.rowIndex with
  | none => some none
  | some (startOffset, _) => do
    let row ← it.row.reset {}
    match it.storage.index.graphemeInfosForRow it.rowIndex with
    | none => some none
    | some infos =>
      let fill : RowFill :=
        { row
          currentOffset := startOffset
          fgColorIter := it.storage.fgColorMap.iterFrom startOffset
          bgAndStyleIter := it.storage.bgAndStyleMap.iterFrom startOffset
          hyperlinkIdIter := it.storage.hyperlinkIdMap.iterFrom startOffset }
      let row ← fill.fill it.storage infos
      let entry ← it.storage.index.getEntry it.rowIndex
      let row ← entry.markLast row
      some (some (row, { it with rowIndex := it.rowIndex + 1, row }))

def collect : Nat → RowIterator → Option (List Row)
  | 0, _ => some []
  | fuel + 1, it => do
    match ← it.next with
    | none => some []
    | some (row, it) => (collect fuel it).map (row :: ·)

end RowIterator

namespace FlatStorage

def rowsFrom (s : FlatStorage) (startRow : Nat) : Option (List Row) :=
  (RowIterator.new s startRow).collect (s.totalRows + 1)

def popRows (s : FlatStorage) (count : Nat) : Option (List Row × FlatStorage) := do
  let startRow := s.totalRows - count
  let rows ← s.rowsFrom startRow
  some (rows, ← s.truncate startRow)

inductive Step where
  | pushRows (rows : List Row)
  | pushRowsWithoutTruncation (rows : List Row)
  | applyMaxRows
  | popRows (count : Nat)
  | truncateRowsFront (count : Nat)
  | clear
  | setColumns (newColumns : Nat)

def step (s : FlatStorage) : Step → Option FlatStorage
  | .pushRows rows => s.pushRows rows
  | .pushRowsWithoutTruncation rows => s.pushRowsWithoutTruncation rows
  | .applyMaxRows => some s.applyMaxRows
  | .popRows count => (s.popRows count).map Prod.snd
  | .truncateRowsFront count => some (s.truncateRowsFront count)
  | .clear => s.clear
  | .setColumns newColumns => s.setColumns newColumns

def run (s : FlatStorage) (steps : List Step) : Option FlatStorage := steps.foldlM step s

end FlatStorage

end InfiniShell.Scrollback
