import InfiniShell.Collections.AssocMap
import InfiniShell.Collections.RangeRuns

namespace InfiniShell.RichText

open Collections

structure Anchor where
  id : Nat

inductive AnchorSide where
  | left | right

structure AnchorState where
  offset : Nat
  side : AnchorSide

structure Anchors where
  nextId : Nat
  anchors : AssocMap Nat AnchorState

namespace Anchors

def new : Anchors := ⟨0, .empty⟩

def createAnchor (a : Anchors) (offset : Nat) (side : AnchorSide) : Anchor × Anchors :=
  (⟨a.nextId⟩, { nextId := a.nextId + 1, anchors := a.anchors.insert a.nextId ⟨offset, side⟩ })

def resolve (a : Anchors) (anchor : Anchor) : Option Nat := (a.anchors.get anchor.id).map AnchorState.offset

end Anchors

inductive TextStyleBias where
  | inStyle | outOfStyle

structure Selection where
  head : Anchor
  tail : Anchor
  bias : TextStyleBias := .outOfStyle

structure OverlapRange (T : Type) where
  indices : List Nat
  start : T
  stop : T

namespace Buffer

variable {T : Type} [LinearOrder T]

omit [LinearOrder T] in
def finishOverlap (overlapping : List Nat × List (Range T)) (overlap : OverlapRange T) : List Nat × List (Range T) :=
  if overlap.indices.length > 1 then
    (overlapping.1 ++ overlap.indices, overlapping.2 ++ [⟨overlap.start, overlap.stop⟩])
  else overlapping

def scanRange (s : Option (OverlapRange T) × List Nat × List (Range T)) (item : Range T × Nat) :
    Option (OverlapRange T) × List Nat × List (Range T) :=
  let (range, i) := item
  match s with
  | (none, overlapping) => (some ⟨[i], range.start, range.stop⟩, overlapping)
  | (some overlap, overlapping) =>
    if range.start ≤ overlap.stop then
      (some { overlap with indices := overlap.indices ++ [i], stop := max range.stop overlap.stop }, overlapping)
    else (some ⟨[i], range.start, range.stop⟩, finishOverlap overlapping overlap)

def sortByStart (ranges : List (Range T)) : List (Range T) := ranges.insertionSort fun a b => a.start ≤ b.start

def overlappingRanges (ranges : List (Range T)) : List Nat × List (Range T) :=
  match (sortByStart ranges).zipIdx.foldl scanRange (none, [], []) with
  | (some overlap, overlapping) => finishOverlap overlapping overlap
  | (none, overlapping) => overlapping

end Buffer

structure BufferSelectionModel where
  selections : List Selection
  anchors : Anchors

namespace BufferSelectionModel

/-- `none` is a panic, here and below. -/
def selectionHead (m : BufferSelectionModel) (selection : Selection) : Option Nat := m.anchors.resolve selection.head

def selectionTail (m : BufferSelectionModel) (selection : Selection) : Option Nat := m.anchors.resolve selection.tail

def selectionToOffsetRange (m : BufferSelectionModel) (selection : Selection) : Option (Range Nat) := do
  let head ← m.selectionHead selection
  let tail ← m.selectionTail selection
  some (if head ≥ tail then ⟨tail, head⟩ else ⟨head, tail⟩)

def selectionsToOffsetRanges (m : BufferSelectionModel) : Option (List (Range Nat)) :=
  m.selections.mapM m.selectionToOffsetRange

def createSelection (anchors : Anchors) (head tail : Nat) : Selection × Anchors :=
  let (head, anchors) := anchors.createAnchor head .right
  let (tail, anchors) := anchors.createAnchor tail .right
  ({ head, tail }, anchors)

def new : BufferSelectionModel :=
  let (selection, anchors) := createSelection .new 1 1
  ⟨[selection], anchors⟩

def createSelections (anchors : Anchors) : List (Nat × Nat) → List Selection × Anchors
  | [] => ([], anchors)
  | (head, tail) :: offsets =>
    let (selection, anchors) := createSelection anchors head tail
    let (selections, anchors) := createSelections anchors offsets
    (selection :: selections, anchors)

def setSelectionOffsets (m : BufferSelectionModel) (offsets : List (Nat × Nat)) : BufferSelectionModel :=
  let (selections, anchors) := createSelections m.anchors offsets
  ⟨selections, anchors⟩

def headIsBehind (m : BufferSelectionModel) (selection : Selection) : Option Bool := do
  let head ← m.selectionHead selection
  let tail ← m.selectionTail selection
  some (decide (head > tail))

def pushRange (forwardsSelection : Bool) (s : List Selection × Anchors) (range : Range Nat) :
    List Selection × Anchors :=
  let (selection, anchors) :=
    if forwardsSelection then createSelection s.2 range.stop range.start
    else createSelection s.2 range.start range.stop
  (s.1 ++ [selection], anchors)

def keptSelections (m : BufferSelectionModel) (overlapIndices : List Nat) : List Selection :=
  (m.selections.zipIdx.filter fun item => ! overlapIndices.contains item.2).map Prod.fst

def mergeOverlappingSelections (m : BufferSelectionModel) : Option BufferSelectionModel := do
  let ranges ← m.selectionsToOffsetRanges
  let (overlapIndices, newRanges) := Buffer.overlappingRanges ranges
  if overlapIndices.isEmpty then some m
  else
    let overlapping := (m.selections.zipIdx.filter fun item => overlapIndices.contains item.2).map Prod.fst
    let forwardsSelection ← overlapping.anyM m.headIsBehind
    let (newSelections, anchors) :=
      newRanges.foldl (pushRange forwardsSelection) (m.keptSelections overlapIndices, m.anchors)
    -- without a selection left, an error is reported
    some { selections := if newSelections.isEmpty then m.selections else newSelections, anchors }

end BufferSelectionModel

end InfiniShell.RichText
