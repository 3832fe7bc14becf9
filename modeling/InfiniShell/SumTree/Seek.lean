import InfiniShell.SumTree.Tree
import Mathlib.Order.Lattice

namespace InfiniShell.SumTree

variable {α σ S U D : Type} [AddMonoid σ]

inductive SeekAggregate (α σ D : Type) where
  | none
  | slice (slice : SumTree α σ)
  | summary (summary : D)

/-- `slice_items`, `slice_item_summaries` and `slice_items_summary`. -/
structure SliceItems (α σ : Type) where
  summary : σ
  items : List α
  itemSummaries : List σ

namespace SliceItems

def empty : SliceItems α σ := ⟨0, [], []⟩

def push (sliceItems : SliceItems α σ) (item : α) (summary : σ) : SliceItems α σ :=
  ⟨sliceItems.summary + summary, sliceItems.items ++ [item], sliceItems.itemSummaries ++ [summary]⟩

end SliceItems

namespace SeekAggregate

variable [Dimension σ D]

def pushChild (treeBase : Nat) (tree : SumTree α σ) (summary : σ) :
    SeekAggregate α σ D → Option (SeekAggregate α σ D)
  | none => some none
  | slice s => (pushTree treeBase s tree).map slice
  | .summary d => some (.summary (Dimension.addSummary d summary))

def pushItem (item : α) (itemSummary : σ) (sliceItems : SliceItems α σ) :
    SeekAggregate α σ D → SeekAggregate α σ D × SliceItems α σ
  | none => (none, sliceItems)
  | slice s => (slice s, sliceItems.push item itemSummary)
  | summary d => (summary (Dimension.addSummary d itemSummary), sliceItems)

omit [Dimension σ D] in
def flush (treeBase : Nat) (sliceItems : SliceItems α σ) : SeekAggregate α σ D → Option (SeekAggregate α σ D)
  | slice s =>
    if sliceItems.items.isEmpty then some (slice s)
    else (pushTree treeBase s (leaf sliceItems.summary sliceItems.items sliceItems.itemSummaries)).map slice
  | aggregate => some aggregate

end SeekAggregate

variable [Dimension σ S] [Dimension σ U] [Dimension σ D]

/-- What all the loops of one `seek_internal` share. -/
structure SeekTarget (S : Type) where
  target : S
  bias : SeekBias
  clampMax : Bool

section

variable [LinearOrder S]

/-- `comparison` is `Greater`, or `Equal` with a bias to the right. -/
def SeekTarget.isBeyond (seek : SeekTarget S) (atLastItem : Bool) (childEnd : S) : Bool :=
  let comparison :=
    if atLastItem && seek.clampMax then compare (min seek.target childEnd) childEnd
    else compare seek.target childEnd
  comparison == .gt || comparison == .eq && seek.bias == .right

end

namespace Cursor

variable [LinearOrder S] (treeBase : Nat) (seek : SeekTarget S)

/-- Where one `seek_internal` stands: the cursor it moves and the aggregate it collects. -/
abbrev Seeking (α σ S U D : Type) := Cursor α σ S U × SeekAggregate α σ D

def childEnd (c : Cursor α σ S U) (atLastItem : Bool) (maxEnd : S) (summary : σ) : S :=
  let childEnd := Dimension.addSummary c.seekDimension summary
  if atLastItem then max childEnd maxEnd else childEnd

def descendItems (tree : SumTree α σ) (maxEnd : S) (count index : Nat) (seeking : Seeking α σ S U D)
    (sliceItems : SliceItems α σ) : List α → List σ → Option (Seeking α σ S U D × SliceItems α σ × Bool)
  | item :: items, summary :: summaries =>
    let atLastItem := index == count - 1
    let beyond := seek.isBeyond atLastItem (seeking.1.childEnd atLastItem maxEnd summary)
    if (seeking.1.stack.isEmpty || !atLastItem) && beyond then
      let pushed := seeking.2.pushItem item summary sliceItems
      descendItems tree maxEnd count (index + 1) (seeking.1.advance summary, pushed.1) pushed.2 items summaries
    else
      ((if beyond then seeking.1.advance summary else seeking.1).enter tree index).map fun c =>
        ((c, seeking.2), sliceItems, beyond)
  | _, _ => some (seeking, sliceItems, false)

mutual
/-- The descent into the subtree that contains the target. -/
def descend (seeking : Seeking α σ S U D) : SumTree α σ → Option (Seeking α σ S U D × Bool)
  | internal height summary childSummaries childTrees =>
    descendChildren (internal height summary childSummaries childTrees)
      (Dimension.addSummary seeking.1.seekDimension summary) childTrees.length 0 seeking childSummaries childTrees
  | leaf summary items itemSummaries =>
    (descendItems seek (leaf summary items itemSummaries) (Dimension.addSummary seeking.1.seekDimension summary)
      items.length 0 seeking SliceItems.empty items itemSummaries).bind fun found =>
        (found.1.2.flush treeBase found.2.1).map fun aggregate => ((found.1.1, aggregate), found.2.2)

/-- The loop of the descent over the children of `parent`. -/
def descendChildren (parent : SumTree α σ) (maxEnd : S) (count index : Nat) (seeking : Seeking α σ S U D) :
    List σ → List (SumTree α σ) → Option (Seeking α σ S U D × Bool)
  | summary :: summaries, tree :: trees =>
    let atLastItem := index == count - 1
    let beyond := seek.isBeyond atLastItem (seeking.1.childEnd atLastItem maxEnd summary)
    if (seeking.1.stack.isEmpty || !atLastItem) && beyond then
      (seeking.2.pushChild treeBase tree summary).bind fun aggregate =>
        descendChildren parent maxEnd count (index + 1) (seeking.1.advance summary, aggregate) summaries trees
    else
      (seeking.1.enter parent index).bind fun c =>
        (descend (c, seeking.2) tree).map fun found => (found.1, beyond || found.2)
  | _, _ => some (seeking, false)
end

def reseekItems (count : Nat) (seeking : Seeking α σ S U D) (entry : StackEntry α σ S U)
    (sliceItems : SliceItems α σ) :
    List α → List σ → Seeking α σ S U D × StackEntry α σ S U × SliceItems α σ × Bool
  | item :: items, summary :: summaries =>
    if seek.isBeyond (entry.index == count - 1) (Dimension.addSummary seeking.1.seekDimension summary) then
      let pushed := seeking.2.pushItem item summary sliceItems
      reseekItems count (seeking.1.advance summary, pushed.1) { entry with index := entry.index + 1 } pushed.2
        items summaries
    else (seeking, entry, sliceItems, true)
  | _, _ => (seeking, entry, sliceItems, false)

def reseekChildren (count : Nat) (seeking : Seeking α σ S U D) (entry : StackEntry α σ S U) :
    List σ → List (SumTree α σ) →
      Option (Seeking α σ S U D × StackEntry α σ S U × Option (SumTree α σ))
  | summary :: summaries, tree :: trees =>
    if seek.isBeyond (entry.index == count - 1) (Dimension.addSummary seeking.1.seekDimension summary) then
      (seeking.2.pushChild treeBase tree summary).bind fun aggregate =>
        reseekChildren count (seeking.1.advance summary, aggregate) { entry with index := entry.index + 1 }
          summaries trees
    else some (seeking, entry, some tree)
  | _, _ => some (seeking, entry, none)

/-- The loop over the stack of a cursor that did seek before. -/
def reseek (seeking : Seeking α σ S U D) :
    List (StackEntry α σ S U) → Option (Seeking α σ S U D × Option (SumTree α σ))
  | [] => some (({ seeking.1 with stack := [] }, seeking.2), none)
  | entry :: rest =>
    match entry.tree with
    | internal _ _ childSummaries childTrees =>
      (reseekChildren treeBase seek childTrees.length seeking { entry with index := entry.index + 1 }
        (childSummaries.drop (entry.index + 1)) (childTrees.drop (entry.index + 1))).bind fun found =>
          match found.2.2 with
          | some tree => some (({ found.1.1 with stack := found.2.1 :: rest }, found.1.2), some tree)
          | none => reseek found.1 rest
    | leaf _ items itemSummaries =>
      let found := reseekItems seek items.length seeking entry SliceItems.empty
        (items.drop entry.index) (itemSummaries.drop entry.index)
      (found.1.2.flush treeBase found.2.2.1).bind fun aggregate =>
        if found.2.2.2 then some (({ found.1.1 with stack := found.2.1 :: rest }, aggregate), none)
        else reseek (found.1.1, aggregate) rest

/-- The end of `seek_internal` and the result of the seek. -/
def finish (seeking : Seeking α σ S U D) : Option (Seeking α σ S U D × Bool) :=
  let c := { seeking.1 with atEnd := seeking.1.stack.isEmpty }
  match seek.bias with
  | .left =>
    c.itemSummary.map fun summary =>
      ((c, seeking.2), seek.target == summary.elim c.seekDimension (Dimension.addSummary c.seekDimension))
  | .right => some ((c, seeking.2), seek.target == c.seekDimension)

/-- The descent into the containing subtree, if there is one, and the step over its last item should
the target lie behind it. -/
def seekInto (seeking : Seeking α σ S U D) : Option (SumTree α σ) → Option (Seeking α σ S U D × Bool)
  | none => finish seek seeking
  | some subtree =>
    (descend treeBase seek seeking subtree).bind fun found =>
      if found.2 then
        found.1.1.next.map fun c => ((c, found.1.2), seek.target == c.seekDimension)
      else finish seek found.1

def seekInternal (c : Cursor α σ S U) (aggregate : SeekAggregate α σ D) : Option (Seeking α σ S U D × Bool) :=
  if seek.target < c.seekDimension then none
  else if c.didSeek then
    (reseek treeBase seek (c, aggregate) c.stack).bind fun found => seekInto treeBase seek found.1 found.2
  else seekInto treeBase seek ({ c with didSeek := true }, aggregate) (some c.tree)

inductive Call (S : Type) where
  | seek (pos : S) (bias : SeekBias)
  | seekClamped (pos : S) (bias : SeekBias)
  | slice (pos : S) (bias : SeekBias)
  | suffix
  | summary (pos : S) (bias : SeekBias)
  | next
  | prev

section

variable (c : Cursor α σ S U)

def seekTo (pos : S) (bias : SeekBias) : Option (Cursor α σ S U × Bool) :=
  (seekInternal treeBase ⟨pos, bias, false⟩ c.reset (.none : SeekAggregate α σ Unit)).map fun found =>
    (found.1.1, found.2)

def seekClamped (pos : S) (bias : SeekBias) : Option (Cursor α σ S U) :=
  (seekInternal treeBase ⟨pos, bias, true⟩ c.reset (.none : SeekAggregate α σ Unit)).map fun found => found.1.1

def slice (pos : S) (bias : SeekBias) : Option (Cursor α σ S U × SumTree α σ) :=
  (seekInternal treeBase ⟨pos, bias, false⟩ c (.slice SumTree.new : SeekAggregate α σ Unit)).bind fun
    | ((c, .slice slice), _) => some (c, slice)
    | _ => none

def suffix : Option (Cursor α σ S U × SumTree α σ) := slice treeBase c (extent c.tree) .right

def summary (pos : S) (bias : SeekBias) : Option (Cursor α σ S U × D) :=
  (seekInternal treeBase ⟨pos, bias, false⟩ c (.summary (Dimension.default σ) : SeekAggregate α σ D)).bind fun
    | ((c, .summary summary), _) => some (c, summary)
    | _ => none

/-- The cursor after a call; `summary` adds up in its own dimension. -/
def move : Call S → Option (Cursor α σ S U)
  | .seek pos bias => (c.seekTo treeBase pos bias).map Prod.fst
  | .seekClamped pos bias => c.seekClamped treeBase pos bias
  | .slice pos bias => (c.slice treeBase pos bias).map Prod.fst
  | .suffix => (c.suffix treeBase).map Prod.fst
  | .summary pos bias => (c.summary (D := U) treeBase pos bias).map Prod.fst
  | .next => c.next
  | .prev => c.prev

end

end Cursor

end InfiniShell.SumTree
