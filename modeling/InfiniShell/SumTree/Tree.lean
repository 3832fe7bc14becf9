import Mathlib.Algebra.BigOperators.Group.List.Basic
import Mathlib.Order.Defs.LinearOrder

namespace InfiniShell

class Item (α : Type) (σ : outParam Type) where
  summary : α → σ

/-- `Summary: Default` and `AddAssign` are the zero and the addition of `σ`; a tree is an `Arc`
of its node, whose sharing cannot be observed. -/
inductive SumTree (α σ : Type) where
  | internal (height : Nat) (summary : σ) (childSummaries : List σ) (childTrees : List (SumTree α σ))
  | leaf (summary : σ) (items : List α) (itemSummaries : List σ)

namespace SumTree

variable {α σ : Type}

def height : SumTree α σ → Nat
  | internal height .. => height
  | leaf .. => 0

def summary : SumTree α σ → σ
  | internal _ summary .. => summary
  | leaf summary .. => summary

def childSummaries : SumTree α σ → List σ
  | internal _ _ childSummaries _ => childSummaries
  | leaf _ _ itemSummaries => itemSummaries

/-- The source panics on a leaf; a panic is `none` here and below. -/
def childTrees : SumTree α σ → Option (List (SumTree α σ))
  | internal _ _ _ childTrees => some childTrees
  | leaf .. => none

/-- The source panics on an internal node. -/
def items : SumTree α σ → Option (List α)
  | internal .. => none
  | leaf _ items _ => some items

/-- The children of an internal node, the items of a leaf. -/
def size : SumTree α σ → Nat
  | internal _ _ _ childTrees => childTrees.length
  | leaf _ items _ => items.length

def isUnderflowing (treeBase : Nat) (tree : SumTree α σ) : Prop := tree.size < treeBase

instance (treeBase : Nat) (tree : SumTree α σ) : Decidable (tree.isUnderflowing treeBase) :=
  inferInstanceAs (Decidable (_ < _))

def isEmpty : SumTree α σ → Bool
  | internal .. => false
  | leaf _ items _ => items.isEmpty

mutual
def rightmostLeaf : SumTree α σ → Option (SumTree α σ)
  | internal _ _ _ childTrees => rightmostLeafOf childTrees
  | leaf summary items itemSummaries => some (leaf summary items itemSummaries)

def rightmostLeafOf : List (SumTree α σ) → Option (SumTree α σ)
  | [] => none
  | [tree] => rightmostLeaf tree
  | _ :: tree :: trees => rightmostLeafOf (tree :: trees)
end

def last (tree : SumTree α σ) : Option (Option α) :=
  (rightmostLeaf tree).bind fun leaf => leaf.items.map List.getLast?

section Build

variable [AddMonoid σ]

def sum (summaries : List σ) : σ := summaries.foldl (· + ·) 0

def new : SumTree α σ := leaf 0 [] []

/-- `None` is a panic: no child to take the height from, or a height past `u8`. -/
def fromChildTrees : List (SumTree α σ) → Option (SumTree α σ)
  | [] => none
  | tree :: trees =>
    if tree.height + 1 < 256 then
      some (internal (tree.height + 1) (sum ((tree :: trees).map summary))
        ((tree :: trees).map summary) (tree :: trees))
    else none

def midpoint (childCount : Nat) : Nat := (childCount + childCount % 2) / 2

def appendChildren (treeBase height : Nat) (summary : σ) (childSummaries : List σ)
    (childTrees : List (SumTree α σ)) (summariesToAppend : List σ) (treesToAppend : List (SumTree α σ)) :
    SumTree α σ × Option (SumTree α σ) :=
  let childCount := childTrees.length + treesToAppend.length
  let allSummaries := childSummaries ++ summariesToAppend
  let allTrees := childTrees ++ treesToAppend
  if childCount > 2 * treeBase then
    let mid := midpoint childCount
    (internal height (sum (allSummaries.take mid)) (allSummaries.take mid) (allTrees.take mid),
      some (internal height (sum (allSummaries.drop mid)) (allSummaries.drop mid) (allTrees.drop mid)))
  else (internal height summary allSummaries allTrees, none)

/-- `push_tree_recursive` on a leaf. -/
def appendItems (treeBase : Nat) (summary : σ) (items : List α) (itemSummaries : List σ) (other : SumTree α σ) :
    Option (SumTree α σ × Option (SumTree α σ)) :=
  other.items.map fun otherItems =>
    let childCount := items.length + otherItems.length
    let allItems := items ++ otherItems
    let allSummaries := itemSummaries ++ other.childSummaries
    if childCount > 2 * treeBase then
      let mid := midpoint childCount
      (leaf (sum (allSummaries.take mid)) (allItems.take mid) (allSummaries.take mid),
        some (leaf (sum (allSummaries.drop mid)) (allItems.drop mid) (allSummaries.drop mid)))
    else (leaf (summary + other.summary) allItems allSummaries, none)

/-- `*summaries.last_mut().unwrap() = summary`. -/
def setLast (summaries : List σ) (summary : σ) : Option (List σ) :=
  if summaries.isEmpty then none else some (summaries.dropLast ++ [summary])

def appendSplit (treeBase height : Nat) (summary : σ) (childSummaries : List σ)
    (pushed : List (SumTree α σ) × Option (SumTree α σ)) : Option (SumTree α σ × Option (SumTree α σ)) :=
  pushed.1.getLast?.bind fun lastTree =>
    (setLast childSummaries lastTree.summary).map fun childSummaries =>
      appendChildren treeBase height summary childSummaries pushed.1 (pushed.2.toList.map SumTree.summary)
        pushed.2.toList

mutual
/-- `other` is at most as high as the tree it is pushed to; the height difference panics otherwise. -/
def pushTreeRecursive (treeBase : Nat) (other : SumTree α σ) :
    SumTree α σ → Option (SumTree α σ × Option (SumTree α σ))
  | internal height summary childSummaries childTrees =>
    if height < other.height then none
    else if height - other.height = 0 then
      other.childTrees.map fun otherTrees =>
        appendChildren treeBase height (summary + other.summary) childSummaries childTrees
          other.childSummaries otherTrees
    else if height - other.height = 1 ∧ ¬ other.isUnderflowing treeBase then
      some (appendChildren treeBase height (summary + other.summary) childSummaries childTrees
        [other.summary] [other])
    else
      (pushTreeToLast treeBase other childTrees).bind
        (appendSplit treeBase height (summary + other.summary) childSummaries)
  | leaf summary items itemSummaries => appendItems treeBase summary items itemSummaries other

/-- `child_trees.last_mut().unwrap().push_tree_recursive(other)`. -/
def pushTreeToLast (treeBase : Nat) (other : SumTree α σ) :
    List (SumTree α σ) → Option (List (SumTree α σ) × Option (SumTree α σ))
  | [] => none
  | [tree] => (pushTreeRecursive treeBase other tree).map fun pushed => ([pushed.1], pushed.2)
  | tree :: tree' :: trees =>
    (pushTreeToLast treeBase other (tree' :: trees)).map fun pushed => (tree :: pushed.1, pushed.2)
end

/-- `push_tree` of a tree that is not the higher one. -/
def pushLower (treeBase : Nat) (tree other : SumTree α σ) : Option (SumTree α σ) :=
  (pushTreeRecursive treeBase other tree).bind fun
    | (tree, none) => some tree
    | (tree, some splitTree) => fromChildTrees [tree, splitTree]

mutual
def pushTree (treeBase : Nat) (tree : SumTree α σ) : SumTree α σ → Option (SumTree α σ)
  | internal height summary childSummaries childTrees =>
    if tree.height < height then pushTrees treeBase tree childTrees
    else pushLower treeBase tree (internal height summary childSummaries childTrees)
  -- no tree is lower than a leaf
  | leaf summary items itemSummaries =>
    if items.isEmpty then some tree
    else pushLower treeBase tree (leaf summary items itemSummaries)

def pushTrees (treeBase : Nat) (tree : SumTree α σ) : List (SumTree α σ) → Option (SumTree α σ)
  | [] => some tree
  | other :: others => (pushTree treeBase tree other).bind fun tree => pushTrees treeBase tree others
end

variable [Item α σ]

def push (treeBase : Nat) (tree : SumTree α σ) (item : α) : Option (SumTree α σ) :=
  (fromChildTrees [leaf (Item.summary item) [item] [Item.summary item]]).bind (pushTree treeBase tree)

def fromItem (treeBase : Nat) (item : α) : Option (SumTree α σ) := push treeBase new item

/-- The loop of `extend`; `summary`, `items` and `itemSummaries` are the leaf under construction, empty
before the first item. -/
def extendFrom (treeBase : Nat) (tree : SumTree α σ) (summary : σ) (items : List α) (itemSummaries : List σ) :
    List α → Option (SumTree α σ)
  | [] => if items.isEmpty then some tree else pushTree treeBase tree (leaf summary items itemSummaries)
  | item :: rest =>
    if items.length = 2 * treeBase then
      (pushTree treeBase tree (leaf summary items itemSummaries)).bind fun tree =>
        extendFrom treeBase tree (0 + Item.summary item) [item] [Item.summary item] rest
    else
      extendFrom treeBase tree (summary + Item.summary item) (items ++ [item])
        (itemSummaries ++ [Item.summary item]) rest

def extend (treeBase : Nat) (tree : SumTree α σ) (items : List α) : Option (SumTree α σ) :=
  extendFrom treeBase tree 0 [] [] items

mutual
def updateLastLeafRecursive (f : α → α) : SumTree α σ → Option (SumTree α σ × σ)
  | internal height _ childSummaries childTrees =>
    (updateLastChild f childTrees).bind fun updated =>
      (setLast childSummaries updated.2).map fun childSummaries =>
        (internal height (sum childSummaries) childSummaries updated.1, sum childSummaries)
  | leaf _ items itemSummaries =>
    items.getLast?.bind fun item =>
      (setLast itemSummaries (Item.summary (f item))).map fun itemSummaries =>
        (leaf (sum itemSummaries) (items.dropLast ++ [f item]) itemSummaries, sum itemSummaries)

def updateLastChild (f : α → α) : List (SumTree α σ) → Option (List (SumTree α σ) × σ)
  | [] => none
  | [tree] => (updateLastLeafRecursive f tree).map fun updated => ([updated.1], updated.2)
  | tree :: tree' :: trees =>
    (updateLastChild f (tree' :: trees)).map fun updated => (tree :: updated.1, updated.2)
end

def updateLast (f : α → α) (tree : SumTree α σ) : Option (SumTree α σ) :=
  if tree.isEmpty then some tree else (updateLastLeafRecursive f tree).map Prod.fst

end Build

end SumTree

end InfiniShell

namespace InfiniShell

class Dimension (σ δ : Type) where
  default : δ
  addSummary : δ → σ → δ

instance (σ : Type) : Dimension σ Unit := ⟨(), fun _ _ => ()⟩

inductive SeekBias where
  | left
  | right
deriving DecidableEq

namespace SumTree

structure StackEntry (α σ S U : Type) where
  tree : SumTree α σ
  index : Nat
  seekDimension : S
  sumDimension : U

/-- The stack is listed from its top, a leaf, down to the root. -/
structure Cursor (α σ S U : Type) where
  tree : SumTree α σ
  stack : List (StackEntry α σ S U)
  seekDimension : S
  sumDimension : U
  didSeek : Bool
  atEnd : Bool

variable {α σ S U D : Type} [Dimension σ S] [Dimension σ U]

def extent [Dimension σ D] (tree : SumTree α σ) : D :=
  Dimension.addSummary (Dimension.default σ) tree.summary

def StackEntry.advance (entry : StackEntry α σ S U) (summary : σ) : StackEntry α σ S U :=
  { entry with
    index := entry.index + 1
    seekDimension := Dimension.addSummary entry.seekDimension summary
    sumDimension := Dimension.addSummary entry.sumDimension summary }

namespace Cursor

def new (tree : SumTree α σ) : Cursor α σ S U :=
  { tree, stack := [], seekDimension := Dimension.default σ, sumDimension := Dimension.default σ
    didSeek := false, atEnd := false }

def reset (c : Cursor α σ S U) : Cursor α σ S U := new c.tree

def advance (c : Cursor α σ S U) (summary : σ) : Cursor α σ S U :=
  { c with
    seekDimension := Dimension.addSummary c.seekDimension summary
    sumDimension := Dimension.addSummary c.sumDimension summary }

def advanceAll (c : Cursor α σ S U) (summaries : List σ) : Cursor α σ S U := summaries.foldl advance c

section Accessors

omit [Dimension σ S] [Dimension σ U]

/-- `self.stack.push(..)` of an `ArrayVec` with room for 16 entries. -/
def enter (c : Cursor α σ S U) (tree : SumTree α σ) (index : Nat) : Option (Cursor α σ S U) :=
  if c.stack.length < 16 then
    some { c with stack := ⟨tree, index, c.seekDimension, c.sumDimension⟩ :: c.stack }
  else none

/-- The outer `none` is a panic, also the debug assertion that the cursor did seek. -/
def item (c : Cursor α σ S U) : Option (Option α) :=
  if c.didSeek then
    match c.stack with
    | [] => some none
    | entry :: _ =>
      match entry.tree with
      | leaf _ items _ => if entry.index = items.length then some none else items[entry.index]?.map some
      | internal .. => some none
  else none

def itemSummary (c : Cursor α σ S U) : Option (Option σ) :=
  if c.didSeek then
    match c.stack with
    | [] => some none
    | entry :: _ =>
      match entry.tree with
      | leaf _ _ itemSummaries =>
        if entry.index = itemSummaries.length then some none else itemSummaries[entry.index]?.map some
      | internal .. => some none
  else none

def prevLeaf : List (StackEntry α σ S U) → Option (Option (SumTree α σ))
  | [] => some none
  | entry :: rest =>
    if entry.index ≠ 0 then
      match entry.tree with
      | internal _ _ _ childTrees => childTrees[entry.index - 1]?.bind fun tree => (rightmostLeaf tree).map some
      | leaf .. => some none
    else prevLeaf rest

def prevItem (c : Cursor α σ S U) : Option (Option α) :=
  if c.didSeek then
    match c.stack with
    | [] => if c.atEnd then last c.tree else some none
    | entry :: rest =>
      if entry.index = 0 then
        (prevLeaf rest).bind fun
          | none => some none
          | some prevLeaf => (prevLeaf.items.bind List.getLast?).map some
      else
        match entry.tree with
        | leaf _ items _ => items[entry.index - 1]?.map some
        | internal .. => some none
  else none

end Accessors

section Next

variable (filterNode : σ → Bool)

/-- The loop of `descend_to_first_item` over the items of a leaf, from `index` on. -/
def firstItem (c : Cursor α σ S U) (tree : SumTree α σ) (index : Nat) : List σ → Option (Cursor α σ S U)
  | [] => some c
  | summary :: summaries =>
    if filterNode summary then c.enter tree index
    else firstItem (c.advance summary) tree (index + 1) summaries

mutual
def descendToFirstItem (c : Cursor α σ S U) : SumTree α σ → Option (Cursor α σ S U)
  | internal height summary childSummaries childTrees =>
    descendToFirstChild { c with didSeek := true } (internal height summary childSummaries childTrees) 0
      childSummaries childTrees
  | leaf summary items itemSummaries =>
    firstItem filterNode { c with didSeek := true } (leaf summary items itemSummaries) 0 itemSummaries

/-- The loop over the children of `parent`, from `index` on. -/
def descendToFirstChild (c : Cursor α σ S U) (parent : SumTree α σ) (index : Nat) :
    List σ → List (SumTree α σ) → Option (Cursor α σ S U)
  | [], _ => some c
  | summary :: summaries, [] => if (summary :: summaries).any filterNode then none else some c
  | summary :: summaries, tree :: trees =>
    if filterNode summary then (c.enter parent index).bind fun c => descendToFirstItem c tree
    else descendToFirstChild (c.advance summary) parent (index + 1) summaries trees
end

def nextChild (c : Cursor α σ S U) (entry : StackEntry α σ S U) :
    List σ → Cursor α σ S U × StackEntry α σ S U
  | [] => (c, entry)
  | [summary] => (c, entry.advance summary)
  | summary :: nextSummary :: summaries =>
    if filterNode nextSummary then (c, entry.advance summary)
    else nextChild (c.advance nextSummary) (entry.advance summary) (nextSummary :: summaries)

def nextItem (c : Cursor α σ S U) (entry : StackEntry α σ S U) :
    List σ → Option (Cursor α σ S U × StackEntry α σ S U × Bool)
  | [] => none
  | [summary] => some (c.advance summary, entry.advance summary, false)
  | summary :: nextSummary :: summaries =>
    if filterNode nextSummary then some (c.advance summary, entry.advance summary, true)
    else nextItem (c.advance summary) (entry.advance summary) (nextSummary :: summaries)

def nextFrom (c : Cursor α σ S U) : List (StackEntry α σ S U) → Option (Cursor α σ S U)
  | [] => some { c with stack := [], atEnd := true }
  | entry :: rest =>
    match entry.tree with
    | internal _ _ childSummaries childTrees =>
      let moved := nextChild filterNode c entry (childSummaries.drop entry.index)
      match childTrees[moved.2.index]? with
      | some subtree =>
        (descendToFirstItem filterNode { moved.1 with stack := moved.2 :: rest } subtree).map fun c =>
          { c with atEnd := c.stack.isEmpty }
      | none => nextFrom moved.1 rest
    | leaf _ _ itemSummaries =>
      (nextItem filterNode c entry (itemSummaries.drop entry.index)).bind fun moved =>
        if moved.2.2 then some { moved.1 with stack := moved.2.1 :: rest } else nextFrom moved.1 rest

def nextInternal (c : Cursor α σ S U) : Option (Cursor α σ S U) :=
  if c.didSeek then
    match c.stack with
    | [] =>
      if c.atEnd then some c
      else (descendToFirstItem filterNode c c.tree).map fun c => { c with atEnd := c.stack.isEmpty }
    | stack => nextFrom filterNode c stack
  else none

def next (c : Cursor α σ S U) : Option (Cursor α σ S U) := nextInternal (fun _ => true) c

end Next

section Prev

mutual
def descendToLastItem (c : Cursor α σ S U) : SumTree α σ → Option (Cursor α σ S U)
  | internal height summary childSummaries childTrees =>
    if childSummaries.isEmpty then none
    else
      (({ c with didSeek := true }.advanceAll childSummaries.dropLast).enter
        (internal height summary childSummaries childTrees) (childTrees.length - 1)).bind fun c =>
          descendToLastChild c childTrees
  | leaf summary items itemSummaries =>
    ({ c with didSeek := true }.advanceAll itemSummaries.dropLast).enter (leaf summary items itemSummaries)
      (itemSummaries.length - 1)

def descendToLastChild (c : Cursor α σ S U) : List (SumTree α σ) → Option (Cursor α σ S U)
  | [] => none
  | [tree] => descendToLastItem c tree
  | _ :: tree :: trees => descendToLastChild c (tree :: trees)
end

def restore (c : Cursor α σ S U) (rest : List (StackEntry α σ S U)) : Cursor α σ S U :=
  match rest with
  | [] => { c with stack := [], seekDimension := Dimension.default σ, sumDimension := Dimension.default σ }
  | below :: _ => { c with stack := rest, seekDimension := below.seekDimension, sumDimension := below.sumDimension }

def prevFrom (c : Cursor α σ S U) : List (StackEntry α σ S U) → Option (Cursor α σ S U)
  | [] => some { c with stack := [] }
  | entry :: rest =>
    if entry.index = 0 then prevFrom c rest
    else
      match entry.tree with
      | internal _ _ childSummaries childTrees =>
        (((c.restore rest).advanceAll (childSummaries.take (entry.index - 1))).enter entry.tree
          (entry.index - 1)).bind fun c =>
            childTrees[entry.index - 1]?.bind fun tree => descendToLastItem c tree
      | leaf _ _ itemSummaries =>
        ((c.restore rest).advanceAll (itemSummaries.take (entry.index - 1))).enter entry.tree (entry.index - 1)

def prev (c : Cursor α σ S U) : Option (Cursor α σ S U) :=
  if c.didSeek then
    if c.atEnd then
      (descendToLastItem { c with seekDimension := Dimension.default σ, sumDimension := Dimension.default σ }
        c.tree).map fun c => { c with atEnd := false }
    else prevFrom c c.stack
  else none

end Prev

end Cursor

end SumTree

end InfiniShell
