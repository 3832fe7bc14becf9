import InfiniShell.Collections.BTreeMap
import Mathlib.Data.Prod.Lex
import Mathlib.Data.String.Basic
import Mathlib.Data.Finset.Sort
import Mathlib.Data.Finset.Card

namespace InfiniShell.Editor

open Collections

abbrev ReplicaId := String

def baseReplicaId : ReplicaId := "0"

structure Lamport where
  replicaId : ReplicaId
  value : Nat

namespace Lamport

def new (replicaId : ReplicaId) : Lamport := ⟨replicaId, 0⟩

def tick (clock : Lamport) : Lamport := { clock with value := clock.value + 1 }

def observe (clock timestamp : Lamport) : Lamport := { clock with value := max clock.value timestamp.value + 1 }

def key (timestamp : Lamport) : Nat ×ₗ ReplicaId := toLex (timestamp.value, timestamp.replicaId)

theorem key_injective : Function.Injective key := by
  intro a b h
  obtain ⟨hvalue, hreplica⟩ := Prod.ext_iff.mp (toLex.injective h)
  cases a
  cases b
  simp only at hvalue hreplica
  rw [hvalue, hreplica]

/-- By value, ties broken by the replica. -/
instance : LinearOrder Lamport := LinearOrder.lift' key key_injective

variable {a b : Lamport}

theorem lt_iff : a < b ↔ a.value < b.value ∨ a.value = b.value ∧ a.replicaId < b.replicaId :=
  Prod.Lex.toLex_lt_toLex

theorem lt_of_value_lt (h : a.value < b.value) : a < b := lt_iff.mpr (Or.inl h)

end Lamport

structure Global where
  map : BTreeMap ReplicaId Nat
deriving DecidableEq

namespace Global

def new : Global := ⟨BTreeMap.empty⟩

def get (g : Global) (replicaId : ReplicaId) : Nat := (g.map.get replicaId).getD 0

def observe (g : Global) (timestamp : Lamport) : Global :=
  ⟨g.map.insert timestamp.replicaId (max (g.get timestamp.replicaId) timestamp.value)⟩

def observeAll (g other : Global) : Global := other.map.entries.foldl (fun g e => g.observe ⟨e.1, e.2⟩) g

def observed (g : Global) (timestamp : Lamport) : Bool := g.get timestamp.replicaId ≥ timestamp.value

def changedSince (g other : Global) : Bool := g.map.entries.any fun e => e.2 > other.get e.1

def keys (g : Global) : List ReplicaId := g.map.entries.map Prod.fst

/-- The loop of `partial_cmp`; `none` is an inconclusive comparison. -/
def compareKeys (g other : Global) : Ordering → List ReplicaId → Option Ordering
  | ordering, [] => some ordering
  | ordering, replicaId :: keys =>
    match compare (g.get replicaId) (other.get replicaId) with
    | .eq => compareKeys g other ordering keys
    | here =>
      if ordering = .eq then compareKeys g other here keys
      else if here ≠ ordering then none
      else compareKeys g other ordering keys

def partialCmp (g other : Global) : Option Ordering := compareKeys g other .eq (g.keys ++ other.keys)

def le (g other : Global) : Bool := g.partialCmp other == some .lt || g.partialCmp other == some .eq

theorem get_observe (g : Global) (timestamp : Lamport) (replicaId : ReplicaId) :
    (g.observe timestamp).get replicaId =
      if replicaId = timestamp.replicaId then max (g.get replicaId) timestamp.value else g.get replicaId := by
  rw [get, observe, BTreeMap.get_insert]
  split
  next h =>
    subst h
    rfl
  next => rfl

theorem le_get_observe (g : Global) (timestamp : Lamport) (replicaId : ReplicaId) :
    g.get replicaId ≤ (g.observe timestamp).get replicaId := by
  rw [get_observe]
  split
  next => exact Nat.le_max_left _ _
  next => exact Nat.le_refl _

variable {timestamp : Lamport} {g : Global}

theorem observed_iff : g.observed timestamp = true ↔ timestamp.value ≤ g.get timestamp.replicaId := by
  rw [observed, decide_eq_true_eq]

theorem observed_self (g : Global) (timestamp : Lamport) : (g.observe timestamp).observed timestamp = true := by
  rw [observed_iff, get_observe, if_pos rfl]
  exact Nat.le_max_right _ _

theorem observed_base (g : Global) : g.observed (Lamport.new baseReplicaId) = true :=
  observed_iff.mpr (Nat.zero_le _)

theorem get_eq_zero {replicaId : ReplicaId} (h : replicaId ∉ g.keys) : g.get replicaId = 0 := by
  rw [get]
  cases hget : g.map.get replicaId with
  | none => rfl
  | some value =>
    have hmem := (BTreeMap.get_eq_some_iff g.map replicaId value).mp hget
    exact absurd (List.mem_map_of_mem (f := Prod.fst) hmem) h

variable {g other : Global} {keys : List ReplicaId}

theorem compareKeys_of_ne {ordering : Ordering} (hne : ordering ≠ .eq) : compareKeys g other ordering keys =
      if ∀ replicaId ∈ keys, compare (g.get replicaId) (other.get replicaId) = .eq ∨
          compare (g.get replicaId) (other.get replicaId) = ordering then some ordering else none := by
  induction keys with
  | nil => rw [compareKeys, if_pos (fun _ h => absurd h List.not_mem_nil)]
  | cons replicaId keys ih =>
    simp only [List.forall_mem_cons]
    unfold compareKeys
    split
    next heq =>
      rw [ih]
      simp only [heq, true_or, true_and]
    next hcompare =>
      rw [if_neg hne]
      by_cases heq : compare (g.get replicaId) (other.get replicaId) = ordering
      · rw [if_neg (not_not_intro heq), ih]
        simp only [heq, or_true, true_and]
      · rw [if_pos heq, if_neg]
        intro h
        exact h.1.elim hcompare heq

theorem compareKeys_le_iff :
    (compareKeys g other .eq keys = some .lt ∨ compareKeys g other .eq keys = some .eq) ↔
      ∀ replicaId ∈ keys, g.get replicaId ≤ other.get replicaId := by
  induction keys with
  | nil => simp [compareKeys]
  | cons replicaId keys ih =>
    rw [List.forall_mem_cons]
    unfold compareKeys
    split
    next heq =>
      rw [ih]
      exact (and_iff_right (Nat.le_of_eq (Nat.compare_eq_eq.mp heq))).symm
    next hne =>
      rw [if_pos rfl, compareKeys_of_ne hne]
      cases hcompare : compare (g.get replicaId) (other.get replicaId) with
      | eq => exact absurd hcompare hne
      | lt =>
        have hle := Nat.le_of_lt (Nat.compare_eq_lt.mp hcompare)
        have hiff : ∀ r, (compare (g.get r) (other.get r) = .eq ∨ compare (g.get r) (other.get r) = .lt) ↔
            g.get r ≤ other.get r := by
          intro r
          rw [Nat.compare_eq_eq, Nat.compare_eq_lt]
          omega
        simp only [hiff, hle, true_and]
        split
        next h => simpa using h
        next h => simpa using h
      | gt =>
        have hlt := Nat.not_le.mpr (Nat.compare_eq_gt.mp hcompare)
        simp only [hlt, false_and, iff_false]
        split
        next => simp
        next => simp

theorem le_iff : g.le other = true ↔ ∀ replicaId, g.get replicaId ≤ other.get replicaId := by
  rw [le, Bool.or_eq_true, beq_iff_eq, beq_iff_eq, partialCmp, compareKeys_le_iff]
  constructor
  · intro h replicaId
    by_cases hmem : replicaId ∈ g.keys
    · exact h replicaId (List.mem_append_left _ hmem)
    · rw [get_eq_zero hmem]
      exact Nat.zero_le _
  · exact fun h replicaId _ => h replicaId

theorem observed_of_le (h : g.le other = true)
    (hobserved : g.observed timestamp = true) : other.observed timestamp = true :=
  observed_iff.mpr ((observed_iff.mp hobserved).trans (le_iff.mp h timestamp.replicaId))

theorem observed_observe {timestamp other : Lamport} (h : g.observed timestamp = true) :
    (g.observe other).observed timestamp = true :=
  observed_iff.mpr ((observed_iff.mp h).trans (le_get_observe g other _))

end Global

abbrev LamportValue := Nat

inductive PlainTextEditorViewAction where
  | insertChar
  | cursorChanged
  | yank
  | cutWordLeft
  | clearBuffer
  | deleteWordLeft
  | deleteWordRight
  | cutWordRight
  | tab
  | indent
  | unindent
  | acceptCompletionSuggestion
  | insertSelectedText
  | systemInsert
  | space
  | nonExpandingSpace
  | newLine
  | backspace
  | delete
  | autoSuggestion
  | cutAll
  | deleteAll
  | clearAndCopyLines
  | clearLines
  | replaceBuffer
  | paste
  | expandAlias
  | cycleCompletionSuggestion
  | updateMarkedText
deriving DecidableEq

def PlainTextEditorViewAction.isAtomic : PlainTextEditorViewAction → Bool
  | .yank | .acceptCompletionSuggestion | .newLine | .deleteWordLeft | .deleteWordRight | .autoSuggestion
  | .replaceBuffer | .paste | .clearLines | .clearAndCopyLines | .deleteAll | .cutAll | .insertSelectedText
  | .cutWordRight | .systemInsert | .expandAlias | .cycleCompletionSuggestion => true
  | _ => false

def undoRedoBatchTimer : Nat := 500

def defaultUndoStackCapacity : Nat := 20

structure UndoStackEntry where
  ops : List LamportValue
  action : PlainTextEditorViewAction

/-- `stack` is a bounded deque: a push at capacity drops the front. -/
structure LocalUndoStack where
  stack : List UndoStackEntry
  capacity : Nat
  currentIndex : Nat
  lastChangedAt : Option Nat

namespace LocalUndoStack

def initEntry : UndoStackEntry := ⟨[], .replaceBuffer⟩

def newWithCapacity (capacity : Nat) : LocalUndoStack := ⟨[initEntry], capacity, 0, none⟩

def new : LocalUndoStack := newWithCapacity defaultUndoStackCapacity

def lastAction (s : LocalUndoStack) : Option PlainTextEditorViewAction :=
  if s.stack.length = 1 then none else s.stack.getLast?.map UndoStackEntry.action

/-- The change of `record_selection_change` to the entry's action. -/
def recordSelectionChange (s : LocalUndoStack) : LocalUndoStack :=
  { s with stack := s.stack.modify s.currentIndex fun entry => { entry with action := .cursorChanged } }

def pushBack (capacity : Nat) (stack : List UndoStackEntry) (entry : UndoStackEntry) : List UndoStackEntry :=
  if stack.length < capacity then stack ++ [entry]
  else if capacity = 0 then stack
  else stack.tail ++ [entry]

def shouldInsertNewEntry (s : LocalUndoStack) (action : PlainTextEditorViewAction) (now : Nat) : Bool :=
  s.currentIndex == 0 || decide (s.currentIndex < s.stack.length - 1) || action.isAtomic ||
    some action != s.lastAction ||
    match s.lastChangedAt with
    | none => true
    | some t => decide (now - t ≥ undoRedoBatchTimer)

/-- `now` is the time the clock shows. -/
def recordEdit (s : LocalUndoStack) (action : PlainTextEditorViewAction) (operations : List LamportValue)
    (now : Nat) : LocalUndoStack :=
  let stack := s.stack.take (s.currentIndex + 1)
  if s.shouldInsertNewEntry action now then
    let stack := pushBack s.capacity stack ⟨operations, action⟩
    { s with stack := stack, currentIndex := stack.length - 1, lastChangedAt := some now }
  else
    { s with
      stack := stack.modify (stack.length - 1) fun back => { back with ops := back.ops ++ operations }
      lastChangedAt := some now }

def undo (s : LocalUndoStack) : Option (List LamportValue × LocalUndoStack) :=
  if s.currentIndex = 0 then none
  else do
    let entry ← s.stack[s.currentIndex]?
    pure (entry.ops, { s with currentIndex := s.currentIndex - 1, lastChangedAt := none })

def redo (s : LocalUndoStack) : Option (List LamportValue × LocalUndoStack) :=
  if s.currentIndex = s.stack.length - 1 then none
  else do
    let entry ← s.stack[s.currentIndex + 1]?
    pure (entry.ops, { s with currentIndex := s.currentIndex + 1, lastChangedAt := none })

end LocalUndoStack

structure UndoHistory where
  map : BTreeMap Lamport (Finset LamportValue)

namespace UndoHistory

def new : UndoHistory := ⟨BTreeMap.empty⟩

/-- The undos of `editId`, none if there is no entry. -/
def undosOf (u : UndoHistory) (editId : Lamport) : Finset LamportValue := (u.map.get editId).getD ∅

def undo (u : UndoHistory) (editId : Lamport) (undoTs : LamportValue) : UndoHistory :=
  ⟨u.map.insert editId (insert undoTs (u.undosOf editId))⟩

def isEditUndone (u : UndoHistory) (editId : Lamport) : Bool := (u.undosOf editId).card % 2 == 1

def wasEditUndone (u : UndoHistory) (editId : Lamport) (version : Global) : Bool :=
  (((u.undosOf editId).sort (· ≤ ·)).takeWhile
    fun undo => version.observed ⟨editId.replicaId, undo⟩).length % 2 == 1

theorem undosOf_undo (u : UndoHistory) (editId other : Lamport) (undoTs : LamportValue) :
    (u.undo editId undoTs).undosOf other =
      if other = editId then insert undoTs (u.undosOf other) else u.undosOf other := by
  rw [undosOf, undo, BTreeMap.get_insert]
  split
  next h =>
    subst h
    rfl
  next => rfl

/-- The undos registered one after the other by `undo_or_redo`. -/
def undoAll (u : UndoHistory) (undoTs : Lamport) (edits : List LamportValue) : UndoHistory :=
  edits.foldl (fun u edit => u.undo ⟨undoTs.replicaId, edit⟩ undoTs.value) u

theorem undosOf_undoAll (u : UndoHistory) (undoTs : Lamport) (edits : List LamportValue) (other : Lamport) :
    (u.undoAll undoTs edits).undosOf other =
      if other.replicaId = undoTs.replicaId ∧ other.value ∈ edits then insert undoTs.value (u.undosOf other)
      else u.undosOf other := by
  induction edits generalizing u with
  | nil => simp [undoAll]
  | cons edit edits ih =>
    rw [undoAll, List.foldl_cons]
    change ((u.undo ⟨undoTs.replicaId, edit⟩ undoTs.value).undoAll undoTs edits).undosOf other = _
    rw [ih, undosOf_undo]
    obtain ⟨replicaId, value⟩ := other
    simp only [Lamport.mk.injEq, List.mem_cons]
    by_cases hreplica : replicaId = undoTs.replicaId
    · by_cases hvalue : value = edit
      · simp [hreplica, hvalue]
      · simp [hreplica, hvalue]
    · simp [hreplica]

end UndoHistory

end InfiniShell.Editor
