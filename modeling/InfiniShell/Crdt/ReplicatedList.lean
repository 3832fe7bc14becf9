import Mathlib.Data.Finset.Basic
import Mathlib.Data.List.Basic
import Mathlib.Order.Defs.LinearOrder

namespace InfiniShell.Crdt

variable {T α : Type}

/-- What an insertion put into the list, with the edits that deleted it since. -/
structure Element (T α : Type) where
  id : T
  offset : Nat
  value : α
  deletions : Finset T
deriving DecidableEq

abbrev Key (T : Type) := T × Nat

namespace Element

def key (e : Element T α) : Key T := (e.id, e.offset)

variable [DecidableEq T]

def mark (ts : T) (e : Element T α) : Element T α := { e with deletions := insert ts e.deletions }

/-- Seen when the insertion stands and every deletion is undone. -/
def visible (undone : T → Bool) (e : Element T α) : Bool :=
  !undone e.id && decide (∀ d ∈ e.deletions, undone d = true)

@[simp] theorem mark_id (ts : T) (e : Element T α) : (e.mark ts).id = e.id := rfl

@[simp] theorem mark_key (ts : T) (e : Element T α) : (e.mark ts).key = e.key := rfl

theorem mark_mark (ts ts' : T) (e : Element T α) : (e.mark ts).mark ts' = (e.mark ts').mark ts := by
  simp only [mark, Finset.insert_comm]

end Element

def runFrom (ts : T) : Nat → List α → List (Element T α)
  | _, [] => []
  | offset, value :: values => ⟨ts, offset, value, ∅⟩ :: runFrom ts (offset + 1) values

theorem runFrom_id {ts : T} {offset : Nat} {values : List α} : ∀ e ∈ runFrom ts offset values, e.id = ts := by
  induction values generalizing offset with
  | nil => exact fun e he => absurd he List.not_mem_nil
  | cons value values ih =>
    intro e he
    cases List.mem_cons.mp he with
    | inl h => rw [h]
    | inr h => exact ih e h

variable [LinearOrder T]

/-- A new run goes before the first element of an older insertion. -/
def place (ts : T) (run : List (Element T α)) : List (Element T α) → List (Element T α)
  | [] => run
  | e :: elements => if e.id < ts then run ++ e :: elements else e :: place ts run elements

/-- Placed behind the anchor, the head of the list if there is none. -/
def insertAfter (ts : T) (run : List (Element T α)) : Option (Key T) → List (Element T α) → List (Element T α)
  | none, elements => place ts run elements
  | some _, [] => []
  | some anchor, e :: elements =>
    if e.key = anchor then e :: place ts run elements else e :: insertAfter ts run (some anchor) elements

@[simp] theorem insertAfter_none (ts : T) (run elements : List (Element T α)) :
    insertAfter ts run none elements = place ts run elements := by
  cases elements with
  | nil => rfl
  | cons e elements => rfl

/-- Where a walk over the list is, seen from the range between two anchors. -/
inductive Phase where
  | before
  | within
  | after
deriving DecidableEq

/-- A replacement of the elements behind `start`, as far as `stop`, that the edit has observed. -/
structure Replacement (T α : Type) where
  ts : T
  start : Option (Key T)
  stop : Option (Key T)
  observed : T → Bool
  values : List α

namespace Replacement

variable (r : Replacement T α)

def firstPhase : Phase := if r.start = none then if r.stop = none then .after else .within else .before

def nextPhase : Phase → Key T → Phase
  | .before, key => if some key = r.start then if r.stop = r.start then .after else .within else .before
  | .within, key => if some key = r.stop then .after else .within
  | .after, _ => .after

def markIf (phase : Phase) (e : Element T α) : Element T α :=
  if phase = .within ∧ r.observed e.id = true then e.mark r.ts else e

def markFrom : Phase → List (Element T α) → List (Element T α)
  | _, [] => []
  | phase, e :: elements => r.markIf phase e :: markFrom (r.nextPhase phase e.key) elements

def run : List (Element T α) := runFrom r.ts 0 r.values

def apply (elements : List (Element T α)) : List (Element T α) :=
  insertAfter r.ts r.run r.start (r.markFrom r.firstPhase elements)

end Replacement

def Apart (ts : T) (anchor : Option (Key T)) : Prop := ∀ key ∈ anchor, key.1 ≠ ts

section Insert

variable {ts ts' : T} {run run' : List (Element T α)}

section

variable (hrun : ∀ e ∈ run, e.id = ts)
include hrun

theorem place_append (hlt : ts' < ts) (elements : List (Element T α)) :
    place ts' run' (run ++ elements) = run ++ place ts' run' elements := by
  induction run with
  | nil => rfl
  | cons e run ih =>
    have he := hrun e List.mem_cons_self
    rw [List.cons_append, place, if_neg (by rw [he]; exact hlt.asymm), List.cons_append,
      ih fun e he => hrun e (List.mem_cons_of_mem _ he)]

theorem place_append_of_lt (hlt : ts < ts') (hne : run ≠ [])
    (elements : List (Element T α)) : place ts' run' (run ++ elements) = run' ++ run ++ elements := by
  cases run with
  | nil => exact absurd rfl hne
  | cons e run =>
    have he := hrun e List.mem_cons_self
    rw [List.cons_append, place, if_pos (by rw [he]; exact hlt), List.append_assoc, List.cons_append]

theorem place_comm_of_lt (hrun' : ∀ e ∈ run', e.id = ts') (hlt : ts < ts') (elements : List (Element T α)) :
    place ts run (place ts' run' elements) = place ts' run' (place ts run elements) := by
  induction elements with
  | nil =>
    have h : place ts run (run' ++ []) = _ := place_append hrun' hlt []
    rw [List.append_nil] at h
    change place ts run run' = place ts' run' run
    rw [h]
    change run' ++ run = _
    cases hempty : run with
    | nil => exact List.append_nil _
    | cons e rest =>
      have hne : run ≠ [] := by
        rw [hempty]
        exact List.cons_ne_nil e rest
      have h : place ts' run' (run ++ []) = _ := place_append_of_lt hrun hlt hne []
      rw [List.append_nil, List.append_nil, hempty] at h
      exact h.symm
  | cons e elements ih =>
    by_cases he : e.id < ts
    · have he' := he.trans hlt
      have hleft : place ts' run' (e :: elements) = run' ++ e :: elements := if_pos he'
      have hright : place ts run (e :: elements) = run ++ e :: elements := if_pos he
      rw [hleft, hright, place_append hrun' hlt, hright]
      cases hempty : run with
      | nil => exact hleft.symm
      | cons d rest =>
        rw [← hempty, place_append_of_lt hrun hlt (by rw [hempty]; exact List.cons_ne_nil d rest),
          List.append_assoc]
    · have hright : place ts run (e :: elements) = e :: place ts run elements := if_neg he
      by_cases he' : e.id < ts'
      · have hleft : place ts' run' (e :: elements) = run' ++ e :: elements := if_pos he'
        have hlast : place ts' run' (e :: place ts run elements) = run' ++ e :: place ts run elements := if_pos he'
        rw [hleft, hright, hlast, place_append hrun' hlt, hright]
      · have hleft : place ts' run' (e :: elements) = e :: place ts' run' elements := if_neg he'
        have hlast : place ts' run' (e :: place ts run elements) = e :: place ts' run' (place ts run elements) :=
          if_neg he'
        rw [hleft, hright, hlast, ← ih]
        exact if_neg he

theorem place_comm (hrun' : ∀ e ∈ run', e.id = ts') (hne : ts ≠ ts') (elements : List (Element T α)) :
    place ts run (place ts' run' elements) = place ts' run' (place ts run elements) := by
  cases lt_or_gt_of_ne hne with
  | inl hlt => exact place_comm_of_lt hrun hrun' hlt elements
  | inr hlt => exact (place_comm_of_lt hrun' hrun hlt elements).symm

end

variable {anchor : Key T} (hrun : ∀ e ∈ run, e.id = ts)
include hrun

theorem insertAfter_append (hanchor : anchor.1 ≠ ts) (elements : List (Element T α)) :
    insertAfter ts' run' (some anchor) (run ++ elements) = run ++ insertAfter ts' run' (some anchor) elements := by
  induction run with
  | nil => rfl
  | cons e run ih =>
    have hkey : e.key ≠ anchor := fun h => hanchor (h ▸ hrun e List.mem_cons_self)
    rw [List.cons_append, insertAfter, if_neg hkey, List.cons_append,
      ih fun e he => hrun e (List.mem_cons_of_mem _ he)]

variable (hrun' : ∀ e ∈ run', e.id = ts')
include hrun'

theorem place_insertAfter (hne : ts ≠ ts') (hanchor : anchor.1 ≠ ts) (elements : List (Element T α)) :
    place ts run (insertAfter ts' run' (some anchor) elements) =
      insertAfter ts' run' (some anchor) (place ts run elements) := by
  induction elements with
  | nil =>
    have h : insertAfter ts' run' (some anchor) (run ++ []) = _ := insertAfter_append hrun hanchor []
    rw [List.append_nil] at h
    change run = insertAfter ts' run' (some anchor) run
    rw [h]
    exact (List.append_nil run).symm
  | cons e elements ih =>
    by_cases hkey : e.key = anchor
    · have hins : ∀ l, insertAfter ts' run' (some anchor) (e :: l) = e :: place ts' run' l := fun l => if_pos hkey
      by_cases he : e.id < ts
      · have hplace : ∀ l, place ts run (e :: l) = run ++ e :: l := fun l => if_pos he
        rw [hins, hplace, hplace, insertAfter_append hrun hanchor, hins]
      · have hplace : ∀ l, place ts run (e :: l) = e :: place ts run l := fun l => if_neg he
        rw [hins, hplace, hplace, hins, place_comm hrun hrun' hne]
    · have hins : ∀ l, insertAfter ts' run' (some anchor) (e :: l) = e :: insertAfter ts' run' (some anchor) l :=
        fun l => if_neg hkey
      by_cases he : e.id < ts
      · have hplace : ∀ l, place ts run (e :: l) = run ++ e :: l := fun l => if_pos he
        rw [hins, hplace, hplace, insertAfter_append hrun hanchor, hins]
      · have hplace : ∀ l, place ts run (e :: l) = e :: place ts run l := fun l => if_neg he
        rw [hins, hplace, hplace, hins, ih]

theorem insertAfter_some_comm (hne : ts ≠ ts')
    {anchor anchor' : Key T} (hanchor : anchor.1 ≠ ts') (hanchor' : anchor'.1 ≠ ts)
    (elements : List (Element T α)) :
    insertAfter ts run (some anchor) (insertAfter ts' run' (some anchor') elements) =
      insertAfter ts' run' (some anchor') (insertAfter ts run (some anchor) elements) := by
  induction elements with
  | nil => rfl
  | cons e elements ih =>
    by_cases hkey : e.key = anchor
    · have hins : ∀ l, insertAfter ts run (some anchor) (e :: l) = e :: place ts run l := fun l => if_pos hkey
      by_cases hkey' : e.key = anchor'
      · have hins' : ∀ l, insertAfter ts' run' (some anchor') (e :: l) = e :: place ts' run' l :=
          fun l => if_pos hkey'
        rw [hins, hins', hins, hins', place_comm hrun hrun' hne]
      · have hins' : ∀ l, insertAfter ts' run' (some anchor') (e :: l) = e :: insertAfter ts' run' (some anchor') l :=
          fun l => if_neg hkey'
        rw [hins, hins', hins, hins', place_insertAfter hrun hrun' hne hanchor']
    · have hins : ∀ l, insertAfter ts run (some anchor) (e :: l) = e :: insertAfter ts run (some anchor) l :=
        fun l => if_neg hkey
      by_cases hkey' : e.key = anchor'
      · have hins' : ∀ l, insertAfter ts' run' (some anchor') (e :: l) = e :: place ts' run' l :=
          fun l => if_pos hkey'
        rw [hins, hins', hins, hins', place_insertAfter hrun' hrun hne.symm hanchor]
      · have hins' : ∀ l, insertAfter ts' run' (some anchor') (e :: l) = e :: insertAfter ts' run' (some anchor') l :=
          fun l => if_neg hkey'
        rw [hins, hins', hins, hins', ih]

theorem insertAfter_comm (hne : ts ≠ ts')
    {anchor anchor' : Option (Key T)} (hanchor : Apart ts' anchor) (hanchor' : Apart ts anchor')
    (elements : List (Element T α)) :
    insertAfter ts run anchor (insertAfter ts' run' anchor' elements) =
      insertAfter ts' run' anchor' (insertAfter ts run anchor elements) := by
  cases anchor with
  | none =>
    cases anchor' with
    | none => simpa only [insertAfter_none] using place_comm hrun hrun' hne elements
    | some key' =>
      simpa only [insertAfter_none] using place_insertAfter hrun hrun' hne (hanchor' key' rfl) elements
  | some key =>
    cases anchor' with
    | none =>
      simpa only [insertAfter_none] using (place_insertAfter hrun' hrun hne.symm (hanchor key rfl) elements).symm
    | some key' => exact insertAfter_some_comm hrun hrun' hne (hanchor key rfl) (hanchor' key' rfl) elements

end Insert

namespace Replacement

variable {r r' : Replacement T α}

omit [LinearOrder T] in
theorem run_id (r : Replacement T α) : ∀ e ∈ r.run, e.id = r.ts := runFrom_id

theorem markIf_key (phase : Phase) (e : Element T α) : (r.markIf phase e).key = e.key := by
  unfold markIf
  split
  next => rfl
  next => rfl

theorem markIf_id (phase : Phase) (e : Element T α) : (r.markIf phase e).id = e.id :=
  congrArg Prod.fst (markIf_key phase e)

theorem markIf_comm (phase phase' : Phase) (e : Element T α) :
    r.markIf phase (r'.markIf phase' e) = r'.markIf phase' (r.markIf phase e) := by
  unfold markIf
  by_cases h : phase = .within ∧ r.observed e.id = true
  · by_cases h' : phase' = .within ∧ r'.observed e.id = true
    · simp [h, h', Element.mark_mark]
    · simp [h, h']
  · by_cases h' : phase' = .within ∧ r'.observed e.id = true
    · simp [h, h']
    · simp [h, h']

theorem markFrom_comm (phase phase' : Phase) (elements : List (Element T α)) :
    r.markFrom phase (r'.markFrom phase' elements) = r'.markFrom phase' (r.markFrom phase elements) := by
  induction elements generalizing phase phase' with
  | nil => rfl
  | cons e elements ih => simp only [markFrom, markIf_key, markIf_comm (r := r), ih]

/-- A walk goes through the run of another edit as if it were not there. -/
structure Ignores (r : Replacement T α) (ts : T) : Prop where
  start : Apart ts r.start
  stop : Apart ts r.stop
  observed : r.observed ts = false

variable {ts : T}

theorem Ignores.nextPhase (h : r.Ignores ts) {key : Key T} (hkey : key.1 = ts) (phase : Phase) :
    r.nextPhase phase key = phase := by
  have hstart : some key ≠ r.start := fun heq => h.start key heq.symm hkey
  have hstop : some key ≠ r.stop := fun heq => h.stop key heq.symm hkey
  cases phase with
  | before => exact if_neg hstart
  | within => exact if_neg hstop
  | after => rfl

theorem Ignores.markIf (h : r.Ignores ts) {e : Element T α} (he : e.id = ts) (phase : Phase) :
    r.markIf phase e = e := by
  refine if_neg fun hmark => ?_
  rw [he, h.observed] at hmark
  exact absurd hmark.2 Bool.false_ne_true

variable {run : List (Element T α)}

theorem Ignores.markFrom_append (h : r.Ignores ts)
    (hrun : ∀ e ∈ run, e.id = ts) (phase : Phase) (elements : List (Element T α)) :
    r.markFrom phase (run ++ elements) = run ++ r.markFrom phase elements := by
  induction run with
  | nil => rfl
  | cons e run ih =>
    have he := hrun e List.mem_cons_self
    have hnext : r.nextPhase phase e.key = phase := h.nextPhase he phase
    rw [List.cons_append, markFrom, h.markIf he, hnext, List.cons_append,
      ih fun e he => hrun e (List.mem_cons_of_mem _ he)]

theorem Ignores.markFrom_place (h : r.Ignores ts)
    (hrun : ∀ e ∈ run, e.id = ts) (phase : Phase) (elements : List (Element T α)) :
    r.markFrom phase (place ts run elements) = place ts run (r.markFrom phase elements) := by
  induction elements generalizing phase with
  | nil =>
    have heq := h.markFrom_append hrun phase []
    rw [List.append_nil] at heq
    change r.markFrom phase run = run
    rw [heq]
    exact List.append_nil run
  | cons e elements ih =>
    by_cases he : e.id < ts
    · rw [place, if_pos he, h.markFrom_append hrun]
      exact (if_pos (by rw [markIf_id]; exact he)).symm
    · rw [place, if_neg he, markFrom, ih, markFrom, place, if_neg (by rw [markIf_id]; exact he)]

theorem Ignores.markFrom_insertAfter (h : r.Ignores ts)
    (hrun : ∀ e ∈ run, e.id = ts) (anchor : Option (Key T)) (phase : Phase) (elements : List (Element T α)) :
    r.markFrom phase (insertAfter ts run anchor elements) = insertAfter ts run anchor (r.markFrom phase elements) := by
  cases anchor with
  | none => simpa only [insertAfter_none] using h.markFrom_place hrun phase elements
  | some anchor =>
    induction elements generalizing phase with
    | nil => rfl
    | cons e elements ih =>
      by_cases hkey : e.key = anchor
      · rw [insertAfter, if_pos hkey, markFrom, h.markFrom_place hrun, markFrom, insertAfter,
          if_pos (by rw [markIf_key]; exact hkey)]
      · rw [insertAfter, if_neg hkey, markFrom, ih, markFrom, insertAfter,
          if_neg (by rw [markIf_key]; exact hkey)]

theorem apply_comm (hne : r.ts ≠ r'.ts) (h : r.Ignores r'.ts) (h' : r'.Ignores r.ts) (elements : List (Element T α)) :
    r.apply (r'.apply elements) = r'.apply (r.apply elements) := by
  unfold apply
  rw [h.markFrom_insertAfter r'.run_id, h'.markFrom_insertAfter r.run_id, markFrom_comm,
    insertAfter_comm r.run_id r'.run_id hne h.start h'.start]

end Replacement

end InfiniShell.Crdt
