import InfiniShell.Collections.BTreeMap

namespace InfiniShell.Scrollback

open Collections

variable {A : Type}

/-- The values of an attribute by byte offset. Each key is the last offset of a range. -/
structure AttributeMap (A : Type) where
  map : BTreeMap Nat A
  tailValue : A

namespace AttributeMap

instance [DecidableEq A] : DecidableEq (AttributeMap A) := fun m n =>
  decidable_of_iff (m.map = n.map ∧ m.tailValue = n.tailValue) (by cases m; cases n; simp)

def new (startingValue : A) : AttributeMap A := ⟨.empty, startingValue⟩

def truncate (m : AttributeMap A) (newLen : Nat) : AttributeMap A :=
  let truncatedRanges := m.map.atLeast newLen
  { map := m.map.below newLen
    tailValue := match truncatedRanges.first? with
      | some (_, tailValue) => tailValue
      | none => m.tailValue }

def truncateFront (m : AttributeMap A) (newStartOffset : Nat) : AttributeMap A :=
  { m with map := m.map.atLeast newStartOffset }

def lastEndOffset (m : AttributeMap A) : Nat :=
  match m.map.last? with
  | some (k, _) => k
  | none => 0

/-- What `push_attribute_change` asks of the start of its range. -/
def Accepts (m : AttributeMap A) (start : Nat) : Prop :=
  if start = 0 then m.map.last? = none else m.lastEndOffset < start

instance [DecidableEq A] (m : AttributeMap A) (start : Nat) : Decidable (m.Accepts start) :=
  inferInstanceAs (Decidable (if start = 0 then m.map.last? = none else m.lastEndOffset < start))

/-- As in a release build: the assertions on the start are `Accepts`. -/
def pushAttributeChange [DecidableEq A] (m : AttributeMap A) (start : Nat) (value : A) : AttributeMap A :=
  if value = m.tailValue then m
  else if start = 0 then { m with tailValue := value }
  else { map := m.map.insert (start - 1) m.tailValue, tailValue := value }

def tail (m : AttributeMap A) : A := m.tailValue

/-- A range without an end is the one of the tail value. -/
structure Iter (A : Type) where
  curOffset : Nat
  curRange : Option Nat × A
  inner : List (Nat × A)
  tailValue : A

namespace Iter

def nextRange (inner : List (Nat × A)) (tail : A) : (Option Nat × A) × List (Nat × A) :=
  match inner with
  | [] => ((none, tail), [])
  | (k, v) :: rest => ((some k, v), rest)

def skip (offset : Nat) (tail : A) : Option Nat × A → List (Nat × A) → (Option Nat × A) × List (Nat × A)
  | (none, value), inner => ((none, value), inner)
  | (some last, value), inner =>
    if offset ≤ last then ((some last, value), inner)
    else match inner with
      | [] => ((none, tail), [])
      | (k, v) :: rest => skip offset tail (some k, v) rest

def nth (it : Iter A) (n : Nat) : A × Iter A :=
  let curOffset := it.curOffset + n
  let (curRange, inner) := skip curOffset it.tailValue it.curRange it.inner
  (curRange.2, { it with curOffset := curOffset + 1, curRange, inner })

def next (it : Iter A) : A × Iter A := it.nth 0

def take : Nat → Iter A → List A
  | 0, _ => []
  | count + 1, it => it.next.1 :: take count it.next.2

end Iter

def iterFrom (m : AttributeMap A) (startOffset : Nat) : Iter A :=
  let (curRange, inner) := Iter.nextRange (m.map.atLeast startOffset).entries m.tailValue
  { curOffset := startOffset, curRange, inner, tailValue := m.tailValue }

def valueAt (m : AttributeMap A) (offset : Nat) : A :=
  match (m.map.atLeast offset).first? with
  | some (_, value) => value
  | none => m.tailValue

theorem valueAt_eq_find (m : AttributeMap A) (offset : Nat) :
    m.valueAt offset = ((m.map.entries.find? fun e => offset ≤ e.1).map Prod.snd).getD m.tailValue := by
  rw [valueAt, BTreeMap.first?_atLeast]
  cases m.map.entries.find? (fun e => offset ≤ e.1) <;> rfl

variable {m : AttributeMap A}

theorem valueAt_of_lt {offset : Nat} (h : ∀ e ∈ m.map.entries, e.1 < offset) :
    m.valueAt offset = m.tailValue := by
  rw [valueAt, BTreeMap.first?_atLeast_eq_none.mpr h]

theorem truncate_tailValue (m : AttributeMap A) (n : Nat) : (m.truncate n).tailValue = m.valueAt n := rfl

theorem valueAt_truncate (m : AttributeMap A) (n offset : Nat) :
    (m.truncate n).valueAt offset = m.valueAt (min offset n) := by
  by_cases h : offset ≤ n
  · rw [Nat.min_eq_left h, valueAt, valueAt, m.map.first?_atLeast_of_le h, truncate_tailValue]
    change (match ((m.map.below n).atLeast offset).first? with
      | some (_, value) => value
      | none => m.valueAt n) = _
    cases ((m.map.below n).atLeast offset).first? with
    | some e => rfl
    | none => rfl
  · have hle : n ≤ offset := Nat.le_of_lt (Nat.not_le.mp h)
    rw [Nat.min_eq_right hle, ← truncate_tailValue]
    apply valueAt_of_lt
    intro e he
    exact Nat.lt_of_lt_of_le (BTreeMap.mem_below.mp he).2 hle

theorem valueAt_truncateFront (m : AttributeMap A) (n offset : Nat) :
    (m.truncateFront n).valueAt offset = m.valueAt (max offset n) := by
  rw [valueAt, valueAt, Nat.max_comm, ← m.map.atLeast_atLeast]
  rfl

structure All (p : A → Prop) (m : AttributeMap A) : Prop where
  tail : p m.tailValue
  entries : ∀ e ∈ m.map.entries, p e.2

variable {p : A → Prop}

theorem new_all {startingValue : A} (h : p startingValue) : (new startingValue).All p :=
  ⟨h, fun _ he => absurd he List.not_mem_nil⟩

theorem All.valueAt (h : m.All p) (offset : Nat) : p (m.valueAt offset) := by
  rw [valueAt_eq_find]
  cases hfind : m.map.entries.find? (fun e => offset ≤ e.1) with
  | none => exact h.tail
  | some e => exact h.entries e (List.mem_of_find?_eq_some hfind)

theorem All.truncate (h : m.All p) (n : Nat) : (m.truncate n).All p :=
  ⟨h.valueAt n, fun e he => h.entries e (BTreeMap.mem_below.mp he).1⟩

theorem All.truncateFront (h : m.All p) (n : Nat) : (m.truncateFront n).All p :=
  ⟨h.tail, fun e he => h.entries e (BTreeMap.mem_atLeast.mp he).1⟩

theorem All.pushAttributeChange [DecidableEq A] (h : m.All p) (start : Nat)
    {value : A} (hvalue : p value) : (m.pushAttributeChange start value).All p := by
  unfold AttributeMap.pushAttributeChange
  split
  next => exact h
  next =>
    split
    next => exact ⟨hvalue, h.entries⟩
    next =>
      refine ⟨hvalue, ?_⟩
      intro e he
      cases BTreeMap.mem_insertList _ _ _ e he with
      | inl he =>
        rw [he]
        exact h.tail
      | inr he => exact h.entries e he

section Push

variable [DecidableEq A] {m : AttributeMap A} {start : Nat}

@[simp] theorem pushAttributeChange_tailValue (m : AttributeMap A) (start : Nat) (value : A) :
    (m.pushAttributeChange start value).tailValue = value := by
  unfold pushAttributeChange
  split
  next h => exact h.symm
  next => split <;> rfl

theorem pushAttributeChange_entries (h : ∀ e ∈ m.map.entries, e.1 + 1 < start) (value : A) :
    (m.pushAttributeChange start value).map.entries =
      if value = m.tailValue ∨ start = 0 then m.map.entries else m.map.entries ++ [(start - 1, m.tailValue)] := by
  unfold pushAttributeChange
  split
  next hv => rw [if_pos (.inl hv)]
  next hv =>
    split
    next hs => rw [if_pos (.inr hs)]
    next hs =>
      rw [if_neg (by simp [hv, hs])]
      apply BTreeMap.insert_entries_of_lt
      intro e he
      have hlt := h e he
      omega

theorem valueAt_pushAttributeChange (h : ∀ e ∈ m.map.entries, e.1 + 1 < start) (value : A) (offset : Nat) :
    (m.pushAttributeChange start value).valueAt offset = if start ≤ offset then value else m.valueAt offset := by
  have hentries := pushAttributeChange_entries h value
  split
  next hle =>
    rw [valueAt_of_lt, pushAttributeChange_tailValue]
    intro e he
    rw [hentries] at he
    split at he
    next =>
      have hlt := h e he
      omega
    next =>
      cases List.mem_append.mp he with
      | inl he =>
        have hlt := h e he
        omega
      | inr he =>
        rw [List.mem_singleton.mp he]
        simp only
        omega
  next hlt =>
    rw [valueAt_eq_find, valueAt_eq_find, hentries, pushAttributeChange_tailValue]
    by_cases hv : value = m.tailValue
    · rw [if_pos (.inl hv), hv]
    · have hs : ¬ (value = m.tailValue ∨ start = 0) := by
        rintro (heq | hzero)
        · exact hv heq
        · omega
      have hoffset : offset ≤ start - 1 := by omega
      rw [if_neg hs, List.find?_append]
      cases m.map.entries.find? (fun e => offset ≤ e.1) with
      | some e => rfl
      | none => simp [hoffset]

end Push

namespace Iter

def ranges (curRange : Option Nat × A) (inner : List (Nat × A)) : List (Nat × A) :=
  match curRange with
  | (some k, value) => (k, value) :: inner
  | (none, _) => []

structure Reads (it : Iter A) (m : AttributeMap A) : Prop where
  tail : it.tailValue = m.tailValue
  open_range : it.curRange.1 = none → it.curRange.2 = m.tailValue
  ranges : ∀ offset, it.curOffset ≤ offset → (ranges it.curRange it.inner).find? (fun e => offset ≤ e.1) =
    m.map.entries.find? (fun e => offset ≤ e.1)

theorem skip_spec (offset : Nat) (tail : A) (curRange : Option Nat × A) (inner : List (Nat × A))
    (hopen : curRange.1 = none → curRange.2 = tail) :
    let next := skip offset tail curRange inner
    next.1.2 = (((ranges curRange inner).find? fun e => offset ≤ e.1).map Prod.snd).getD tail ∧
      (next.1.1 = none → next.1.2 = tail) ∧
      ∀ later, offset ≤ later → (ranges next.1 next.2).find? (fun e => later ≤ e.1) =
        (ranges curRange inner).find? (fun e => later ≤ e.1) := by
  induction inner generalizing curRange with
  | nil =>
    obtain ⟨last, value⟩ := curRange
    cases last with
    | none => exact ⟨hopen rfl, hopen, fun _ _ => rfl⟩
    | some last =>
      rw [skip]
      split
      next hle => simp [ranges, hle]
      next hle =>
        refine ⟨by simp [ranges, hle], fun _ => rfl, ?_⟩
        intro later hlater
        have hlast : ¬ later ≤ last := by omega
        simp [ranges, hlast]
  | cons d inner ih =>
    obtain ⟨last, value⟩ := curRange
    cases last with
    | none => exact ⟨hopen rfl, hopen, fun _ _ => rfl⟩
    | some last =>
      rw [skip]
      split
      next hle => simp [ranges, hle]
      next hle =>
        -- The current range ends before the offset: none of the later offsets is in it.
        have hdrop : ∀ later, offset ≤ later →
            (ranges (some last, value) (d :: inner)).find? (fun e => later ≤ e.1) =
              (ranges (some d.1, d.2) inner).find? (fun e => later ≤ e.1) := by
          intro later hlater
          have hlast : ¬ later ≤ last := by omega
          simp [ranges, hlast]
        obtain ⟨hvalue, hnone, hlater⟩ := ih (some d.1, d.2) (by simp)
        refine ⟨?_, hnone, ?_⟩
        · rw [hdrop offset (Nat.le_refl _)]
          exact hvalue
        · intro later hle
          rw [hdrop later hle]
          exact hlater later hle

variable {it : Iter A} {m : AttributeMap A}

theorem Reads.nth (h : it.Reads m) (n : Nat) :
    (it.nth n).1 = m.valueAt (it.curOffset + n) ∧ (it.nth n).2.Reads m ∧
      (it.nth n).2.curOffset = it.curOffset + n + 1 := by
  obtain ⟨hvalue, hopen, hlater⟩ :=
    skip_spec (it.curOffset + n) it.tailValue it.curRange it.inner (h.tail ▸ h.open_range)
  refine ⟨?_, ⟨h.tail, ?_, ?_⟩, rfl⟩
  · rw [valueAt_eq_find, ← h.ranges _ (Nat.le_add_right _ _), ← h.tail]
    exact hvalue
  · rw [← h.tail]
    exact hopen
  · intro offset hoffset
    have hle : it.curOffset + n + 1 ≤ offset := hoffset
    rw [← h.ranges offset (by omega)]
    exact hlater offset (by omega)

theorem Reads.take (h : it.Reads m) (count : Nat) :
    it.take count = (List.range count).map fun i => m.valueAt (it.curOffset + i) := by
  induction count generalizing it with
  | zero => rfl
  | succ count ih =>
    obtain ⟨hvalue, hreads, hoffset⟩ := h.nth 0
    rw [Iter.take, List.range_succ_eq_map, List.map_cons, List.map_map]
    congr 1
    rw [next, ih hreads, hoffset]
    apply List.map_congr_left
    intro i _
    rw [Function.comp_apply]
    congr 1
    omega

end Iter

theorem iterFrom_reads (m : AttributeMap A) (startOffset : Nat) : (m.iterFrom startOffset).Reads m := by
  have hfind : ∀ offset, startOffset ≤ offset → (m.map.atLeast startOffset).entries.find? (fun e => offset ≤ e.1) =
      m.map.entries.find? (fun e => offset ≤ e.1) := by
    intro offset hle
    rw [← BTreeMap.first?_atLeast, m.map.atLeast_atLeast, Nat.max_eq_right hle, BTreeMap.first?_atLeast]
  unfold iterFrom
  cases hentries : (m.map.atLeast startOffset).entries with
  | nil =>
    refine ⟨rfl, fun _ => rfl, ?_⟩
    intro offset hle
    rw [← hfind offset hle, hentries]
    rfl
  | cons e rest =>
    refine ⟨rfl, nofun, ?_⟩
    intro offset hle
    rw [← hfind offset hle, hentries]
    rfl

theorem iterFrom_take (m : AttributeMap A) (startOffset count : Nat) :
    (m.iterFrom startOffset).take count = (List.range count).map fun i => m.valueAt (startOffset + i) := by
  have hoffset : (m.iterFrom startOffset).curOffset = startOffset := by
    unfold iterFrom
    rfl
  rw [(m.iterFrom_reads startOffset).take, hoffset]

end AttributeMap

/-- The changes of an attribute that are still to be known, oldest first: what a map is for. -/
structure AttributeChanges (A : Type) where
  start : Nat
  base : A
  pushes : List (Nat × A)

namespace AttributeChanges

def new (startingValue : A) : AttributeChanges A := ⟨0, startingValue, []⟩

def valueAt (c : AttributeChanges A) (offset : Nat) : A :=
  ((c.pushes.filter fun e => e.1 ≤ offset).getLast?.map Prod.snd).getD c.base

def valueBefore (c : AttributeChanges A) (offset : Nat) : A :=
  ((c.pushes.filter fun e => e.1 < offset).getLast?.map Prod.snd).getD c.base

def push (c : AttributeChanges A) (start : Nat) (value : A) : AttributeChanges A :=
  { c with pushes := c.pushes ++ [(start, value)] }

def truncate (c : AttributeChanges A) (n : Nat) : AttributeChanges A :=
  { c with pushes := c.pushes.filter fun e => e.1 < n }

def truncateFront (c : AttributeChanges A) (n : Nat) : AttributeChanges A :=
  { start := n, base := c.valueAt n, pushes := c.pushes.filter fun e => n < e.1 }

def QuietAt (c : AttributeChanges A) (offset : Nat) : Prop := c.valueAt offset = c.valueBefore offset

instance [DecidableEq A] (c : AttributeChanges A) (offset : Nat) : Decidable (c.QuietAt offset) :=
  inferInstanceAs (Decidable (c.valueAt offset = c.valueBefore offset))

theorem valueAt_push (c : AttributeChanges A) (start : Nat) (value : A) (offset : Nat) :
    (c.push start value).valueAt offset = if start ≤ offset then value else c.valueAt offset := by
  rw [valueAt, push, List.filter_append]
  split
  next hle => simp [hle]
  next hlt =>
    simp only [List.filter_cons, hlt, decide_false, Bool.false_eq_true, if_false, List.filter_nil, List.append_nil]
    rfl

theorem valueAt_truncate (c : AttributeChanges A) (n offset : Nat) :
    (c.truncate n).valueAt offset = if offset < n then c.valueAt offset else c.valueBefore n := by
  have hfilter : (c.truncate n).pushes.filter (fun e => e.1 ≤ offset) =
      if offset < n then c.pushes.filter (fun e => e.1 ≤ offset) else c.pushes.filter (fun e => e.1 < n) := by
    rw [truncate, List.filter_filter]
    split <;>
    · apply List.filter_congr
      intro e _
      rw [← Bool.decide_and, decide_eq_decide]
      omega
  rw [valueAt, hfilter]
  split <;> rfl

variable {c : AttributeChanges A}

theorem valueAt_truncateFront (h : c.pushes.Pairwise fun a b => a.1 < b.1) (n offset : Nat) :
    (c.truncateFront n).valueAt offset = c.valueAt (max offset n) := by
  have hsplit : c.pushes.filter (fun e => e.1 ≤ max offset n) =
      c.pushes.filter (fun e => e.1 ≤ n) ++ (c.pushes.filter fun e => n < e.1).filter fun e => e.1 ≤ offset := by
    rw [← BTreeMap.filter_lt_append_filter_le _ (h.filter fun e => e.1 ≤ max offset n) (n + 1), List.filter_filter,
      List.filter_filter, List.filter_filter]
    congr 1 <;>
    · apply List.filter_congr
      intro e _
      simp only [← Bool.decide_and, decide_eq_decide]
      omega
  rw [valueAt, valueAt, hsplit, List.getLast?_append, truncateFront, valueAt]
  cases ((c.pushes.filter fun e => n < e.1).filter fun e => e.1 ≤ offset).getLast? <;> rfl

theorem exists_push_of_ne {offset : Nat} (h : c.valueAt offset ≠ c.valueAt (offset + 1)) :
    ∃ value, (offset + 1, value) ∈ c.pushes := by
  apply Classical.byContradiction
  intro hnone
  apply h
  rw [valueAt, valueAt]
  congr 3
  apply List.filter_congr
  intro e he
  rw [decide_eq_decide]
  have hne : e.1 ≠ offset + 1 := by
    intro heq
    exact hnone ⟨e.2, heq ▸ he⟩
  omega

end AttributeChanges

inductive AttributeChange (A : Type) where
  | push (start : Nat) (value : A)
  | truncate (newLen : Nat)
  | truncateFront (newStart : Nat)

def AttributeMap.apply [DecidableEq A] (m : AttributeMap A) : AttributeChange A → AttributeMap A
  | .push start value => m.pushAttributeChange start value
  | .truncate newLen => m.truncate newLen
  | .truncateFront newStart => m.truncateFront newStart

namespace AttributeChanges

def apply (c : AttributeChanges A) : AttributeChange A → AttributeChanges A
  | .push start value => c.push start value
  | .truncate newLen => c.truncate newLen
  | .truncateFront newStart => c.truncateFront newStart

/-- Each push starts after those that are still known. -/
def Increasing (c : AttributeChanges A) : List (AttributeChange A) → Prop
  | [] => True
  | op :: ops => (∀ start value, op = .push start value → ∀ e ∈ c.pushes, e.1 < start) ∧ (c.apply op).Increasing ops

end AttributeChanges

variable {m : AttributeMap A} {c : AttributeChanges A}

namespace AttributeMap

/-- From every retained offset on the map yields the value of the last push. -/
def Agrees (m : AttributeMap A) (c : AttributeChanges A) : Prop :=
  ∀ offset, c.start ≤ offset → ∀ count,
    (m.iterFrom offset).take count = (List.range count).map fun i => c.valueAt (offset + i)

structure Represents (m : AttributeMap A) (c : AttributeChanges A) : Prop where
  sorted : c.pushes.Pairwise fun a b => a.1 < b.1
  value : ∀ offset, m.valueAt offset = c.valueAt offset
  /-- Neighbouring ranges have different values. -/
  merged : ∀ e ∈ m.map.entries, m.valueAt e.1 ≠ m.valueAt (e.1 + 1)

theorem new_represents (startingValue : A) : (new startingValue).Represents (.new startingValue) where
  sorted := List.Pairwise.nil
  value := fun _ => rfl
  merged := nofun

theorem Represents.agrees (h : m.Represents c) : m.Agrees c := by
  intro offset _ count
  rw [m.iterFrom_take]
  simp only [h.value]

theorem Represents.exists_push (h : m.Represents c) {e : Nat × A} (he : e ∈ m.map.entries) :
    ∃ value, (e.1 + 1, value) ∈ c.pushes := by
  have hne := h.merged e he
  rw [h.value, h.value] at hne
  exact AttributeChanges.exists_push_of_ne hne

variable {start : Nat}

theorem Represents.lt_of_lt (h : m.Represents c) (hlt : ∀ e ∈ c.pushes, e.1 < start) :
    ∀ e ∈ m.map.entries, e.1 + 1 < start := by
  intro e he
  obtain ⟨value, hpush⟩ := h.exists_push he
  exact hlt _ hpush

theorem Represents.push [DecidableEq A] (h : m.Represents c) (hlt : ∀ e ∈ c.pushes, e.1 < start)
    (value : A) : (m.pushAttributeChange start value).Represents (c.push start value) where
  sorted := by
    apply List.pairwise_append.mpr
    refine ⟨h.sorted, List.pairwise_singleton _ _, ?_⟩
    intro a ha b hb
    rw [List.mem_singleton.mp hb]
    exact hlt a ha
  value := by
    intro offset
    rw [valueAt_pushAttributeChange (h.lt_of_lt hlt), AttributeChanges.valueAt_push, h.value]
  merged := by
    intro e he
    have hkeys := h.lt_of_lt hlt
    rw [valueAt_pushAttributeChange hkeys, valueAt_pushAttributeChange hkeys]
    rw [pushAttributeChange_entries hkeys] at he
    split at he
    next =>
      have hlast := hkeys e he
      rw [if_neg (by omega), if_neg (by omega)]
      exact h.merged e he
    next hnew =>
      cases List.mem_append.mp he with
      | inl he =>
        have hlast := hkeys e he
        rw [if_neg (by omega), if_neg (by omega)]
        exact h.merged e he
      | inr he =>
        obtain ⟨hv, hs⟩ := not_or.mp hnew
        rw [List.mem_singleton.mp he]
        simp only
        rw [if_neg (by omega), if_pos (by omega), valueAt_of_lt]
        · exact fun heq => hv heq.symm
        · intro d hd
          have hlast := hkeys d hd
          omega

variable {n : Nat} (h : m.Represents c)
include h

theorem Represents.truncate (hquiet : c.QuietAt n) : (m.truncate n).Represents (c.truncate n) where
  sorted := h.sorted.filter _
  value := by
    intro offset
    rw [valueAt_truncate, AttributeChanges.valueAt_truncate, h.value]
    split
    next hlt => rw [Nat.min_eq_left (Nat.le_of_lt hlt)]
    next hle => rw [Nat.min_eq_right (Nat.not_lt.mp hle), hquiet]
  merged := by
    intro e he
    obtain ⟨he, hlt⟩ := BTreeMap.mem_below.mp he
    rw [valueAt_truncate, valueAt_truncate, Nat.min_eq_left (Nat.le_of_lt hlt), Nat.min_eq_left hlt]
    exact h.merged e he

theorem Represents.truncateFront (n : Nat) : (m.truncateFront n).Represents (c.truncateFront n) where
  sorted := h.sorted.filter _
  value := by
    intro offset
    rw [valueAt_truncateFront, AttributeChanges.valueAt_truncateFront h.sorted, h.value]
  merged := by
    intro e he
    obtain ⟨he, hle⟩ := BTreeMap.mem_atLeast.mp he
    rw [valueAt_truncateFront, valueAt_truncateFront, Nat.max_eq_left hle, Nat.max_eq_left (by omega)]
    exact h.merged e he

theorem Represents.not_agrees_truncate (hnoisy : ¬ c.QuietAt n) :
    ¬ (m.truncate n).Agrees (c.truncate n) := by
  intro hagrees
  have hfirst := hagrees (max n c.start) (Nat.le_max_right _ _) 1
  rw [iterFrom_take] at hfirst
  simp only [List.range_one, List.map_cons, List.map_nil, Nat.add_zero, List.cons.injEq, and_true] at hfirst
  rw [valueAt_truncate, AttributeChanges.valueAt_truncate, Nat.min_eq_right (Nat.le_max_left _ _),
    if_neg (Nat.not_lt.mpr (Nat.le_max_left _ _)), h.value] at hfirst
  exact hnoisy hfirst

theorem Represents.agrees_iff [DecidableEq A] {ops : List (AttributeChange A)} (hinc : c.Increasing ops) :
    (∀ i, ((ops.take i).foldl apply m).Agrees ((ops.take i).foldl AttributeChanges.apply c)) ↔
      ∀ i n, ops[i]? = some (.truncate n) → ((ops.take i).foldl AttributeChanges.apply c).QuietAt n := by
  induction ops generalizing m c with
  | nil => simp [h.agrees]
  | cons op ops ih =>
    apply Iff.trans Nat.and_forall_add_one.symm
    apply Iff.trans _ Nat.and_forall_add_one
    simp only [List.take_zero, List.foldl_nil, List.take_succ_cons, List.foldl_cons, List.getElem?_cons_zero,
      List.getElem?_cons_succ, h.agrees, true_and, Option.some.injEq]
    cases op with
    | push start value =>
      simpa [apply, AttributeChanges.apply] using ih (h.push (hinc.1 start value rfl) value) hinc.2
    | truncateFront n => simpa [apply, AttributeChanges.apply] using ih (h.truncateFront n) hinc.2
    | truncate n =>
      by_cases hquiet : c.QuietAt n
      · simpa [apply, AttributeChanges.apply, hquiet] using ih (h.truncate hquiet) hinc.2
      · constructor
        · intro hagrees
          exact absurd (hagrees 0) (h.not_agrees_truncate hquiet)
        · intro hall
          exact absurd (hall.1 n rfl) hquiet

end AttributeMap

end InfiniShell.Scrollback
