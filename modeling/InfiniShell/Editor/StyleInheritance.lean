import InfiniShell.Editor.Cuts

namespace InfiniShell.Editor

open Collections Collections.ListCursor Crdt

def Fragment.noteInherited (f : Fragment) : Fragment := { f with textStyleInheritedAfterDeletion := true }

/-- The fragments, with a note on one of them that its style was inherited or without. -/
inductive Noted (l : List Fragment) : List Fragment → Prop where
  | same : Noted l l
  | note (A B : List Fragment) (f : Fragment) : l = A ++ f :: B → Noted l (A ++ f.noteInherited :: B)

namespace Noted

variable {l l' : List Fragment} {undoHistory : UndoHistory}

section

variable (h : Noted l l')
include h

theorem map_eq {β : Type} {g : Fragment → β} (hg : ∀ f, g (Fragment.noteInherited f) = g f) :
    l'.map g = l.map g := by
  cases h with
  | same => rfl
  | note A B f heq => rw [heq, List.map_append, List.map_append, List.map_cons, List.map_cons, hg]

theorem append (r : List Fragment) : Noted (l ++ r) (l' ++ r) := by
  cases h with
  | same => exact .same
  | note A B f heq =>
    rw [heq, List.append_assoc, List.append_assoc]
    exact .note A (B ++ r) f rfl

theorem ofInsertion (id : Lamport) : Noted (Editor.ofInsertion id l) (Editor.ofInsertion id l') := by
  cases h with
  | same => exact .same
  | note A B f heq =>
    rw [heq, ofInsertion_append, ofInsertion_append]
    by_cases hid : f.insertion.id = id
    · have hid' : f.noteInherited.insertion.id = id := hid
      rw [ofInsertion_cons_of_eq hid, ofInsertion_cons_of_eq hid']
      exact .note _ _ f rfl
    · have hid' : f.noteInherited.insertion.id ≠ id := hid
      rw [ofInsertion_cons_of_ne hid, ofInsertion_cons_of_ne hid']
      exact .same

theorem elements_eq : elements l' = elements l := by
  have hmap := h.map_eq (g := Fragment.elements) fun _ => rfl
  rw [elements, elements, List.flatMap_def, List.flatMap_def, hmap]

theorem listing_eq (id : Lamport) : listing id l' = listing id l := by
  have hmap := (h.ofInsertion id).map_eq (g := Fragment.split) fun _ => rfl
  rw [listing, listing, hmap]
  have hnil : Editor.ofInsertion id l' = [] ↔ Editor.ofInsertion id l = [] := by
    rw [← List.map_eq_nil_iff (f := Fragment.split), hmap, List.map_eq_nil_iff]
  simp only [hnil]

theorem forall_iff {P : Fragment → Prop} (hP : ∀ f, P (Fragment.noteInherited f) ↔ P f) :
    (∀ f ∈ l', P f) ↔ ∀ f ∈ l, P f := by
  cases h with
  | same => exact Iff.rfl
  | note A B f heq => simp only [heq, List.forall_mem_append, List.forall_mem_cons, hP]

theorem covers_iff {insertion : Insertion} {start stop : Nat} :
    Covers insertion start stop l' ↔ Covers insertion start stop l := by
  cases h with
  | same => exact Iff.rfl
  | note A B f heq =>
    rw [heq, covers_append, covers_append]
    rfl

theorem wellFormed (hwell : WellFormed l undoHistory) : WellFormed l' undoHistory := by
  refine ⟨hwell.ordered.congr (h.map_eq fun _ => rfl), ?_, ?_, ?_⟩
  · exact (h.forall_iff fun _ => Iff.rfl).mpr hwell.isU16
  · intro id hne
    have hmap := (h.ofInsertion id).map_eq (g := Fragment.split) fun _ => rfl
    have hne' : Editor.ofInsertion id l ≠ [] := by
      intro hnil
      rw [hnil, List.map_nil, List.map_eq_nil_iff] at hmap
      exact hne hmap
    obtain ⟨insertion, hcovers⟩ := hwell.tiled id hne'
    exact ⟨insertion, (h.ofInsertion id).covers_iff.mpr hcovers⟩
  · refine (h.forall_iff fun f => ?_).mpr hwell.fresh
    constructor
    · exact fun hfresh => hfresh.congr rfl rfl rfl rfl
    · exact fun hfresh => hfresh.congr rfl rfl rfl rfl

theorem headed (hhead : Headed l) : Headed l' := by
  obtain ⟨first, rest, hl, hid, hinsertion, hstart, hstop, hrest⟩ := hhead
  cases h with
  | same => exact ⟨first, rest, hl, hid, hinsertion, hstart, hstop, hrest⟩
  | note A B f heq =>
    rw [hl] at heq
    cases A with
    | nil =>
      obtain ⟨hfirst, hB⟩ := List.cons.inj heq
      rw [hfirst] at hid hinsertion hstart hstop
      exact ⟨f.noteInherited, B, rfl, hid, hinsertion, hstart, hstop, hB ▸ hrest⟩
    | cons a A =>
      obtain ⟨hfirst, hA⟩ := List.cons.inj heq
      refine ⟨a, A ++ f.noteInherited :: B, rfl, hfirst ▸ hid, hfirst ▸ hinsertion, hfirst ▸ hstart, hfirst ▸ hstop, ?_⟩
      have hnote : Noted rest (A ++ f.noteInherited :: B) := .note A B f hA
      have hiff := hnote.forall_iff (P := fun g => g.startCharacterOffset < g.endCharacterOffset) fun _ => Iff.rfl
      exact hiff.mpr hrest

end

variable {splits : InsertionSplits}

theorem splitScan {id : Lamport} {tree tail : List InsertionSplit} {rest : List Fragment}
    (h : Noted l l') (hscan : SplitScan id splits tree tail l rest) : SplitScan id splits tree tail l' rest := by
  refine ⟨?_, hscan.tail, ?_⟩
  · rw [hscan.tree]
    exact ((h.ofInsertion id).map_eq fun _ => rfl).symm
  · intro other hother
    rw [hscan.others other hother, (h.append rest).listing_eq]

theorem listed (h : Noted l l') (hlisted : Listed l splits) : Listed l' splits := by
  intro id
  rw [hlisted id, h.listing_eq]

theorem getLast? {last : Fragment} (h : Noted l l') (hlast : l.getLast? = some last) :
    ∃ last', l'.getLast? = some last' ∧ last'.id = last.id := by
  have hmap := congrArg List.getLast? (h.map_eq (g := Fragment.id) fun _ => rfl)
  rw [List.getLast?_map, List.getLast?_map, hlast, Option.map_some] at hmap
  exact Option.map_eq_some_iff.mp hmap

end Noted

variable {undoHistory : UndoHistory} {f : Fragment}

theorem mostRecentlyDeleted_mem {items : List Fragment} {timestamp : WithBot Lamport}
    {found : Option Fragment} (h : mostRecentlyDeleted undoHistory items timestamp found = some f) :
    f ∈ items ∨ found = some f := by
  induction items generalizing timestamp found with
  | nil => exact .inr h
  | cons item items ih =>
    rw [mostRecentlyDeleted] at h
    split at h
    next => exact .inr h
    next =>
      split at h
      next =>
        cases ih h with
        | inl hmem => exact .inl (List.mem_cons_of_mem item hmem)
        | inr heq => exact .inl (Option.some.inj heq ▸ List.mem_cons_self)
      next => exact (ih h).imp_left (List.mem_cons_of_mem item)

variable {fragments : List Fragment}

theorem lastDeletedFragmentAtBufferEnd_mem
    (h : lastDeletedFragmentAtBufferEnd undoHistory fragments = some f) : f ∈ fragments := by
  obtain ⟨l, r, heq, hslice, -⟩ :=
    @slice_spec _ Fragment.chars .left (total Fragment.chars fragments) 0 fragments
  rw [lastDeletedFragmentAtBufferEnd, hslice] at h
  have hmem : f ∈ r := by
    cases mostRecentlyDeleted_mem h with
    | inl hmem =>
      split at hmem
      next => exact List.mem_of_mem_tail hmem
      next => exact hmem
    | inr hnone => exact absurd hnone.symm (Option.some_ne_none f)
  rw [heq]
  exact List.mem_append_right l hmem

theorem cut_at_id {A B : List Fragment} (h : ((A ++ f :: B).map Fragment.id).Pairwise (· < ·)) :
    (A ++ f :: B).takeWhile (·.id < f.id) = A ∧ (A ++ f :: B).dropWhile (·.id < f.id) = f :: B := by
  have hbefore : ∀ a ∈ A, decide (a.id < f.id) = true := by
    rw [List.map_append] at h
    intro a ha
    exact decide_eq_true ((List.pairwise_append.mp h).2.2 a.id (List.mem_map_of_mem ha) f.id (by simp))
  have hstop : decide (f.id < f.id) = false := decide_eq_false (lt_irrefl f.id)
  constructor
  · rw [List.takeWhile_append_of_pos hbefore, List.takeWhile_cons_of_neg (by simp), List.append_nil]
  · rw [List.dropWhile_append_of_pos hbefore, List.dropWhile_cons_of_neg (by simp)]

theorem styleFromLeftVisibleOrRecentlyDeletedFragment_noted
    (h : (fragments.map Fragment.id).Pairwise (· < ·)) :
    Noted fragments (styleFromLeftVisibleOrRecentlyDeletedFragment undoHistory fragments).1 := by
  rw [styleFromLeftVisibleOrRecentlyDeletedFragment]
  split
  next => exact .same
  next f heq =>
    have hmem := lastDeletedFragmentAtBufferEnd_mem (Option.filter_eq_some_iff.mp heq).1
    obtain ⟨A, B, rfl⟩ := List.append_of_mem hmem
    obtain ⟨htake, hdrop⟩ := cut_at_id h
    dsimp only
    rw [htake, hdrop]
    exact .note A B f rfl

theorem fallbackTextStyleWith_noted (textStyle : Option TextStyle)
    {fallback : List Fragment → List Fragment × Option TextStyle} (h : Noted fragments (fallback fragments).1) :
    Noted fragments (fallbackTextStyleWith textStyle fragments fallback).1 := by
  cases textStyle with
  | some style => exact .same
  | none => exact h

end InfiniShell.Editor
