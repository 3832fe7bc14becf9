import InfiniShell.Editor.Fragments
import Mathlib.Data.List.Chain

namespace InfiniShell.Editor

open Collections Collections.ListCursor

def ofInsertion (id : Lamport) (fragments : List Fragment) : List Fragment :=
  fragments.filter fun f => f.insertion.id = id

/-- The fragments are of this insertion and tile its text between these offsets. -/
def Covers (insertion : Insertion) : Nat → Nat → List Fragment → Prop
  | start, stop, [] => start = stop
  | start, stop, f :: fragments =>
    f.insertion = insertion ∧ f.startCharacterOffset = start ∧ start ≤ f.endCharacterOffset ∧
      Covers insertion f.endCharacterOffset stop fragments

def Tiled (id : Lamport) (fragments : List Fragment) : Prop :=
  ofInsertion id fragments ≠ [] →
    ∃ insertion, Covers insertion 0 insertion.text.length (ofInsertion id fragments)

/-- The cached flag is right, and the undos that bear on the fragment are noted on it. -/
structure Fragment.Fresh (f : Fragment) (undoHistory : UndoHistory) : Prop where
  isVisible : f.isVisible = f.isVisibleIn undoHistory
  maxUndoTs : ∀ edit, edit = f.insertion.id ∨ edit ∈ f.deletions →
    ∀ undo ∈ undoHistory.undosOf edit, undo ≤ f.maxUndoTs.get edit.replicaId

def Ordered (fragments : List Fragment) : Prop :=
  (fragments.map Fragment.id ++ [FragmentId.maxValue]).IsChain FragmentId.Before

structure WellFormed (fragments : List Fragment) (undoHistory : UndoHistory) : Prop where
  ordered : Ordered fragments
  isU16 : ∀ f ∈ fragments, FragmentId.IsU16 f.id
  tiled : ∀ id, Tiled id fragments
  fresh : ∀ f ∈ fragments, f.Fresh undoHistory

def listing (id : Lamport) (fragments : List Fragment) : Option (List InsertionSplit) :=
  if ofInsertion id fragments = [] then none else some ((ofInsertion id fragments).map Fragment.split)

def Listed (fragments : List Fragment) (insertionSplits : InsertionSplits) : Prop :=
  ∀ id, insertionSplits.get id = listing id fragments

def Headed (fragments : List Fragment) : Prop :=
  ∃ first rest, fragments = first :: rest ∧ first.id = FragmentId.minValue ∧
    first.insertion.id = Lamport.new baseReplicaId ∧ first.startCharacterOffset = 0 ∧ first.endCharacterOffset = 0 ∧
    ∀ f ∈ rest, f.startCharacterOffset < f.endCharacterOffset

def nextId (fragments : List Fragment) : FragmentId := (fragments.head?.map Fragment.id).getD FragmentId.maxValue

section OfInsertion

variable {id : Lamport} {A B : List Fragment} {f : Fragment}

@[simp] theorem ofInsertion_append : ofInsertion id (A ++ B) = ofInsertion id A ++ ofInsertion id B :=
  List.filter_append ..

theorem ofInsertion_cons_of_eq (h : f.insertion.id = id) : ofInsertion id (f :: B) = f :: ofInsertion id B :=
  List.filter_cons_of_pos (decide_eq_true h)

theorem ofInsertion_cons_of_ne (h : f.insertion.id ≠ id) : ofInsertion id (f :: B) = ofInsertion id B :=
  List.filter_cons_of_neg (by simp [h])

theorem ofInsertion_eq_nil : ofInsertion id A = [] ↔ ∀ g ∈ A, g.insertion.id ≠ id := by
  simp [ofInsertion]

end OfInsertion

section Covers

variable {insertion : Insertion} {start stop : Nat} {l r : List Fragment}

theorem covers_append :
    Covers insertion start stop (l ++ r) ↔ ∃ mid, Covers insertion start mid l ∧ Covers insertion mid stop r := by
  induction l generalizing start with
  | nil =>
    constructor
    · exact fun h => ⟨start, rfl, h⟩
    · intro h
      obtain ⟨mid, hmid, h⟩ := h
      cases hmid
      exact h
  | cons f l ih =>
    constructor
    · intro h
      obtain ⟨hinsertion, hstart, hle, h⟩ := h
      obtain ⟨mid, hl, hr⟩ := ih.mp h
      exact ⟨mid, ⟨hinsertion, hstart, hle, hl⟩, hr⟩
    · intro h
      obtain ⟨mid, ⟨hinsertion, hstart, hle, hl⟩, hr⟩ := h
      exact ⟨hinsertion, hstart, hle, ih.mpr ⟨mid, hl, hr⟩⟩

theorem Covers.le (h : Covers insertion start stop l) : start ≤ stop := by
  induction l generalizing start with
  | nil => exact Nat.le_of_eq h
  | cons f l ih => exact h.2.2.1.trans (ih h.2.2.2)

theorem Covers.total_extent (h : Covers insertion start stop l) :
    start + total InsertionSplit.extent (l.map Fragment.split) = stop := by
  induction l generalizing start with
  | nil => exact h
  | cons f l ih =>
    obtain ⟨-, hstart, hle, h⟩ := h
    have ih := ih h
    rw [List.map_cons, total_cons]
    have hextent : f.split.extent = f.endCharacterOffset - f.startCharacterOffset := rfl
    omega

theorem Covers.replace {f g h : Fragment} (hcovers : Covers insertion start stop (l ++ f :: r))
    (hg : g.insertion = f.insertion) (hh : h.insertion = f.insertion)
    (hstart : g.startCharacterOffset = f.startCharacterOffset) (hle : g.startCharacterOffset ≤ g.endCharacterOffset)
    (hmid : h.startCharacterOffset = g.endCharacterOffset) (hle' : h.startCharacterOffset ≤ h.endCharacterOffset)
    (hstop : h.endCharacterOffset = f.endCharacterOffset) : Covers insertion start stop (l ++ g :: h :: r) := by
  obtain ⟨mid, hl, hinsertion, hmid', hf, hr⟩ := covers_append.mp hcovers
  refine covers_append.mpr ⟨mid, hl, hg.trans hinsertion, hstart.trans hmid', ?_, hh.trans hinsertion, hmid, ?_, ?_⟩
  · omega
  · omega
  · rw [hstop]
    exact hr

theorem Covers.congr {f g : Fragment} (hcovers : Covers insertion start stop (l ++ f :: r))
    (hinsertion : g.insertion = f.insertion) (hstart : g.startCharacterOffset = f.startCharacterOffset)
    (hstop : g.endCharacterOffset = f.endCharacterOffset) : Covers insertion start stop (l ++ g :: r) := by
  obtain ⟨mid, hl, hf, hmid, hle, hr⟩ := covers_append.mp hcovers
  exact covers_append.mpr ⟨mid, hl, hinsertion.trans hf, hstart.trans hmid, hstop ▸ hle, hstop ▸ hr⟩

end Covers

namespace Tiled

variable {A B : List Fragment} {f : Fragment}

theorem around (h : Tiled f.insertion.id (A ++ f :: B)) :
    Covers f.insertion 0 f.startCharacterOffset (ofInsertion f.insertion.id A) ∧
      f.startCharacterOffset ≤ f.endCharacterOffset ∧
      Covers f.insertion f.endCharacterOffset f.insertion.text.length (ofInsertion f.insertion.id B) := by
  rw [Tiled, ofInsertion_append, ofInsertion_cons_of_eq rfl] at h
  obtain ⟨insertion, hcovers⟩ := h (List.append_ne_nil_of_right_ne_nil _ (List.cons_ne_nil f _))
  obtain ⟨mid, hl, hf, hmid, hle, hr⟩ := covers_append.mp hcovers
  subst hf
  subst hmid
  exact ⟨hl, hle, hr⟩

end Tiled

variable {A B : List Fragment} {f : Fragment} {undoHistory : UndoHistory}

theorem WellFormed.around (h : WellFormed (A ++ f :: B) undoHistory) :
    Covers f.insertion 0 f.startCharacterOffset (ofInsertion f.insertion.id A) ∧
      f.startCharacterOffset ≤ f.endCharacterOffset ∧
      Covers f.insertion f.endCharacterOffset f.insertion.text.length (ofInsertion f.insertion.id B) :=
  (h.tiled f.insertion.id).around

theorem WellFormed.end_le
    (h : WellFormed (A ++ f :: B) undoHistory) : f.endCharacterOffset ≤ f.insertion.text.length :=
  h.around.2.2.le

namespace Ordered

open FragmentId

variable {A B : List Fragment}

theorem congr (h : Ordered A) (hids : B.map Fragment.id = A.map Fragment.id) : Ordered B := by
  rw [Ordered, hids]
  exact h

theorem ids_append (A B : List Fragment) (rest : List FragmentId) :
    (A ++ B).map Fragment.id ++ rest = A.map Fragment.id ++ (B.map Fragment.id ++ rest) := by
  rw [List.map_append, List.append_assoc]

theorem ids_eq (B : List Fragment) : ∃ rest, B.map Fragment.id ++ [maxValue] = nextId B :: rest := by
  cases B with
  | nil => exact ⟨[], rfl⟩
  | cons f B => exact ⟨B.map Fragment.id ++ [maxValue], rfl⟩

variable {prev : Fragment}

theorem ids_concat (hprev : A.getLast? = some prev) :
    ∃ before, A.map Fragment.id = before ++ [prev.id] := by
  obtain ⟨before, rfl⟩ := List.getLast?_eq_some_iff.mp hprev
  exact ⟨before.map Fragment.id, by rw [List.map_append, List.map_singleton]⟩

theorem before (h : Ordered (A ++ B)) (hprev : A.getLast? = some prev) : Before prev.id (nextId B) := by
  obtain ⟨before, hbefore⟩ := ids_concat hprev
  obtain ⟨rest, hrest⟩ := ids_eq B
  rw [Ordered, ids_append, hbefore, hrest, List.append_assoc, List.singleton_append] at h
  exact (List.isChain_append_cons_cons.mp h).2.1

theorem insert (h : Ordered (A ++ B)) (hprev : A.getLast? = some prev)
    (hleft : Before prev.id f.id) (hright : Before f.id (nextId B)) : Ordered (A ++ f :: B) := by
  obtain ⟨before, hbefore⟩ := ids_concat hprev
  obtain ⟨rest, hrest⟩ := ids_eq B
  rw [Ordered, ids_append, hbefore, hrest, List.append_assoc, List.singleton_append,
    List.isChain_append_cons_cons] at h
  rw [Ordered, ids_append, List.map_cons, List.cons_append, hbefore, hrest, List.append_assoc, List.singleton_append,
    List.isChain_append_cons_cons]
  exact ⟨h.1, hleft, List.isChain_cons_cons.mpr ⟨hright, h.2.2⟩⟩

theorem pairwise {fragments : List Fragment} (h : Ordered fragments) :
    (fragments.map Fragment.id).Pairwise (· < ·) := by
  have hchain : (fragments.map Fragment.id).IsChain (· < ·) :=
    (List.isChain_append.mp (h.imp fun _ _ hab => lt_of_before hab)).1
  exact List.isChain_iff_pairwise.mp hchain

end Ordered

variable {A B : List Fragment}

theorem isU16_nextId (h : ∀ f ∈ A ++ B, FragmentId.IsU16 f.id) : FragmentId.IsU16 (nextId B) := by
  cases B with
  | nil =>
    intro entry hentry
    exact Nat.le_of_eq (List.mem_singleton.mp hentry)
  | cons f B => exact h f (by simp)

theorem isU16_last (h : ∀ f ∈ A ++ B, FragmentId.IsU16 f.id) {prev : Fragment}
    (hprev : A.getLast? = some prev) : FragmentId.IsU16 prev.id :=
  h prev (List.mem_append_left B (List.mem_of_getLast? hprev))

theorem Ordered.insert_between {prev f : Fragment} (h : Ordered (A ++ B))
    (hu16 : ∀ g ∈ A ++ B, FragmentId.IsU16 g.id) (hprev : A.getLast? = some prev)
    (hid : f.id = FragmentId.mid prev.id (nextId B)) :
    Ordered (A ++ f :: B) ∧ FragmentId.IsU16 f.id := by
  obtain ⟨-, hleft, hright, hf⟩ :=
    FragmentId.before_mid (h.before hprev) (isU16_last hu16 hprev) (isU16_nextId hu16)
  rw [← hid] at hleft hright hf
  exact ⟨h.insert hprev hleft hright, hf⟩

section Fresh

variable {undoHistory : UndoHistory} {f : Fragment}

theorem Fragment.Fresh.congr {g : Fragment} (h : f.Fresh undoHistory) (hinsertion : g.insertion = f.insertion)
    (hdeletions : g.deletions = f.deletions) (hvisible : g.isVisible = f.isVisible)
    (hmax : g.maxUndoTs = f.maxUndoTs) : g.Fresh undoHistory := by
  constructor
  · rw [hvisible, h.isVisible, Fragment.isVisibleIn, Fragment.isVisibleIn, hinsertion, hdeletions]
  · rw [hinsertion, hdeletions, hmax]
    exact h.maxUndoTs

theorem isEditUndone_of_empty {edit : Lamport} (h : undoHistory.undosOf edit = ∅) :
    undoHistory.isEditUndone edit = false := by
  rw [UndoHistory.isEditUndone, h]
  rfl

theorem Fragment.fresh_new {id : FragmentId} {insertion : Insertion} (h : undoHistory.undosOf insertion.id = ∅) :
    (Fragment.new id insertion).Fresh undoHistory := by
  constructor
  · have hundone := isEditUndone_of_empty h
    simp [Fragment.new, Fragment.isVisibleIn, hundone]
  · intro edit hedit undo hundo
    cases hedit with
    | inl heq =>
      rw [heq] at hundo
      change undo ∈ undoHistory.undosOf insertion.id at hundo
      rw [h] at hundo
      exact absurd hundo (Finset.notMem_empty undo)
    | inr hmem => exact absurd hmem (Finset.notMem_empty edit)

theorem Fragment.Fresh.mark {ts : Lamport} (h : f.Fresh undoHistory) (hts : undoHistory.undosOf ts = ∅) :
    (f.markDeletion ts undoHistory).Fresh undoHistory := by
  constructor
  · rfl
  · intro edit hedit undo hundo
    cases hedit with
    | inl heq => exact h.maxUndoTs edit (Or.inl heq) undo hundo
    | inr hmem =>
      cases Finset.mem_insert.mp hmem with
      | inl heq =>
        rw [heq, hts] at hundo
        exact absurd hundo (Finset.notMem_empty undo)
      | inr hmem => exact h.maxUndoTs edit (Or.inr hmem) undo hundo

end Fresh

structure PartOf (part whole : Fragment) : Prop where
  insertion : part.insertion = whole.insertion
  deletions : part.deletions = whole.deletions
  isVisible : part.isVisible = whole.isVisible
  maxUndoTs : part.maxUndoTs = whole.maxUndoTs

namespace WellFormed

variable {A B : List Fragment} {f prev : Fragment} {undoHistory : UndoHistory}

theorem mem_insert_iff {g c : Fragment} : g ∈ A ++ c :: B ↔ g = c ∨ g ∈ A ++ B := by
  simp only [List.mem_append, List.mem_cons]
  exact or_left_comm

theorem between_eq (h : WellFormed (A ++ B) undoHistory) (hprev : A.getLast? = some prev) :
    FragmentId.between prev.id (nextId B) = some (FragmentId.mid prev.id (nextId B)) :=
  (FragmentId.before_mid (h.ordered.before hprev) (isU16_last h.isU16 hprev) (isU16_nextId h.isU16)).1

theorem cut {pre suffix : Fragment} (h : WellFormed (A ++ f :: B) undoHistory) (hprev : A.getLast? = some prev)
    (hpre : PartOf pre f) (hsuffix : PartOf suffix f) (hid : pre.id = FragmentId.mid prev.id f.id)
    (hid' : suffix.id = f.id) (hstart : pre.startCharacterOffset = f.startCharacterOffset)
    (hmid : suffix.startCharacterOffset = pre.endCharacterOffset)
    (hstop : suffix.endCharacterOffset = f.endCharacterOffset)
    (hle : pre.startCharacterOffset ≤ pre.endCharacterOffset)
    (hle' : suffix.startCharacterOffset ≤ suffix.endCharacterOffset) :
    WellFormed (A ++ pre :: suffix :: B) undoHistory := by
  have hids : (A ++ suffix :: B).map Fragment.id = (A ++ f :: B).map Fragment.id := by simp [hid']
  have hu16 : ∀ g ∈ A ++ suffix :: B, FragmentId.IsU16 g.id := by
    intro g hg
    cases mem_insert_iff.mp hg with
    | inl heq => rw [heq, hid']; exact h.isU16 f (mem_insert_iff.mpr (Or.inl rfl))
    | inr hmem => exact h.isU16 g (mem_insert_iff.mpr (Or.inr hmem))
  have hnext : nextId (suffix :: B) = f.id := hid'
  obtain ⟨hordered, hpre16⟩ := (h.ordered.congr hids).insert_between hu16 hprev (f := pre) (by rw [hnext, hid])
  refine ⟨hordered, ?_, ?_, ?_⟩
  · intro g hg
    cases mem_insert_iff.mp hg with
    | inl heq => rw [heq]; exact hpre16
    | inr hmem => exact hu16 g hmem
  · intro id
    by_cases heq : f.insertion.id = id
    · have htiled := h.tiled id
      intro _
      rw [Tiled, ofInsertion_append, ofInsertion_cons_of_eq heq] at htiled
      obtain ⟨insertion, hcovers⟩ := htiled (List.append_ne_nil_of_right_ne_nil _ (List.cons_ne_nil f _))
      refine ⟨insertion, ?_⟩
      rw [ofInsertion_append, ofInsertion_cons_of_eq (by rw [hpre.insertion, heq]),
        ofInsertion_cons_of_eq (by rw [hsuffix.insertion, heq])]
      exact hcovers.replace hpre.insertion hsuffix.insertion hstart hle hmid hle' hstop
    · have hsame : ofInsertion id (A ++ pre :: suffix :: B) = ofInsertion id (A ++ f :: B) := by
        rw [ofInsertion_append, ofInsertion_cons_of_ne (by rwa [hpre.insertion]),
          ofInsertion_cons_of_ne (by rwa [hsuffix.insertion]), ofInsertion_append, ofInsertion_cons_of_ne heq]
      rw [Tiled, hsame]
      exact h.tiled id
  · intro g hg
    have hf := h.fresh f (mem_insert_iff.mpr (Or.inl rfl))
    cases mem_insert_iff.mp hg with
    | inl heq => rw [heq]; exact hf.congr hpre.insertion hpre.deletions hpre.isVisible hpre.maxUndoTs
    | inr hmem =>
      cases mem_insert_iff.mp hmem with
      | inl heq => rw [heq]; exact hf.congr hsuffix.insertion hsuffix.deletions hsuffix.isVisible hsuffix.maxUndoTs
      | inr hmem => exact h.fresh g (mem_insert_iff.mpr (Or.inr hmem))

theorem insert {insertion : Insertion} (h : WellFormed (A ++ B) undoHistory) (hprev : A.getLast? = some prev)
    (hnew : ofInsertion insertion.id (A ++ B) = []) (hundos : undoHistory.undosOf insertion.id = ∅) :
    WellFormed (A ++ Fragment.new (FragmentId.mid prev.id (nextId B)) insertion :: B) undoHistory := by
  obtain ⟨hordered, hu16⟩ := h.ordered.insert_between h.isU16 hprev
    (f := Fragment.new (FragmentId.mid prev.id (nextId B)) insertion) rfl
  refine ⟨hordered, ?_, ?_, ?_⟩
  · intro g hg
    cases mem_insert_iff.mp hg with
    | inl heq => rw [heq]; exact hu16
    | inr hmem => exact h.isU16 g hmem
  · intro id
    by_cases heq : insertion.id = id
    · intro _
      rw [ofInsertion_append, List.append_eq_nil_iff] at hnew
      refine ⟨insertion, ?_⟩
      rw [ofInsertion_append, ofInsertion_cons_of_eq heq, ← heq, hnew.1, hnew.2]
      exact ⟨rfl, rfl, Nat.zero_le _, rfl⟩
    · have hsame : ofInsertion id (A ++ Fragment.new (FragmentId.mid prev.id (nextId B)) insertion :: B) =
          ofInsertion id (A ++ B) := by
        rw [ofInsertion_append, ofInsertion_cons_of_ne heq, ofInsertion_append]
      rw [Tiled, hsame]
      exact h.tiled id
  · intro g hg
    cases mem_insert_iff.mp hg with
    | inl heq => rw [heq]; exact Fragment.fresh_new hundos
    | inr hmem => exact h.fresh g hmem

theorem replace {g : Fragment} (h : WellFormed (A ++ f :: B) undoHistory) (hid : g.id = f.id)
    (hinsertion : g.insertion = f.insertion) (hstart : g.startCharacterOffset = f.startCharacterOffset)
    (hstop : g.endCharacterOffset = f.endCharacterOffset) (hfresh : g.Fresh undoHistory) :
    WellFormed (A ++ g :: B) undoHistory := by
  refine ⟨h.ordered.congr (by simp [hid]), ?_, ?_, ?_⟩
  · intro c hc
    cases mem_insert_iff.mp hc with
    | inl heq => rw [heq, hid]; exact h.isU16 f (mem_insert_iff.mpr (Or.inl rfl))
    | inr hmem => exact h.isU16 c (mem_insert_iff.mpr (Or.inr hmem))
  · intro id
    have htiled := h.tiled id
    intro hne
    by_cases heq : f.insertion.id = id
    · rw [Tiled, ofInsertion_append, ofInsertion_cons_of_eq heq] at htiled
      obtain ⟨insertion, hcovers⟩ := htiled (List.append_ne_nil_of_right_ne_nil _ (List.cons_ne_nil f _))
      refine ⟨insertion, ?_⟩
      rw [ofInsertion_append, ofInsertion_cons_of_eq (by rw [hinsertion, heq])]
      exact hcovers.congr hinsertion hstart hstop
    · have hsame : ofInsertion id (A ++ g :: B) = ofInsertion id (A ++ f :: B) := by
        rw [ofInsertion_append, ofInsertion_cons_of_ne (by rwa [hinsertion]), ofInsertion_append,
          ofInsertion_cons_of_ne heq]
      rw [hsame] at hne ⊢
      exact htiled hne
  · intro c hc
    cases mem_insert_iff.mp hc with
    | inl heq => rw [heq]; exact hfresh
    | inr hmem => exact h.fresh c (mem_insert_iff.mpr (Or.inr hmem))

theorem mark {ts : Lamport} (h : WellFormed (A ++ f :: B) undoHistory) (hts : undoHistory.undosOf ts = ∅) :
    WellFormed (A ++ f.markDeletion ts undoHistory :: B) undoHistory :=
  h.replace rfl rfl rfl rfl ((h.fresh f (mem_insert_iff.mpr (Or.inl rfl))).mark hts)

end WellFormed

end InfiniShell.Editor
