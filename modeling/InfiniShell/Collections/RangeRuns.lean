import Mathlib.Data.List.Pairwise
import Mathlib.Data.List.Perm.Basic
import Mathlib.Data.List.Sort
import Mathlib.Logic.Relation
import Mathlib.Order.Lattice

namespace InfiniShell.Collections

structure Range (T : Type) where
  start : T
  stop : T
deriving DecidableEq

namespace Range

variable {T : Type} [LinearOrder T]

def Meets (a b : Range T) : Prop := a.start ≤ b.stop ∧ b.start ≤ a.stop

instance (a b : Range T) : Decidable (a.Meets b) := inferInstanceAs (Decidable (_ ∧ _))

def Proper (a : Range T) : Prop := a.start ≤ a.stop

theorem Meets.symm {a b : Range T} (h : a.Meets b) : b.Meets a := ⟨h.2, h.1⟩

inductive Run : List (Range T) → Range T → Prop where
  | single (r : Range T) : Run [r] r
  | snoc {members : List (Range T)} {cover r : Range T} (h : Run members cover)
      (sorted : ∀ m ∈ members, m.start ≤ r.start) (meets : r.start ≤ cover.stop) :
      Run (members ++ [r]) ⟨cover.start, max r.stop cover.stop⟩

def MeetsAnother (ranges : List (Range T)) (r : Range T) : Prop := ∃ other ∈ ranges.erase r, r.Meets other

instance (ranges : List (Range T)) (r : Range T) : Decidable (MeetsAnother ranges r) :=
  inferInstanceAs (Decidable (∃ other ∈ ranges.erase r, _))

def MeetsOther (ranges : List (Range T)) (i : Nat) : Prop :=
  ∃ r ∈ ranges[i]?, ∃ other ∈ ranges.eraseIdx i, r.Meets other

def Joined (ranges : List (Range T)) : Range T → Range T → Prop :=
  Relation.ReflTransGen fun a b => b ∈ ranges ∧ a.Meets b

def IsUnion (ranges : List (Range T)) (union : Range T) : Prop :=
  ∃ a ∈ ranges, (∀ b, Joined ranges a b → union.start ≤ b.start ∧ b.stop ≤ union.stop) ∧
    (∃ b, Joined ranges a b ∧ b.start = union.start) ∧ ∃ b, Joined ranges a b ∧ b.stop = union.stop

namespace Run

variable {members : List (Range T)} {cover : Range T} (h : Run members cover)
include h

theorem ne_nil : members ≠ [] := by
  cases h with
  | single => exact List.cons_ne_nil _ []
  | snoc => exact List.append_ne_nil_of_right_ne_nil _ (List.cons_ne_nil _ [])

theorem mem_cover : ∀ m ∈ members, cover.start ≤ m.start ∧ m.stop ≤ cover.stop := by
  induction h with
  | single r =>
    intro m hm
    rw [List.mem_singleton.mp hm]
    exact ⟨le_refl _, le_refl _⟩
  | @snoc members cover r hrun sorted meets ih =>
    intro m hm
    cases List.mem_append.mp hm with
    | inl hm => exact ⟨(ih m hm).1, le_trans (ih m hm).2 (le_max_right _ _)⟩
    | inr hm =>
      rw [List.mem_singleton.mp hm]
      obtain ⟨first, hfirst⟩ := List.exists_mem_of_ne_nil members hrun.ne_nil
      exact ⟨le_trans (ih first hfirst).1 (sorted first hfirst), le_max_left _ _⟩

theorem exists_start : ∃ m ∈ members, m.start = cover.start := by
  induction h with
  | single r => exact ⟨r, List.mem_singleton_self r, rfl⟩
  | snoc _ _ _ ih =>
    obtain ⟨m, hm, hstart⟩ := ih
    exact ⟨m, List.mem_append_left _ hm, hstart⟩

theorem exists_stop : ∃ m ∈ members, m.stop = cover.stop := by
  induction h with
  | single r => exact ⟨r, List.mem_singleton_self r, rfl⟩
  | @snoc members cover r _ _ _ ih =>
    obtain ⟨m, hm, hstop⟩ := ih
    by_cases hle : r.stop ≤ cover.stop
    · exact ⟨m, List.mem_append_left _ hm, hstop.trans (max_eq_right hle).symm⟩
    · exact ⟨r, List.mem_append_right _ (List.mem_singleton_self r), (max_eq_left (le_of_not_ge hle)).symm⟩

theorem cover_proper (hproper : ∀ m ∈ members, m.Proper) : cover.Proper := by
  obtain ⟨m, hm, hstart⟩ := h.exists_start
  rw [Proper, ← hstart]
  exact le_trans (hproper m hm) (h.mem_cover m hm).2

theorem exists_meets {r : Range T} (sorted : ∀ m ∈ members, m.start ≤ r.start)
    (meets : r.start ≤ cover.stop) (hr : r.Proper) : ∃ m ∈ members, m.Meets r := by
  obtain ⟨m, hm, hstop⟩ := h.exists_stop
  exact ⟨m, hm, le_trans (sorted m hm) hr, hstop ▸ meets⟩

end Run

def runsFrom (members : List (Range T)) (cover : Range T) : List (Range T) → List (List (Range T) × Range T)
  | [] => [(members, cover)]
  | r :: rest =>
    if r.start ≤ cover.stop then runsFrom (members ++ [r]) ⟨cover.start, max r.stop cover.stop⟩ rest
    else (members, cover) :: runsFrom [r] r rest

def runs : List (Range T) → List (List (Range T) × Range T)
  | [] => []
  | r :: rest => runsFrom [r] r rest

def Sorted (ranges : List (Range T)) : Prop := ranges.Pairwise fun a b => a.start ≤ b.start

def Apart (runs : List (List (Range T) × Range T)) : Prop := runs.Pairwise fun a b => a.2.stop < b.2.start

structure AreRuns (runs : List (List (Range T) × Range T)) (ranges : List (Range T)) : Prop where
  run : ∀ run ∈ runs, Run run.1 run.2
  apart : Apart runs
  flatten : runs.flatMap Prod.fst = ranges

variable {members : List (Range T)} {cover : Range T}

theorem runsFrom_areRuns {rest : List (Range T)} (hrun : Run members cover)
    (hmembers : ∀ m ∈ members, ∀ r ∈ rest, m.start ≤ r.start) (hsorted : Sorted rest) :
    AreRuns (runsFrom members cover rest) (members ++ rest) ∧
      ∀ run ∈ runsFrom members cover rest, cover.start ≤ run.2.start := by
  induction rest generalizing members cover with
  | nil =>
    refine ⟨⟨?_, List.pairwise_singleton _ _, ?_⟩, ?_⟩
    · intro run hmem
      rw [List.mem_singleton.mp hmem]
      exact hrun
    · rw [List.append_nil]
      exact List.flatMap_singleton _ _
    · intro run hmem
      rw [List.mem_singleton.mp hmem]
  | cons r rest ih =>
    obtain ⟨hfirst, hrest⟩ := List.pairwise_cons.mp hsorted
    have hbefore : ∀ m ∈ members, m.start ≤ r.start := fun m hm => hmembers m hm r List.mem_cons_self
    rw [runsFrom]
    by_cases hmeets : r.start ≤ cover.stop
    · rw [if_pos hmeets]
      have hall : ∀ m ∈ members ++ [r], ∀ other ∈ rest, m.start ≤ other.start := by
        intro m hm other hother
        cases List.mem_append.mp hm with
        | inl hm => exact hmembers m hm other (List.mem_cons_of_mem r hother)
        | inr hm =>
          rw [List.mem_singleton.mp hm]
          exact hfirst other hother
      have hnext := ih (.snoc hrun hbefore hmeets) hall hrest
      rwa [List.append_assoc, List.singleton_append] at hnext
    · rw [if_neg hmeets]
      have hsingle : ∀ m ∈ [r], ∀ other ∈ rest, m.start ≤ other.start := by
        intro m hm other hother
        rw [List.mem_singleton.mp hm]
        exact hfirst other hother
      obtain ⟨hnext, hstarts⟩ := ih (.single r) hsingle hrest
      have hlt : cover.stop < r.start := lt_of_not_ge hmeets
      refine ⟨⟨?_, ?_, ?_⟩, ?_⟩
      · intro run hmem
        cases List.mem_cons.mp hmem with
        | inl heq =>
          rw [heq]
          exact hrun
        | inr hmem => exact hnext.run run hmem
      · exact List.pairwise_cons.mpr ⟨fun run hmem => lt_of_lt_of_le hlt (hstarts run hmem), hnext.apart⟩
      · rw [List.flatMap_cons, hnext.flatten]
        rfl
      · intro run hmem
        cases List.mem_cons.mp hmem with
        | inl heq => rw [heq]
        | inr hmem =>
          obtain ⟨first, hmem'⟩ := List.exists_mem_of_ne_nil members hrun.ne_nil
          have hcover := (hrun.mem_cover first hmem').1
          exact le_trans hcover (le_trans (hbefore first hmem') (hstarts run hmem))

theorem runs_areRuns {ranges : List (Range T)} (hsorted : Sorted ranges) : AreRuns (runs ranges) ranges := by
  cases ranges with
  | nil => exact ⟨nofun, .nil, rfl⟩
  | cons r rest =>
    obtain ⟨hfirst, hrest⟩ := List.pairwise_cons.mp hsorted
    apply (runsFrom_areRuns (.single r) _ hrest).1
    intro m hm other hother
    rw [List.mem_singleton.mp hm]
    exact hfirst other hother

variable {ranges : List (Range T)} {all : List (List (Range T) × Range T)}

theorem Run.joined (h : Run members cover)
    (hproper : ∀ m ∈ members, m.Proper) (hsub : ∀ m ∈ members, m ∈ ranges) :
    ∀ a ∈ members, ∀ b ∈ members, Joined ranges a b := by
  induction h with
  | single r =>
    intro a ha b hb
    rw [List.mem_singleton.mp ha, List.mem_singleton.mp hb]
    exact .refl
  | @snoc members cover r hrun sorted meets ih =>
    have hin : ∀ m ∈ members, m ∈ members ++ [r] := fun m hm => List.mem_append_left _ hm
    have hlast : r ∈ members ++ [r] := List.mem_append_right _ (List.mem_singleton_self r)
    have hinside := ih (fun m hm => hproper m (hin m hm)) fun m hm => hsub m (hin m hm)
    obtain ⟨m, hm, hmeets⟩ := hrun.exists_meets sorted meets (hproper r hlast)
    intro a ha b hb
    cases List.mem_append.mp ha with
    | inl ha =>
      cases List.mem_append.mp hb with
      | inl hb => exact hinside a ha b hb
      | inr hb =>
        rw [List.mem_singleton.mp hb]
        exact (hinside a ha m hm).tail ⟨hsub r hlast, hmeets⟩
    | inr ha =>
      rw [List.mem_singleton.mp ha]
      cases List.mem_append.mp hb with
      | inl hb => exact .head ⟨hsub m (hin m hm), hmeets.symm⟩ (hinside m hm b hb)
      | inr hb =>
        rw [List.mem_singleton.mp hb]
        exact .refl

variable {run : List (Range T) × Range T} {m : Range T}

theorem AreRuns.mem_of_mem (h : AreRuns all ranges) (hrun : run ∈ all) (hm : m ∈ run.1) : m ∈ ranges := by
  rw [← h.flatten]
  exact List.mem_flatMap.mpr ⟨run, hrun, hm⟩

theorem AreRuns.exists_run (h : AreRuns all ranges) (hm : m ∈ ranges) : ∃ run ∈ all, m ∈ run.1 := by
  rw [← h.flatten] at hm
  exact List.mem_flatMap.mp hm

variable {a b : List (Range T) × Range T}

theorem Apart.eq_or (h : Apart all) (ha : a ∈ all) (hb : b ∈ all) :
    a = b ∨ a.2.stop < b.2.start ∨ b.2.stop < a.2.start := by
  by_cases heq : a = b
  · exact .inl heq
  · right
    have hpairs : all.Pairwise fun a b => a.2.stop < b.2.start ∨ b.2.stop < a.2.start := h.imp .inl
    have hsymm : Std.Symm fun a b : List (Range T) × Range T => a.2.stop < b.2.start ∨ b.2.stop < a.2.start :=
      ⟨fun _ _ hab => hab.symm⟩
    exact hpairs.forall ha hb heq

theorem AreRuns.run_of_meets (h : AreRuns all ranges) (ha : a ∈ all) (hb : b ∈ all)
    {r other : Range T} (hr : r ∈ a.1) (hother : other ∈ b.1) (hmeets : r.Meets other) : a = b := by
  have hcoverA := (h.run a ha).mem_cover r hr
  have hcoverB := (h.run b hb).mem_cover other hother
  obtain heq | hlt | hlt := h.apart.eq_or ha hb
  · exact heq
  · have hcontra := lt_of_le_of_lt hcoverA.2 (lt_of_lt_of_le hlt hcoverB.1)
    exact absurd hmeets.2 (not_le_of_gt hcontra)
  · have hcontra := lt_of_le_of_lt hcoverB.2 (lt_of_lt_of_le hlt hcoverA.1)
    exact absurd hmeets.1 (not_le_of_gt hcontra)

theorem AreRuns.run_of_joined (h : AreRuns all ranges) (hrun : run ∈ all)
    {a b : Range T} (ha : a ∈ run.1) (hjoined : Joined ranges a b) : b ∈ run.1 := by
  induction hjoined with
  | refl => exact ha
  | tail _ hstep ih =>
    obtain ⟨hmem, hmeets⟩ := hstep
    obtain ⟨other, hother, hin⟩ := h.exists_run hmem
    rwa [h.run_of_meets hrun hother ih hin hmeets]

theorem AreRuns.isUnion_iff (h : AreRuns all ranges) (hproper : ∀ r ∈ ranges, r.Proper) (union : Range T) :
    IsUnion ranges union ↔ union ∈ all.map Prod.snd := by
  have hjoined : ∀ run ∈ all, ∀ a ∈ run.1, ∀ b, Joined ranges a b ↔ b ∈ run.1 := by
    intro run hrun a ha b
    refine ⟨h.run_of_joined hrun ha, fun hb => ?_⟩
    exact (h.run run hrun).joined (fun m hm => hproper m (h.mem_of_mem hrun hm))
      (fun m hm => h.mem_of_mem hrun hm) a ha b hb
  rw [List.mem_map]
  constructor
  · rintro ⟨a, ha, hcovers, ⟨first, hfirst, hstart⟩, last, hlast, hstop⟩
    obtain ⟨run, hrun, hin⟩ := h.exists_run ha
    obtain ⟨m, hm, hmstart⟩ := (h.run run hrun).exists_start
    obtain ⟨m', hm', hmstop⟩ := (h.run run hrun).exists_stop
    have hcover := (h.run run hrun).mem_cover
    rw [hjoined run hrun a hin] at hfirst hlast
    have hle := (hcovers m ((hjoined run hrun a hin m).mpr hm)).1
    have hge := (hcovers m' ((hjoined run hrun a hin m').mpr hm')).2
    refine ⟨run, hrun, ?_⟩
    have hs : run.2.start = union.start := by
      apply le_antisymm
      · exact hstart ▸ (hcover first hfirst).1
      · exact hmstart ▸ hle
    have ht : run.2.stop = union.stop := by
      apply le_antisymm
      · exact hmstop ▸ hge
      · exact hstop ▸ (hcover last hlast).2
    cases union
    cases hrange : run.2
    rw [hrange] at hs ht
    exact congr (congrArg Range.mk hs) ht
  · rintro ⟨run, hrun, rfl⟩
    obtain ⟨m, hm, hmstart⟩ := (h.run run hrun).exists_start
    obtain ⟨m', hm', hmstop⟩ := (h.run run hrun).exists_stop
    refine ⟨m, h.mem_of_mem hrun hm, ?_, ⟨m, .refl, hmstart⟩, m', (hjoined run hrun m hm m').mpr hm', hmstop⟩
    intro b hb
    exact (h.run run hrun).mem_cover b ((hjoined run hrun m hm b).mp hb)

theorem Run.meetsAnother (h : Run members cover)
    (hproper : ∀ m ∈ members, m.Proper) (hlen : members.length ≠ 1) : ∀ r ∈ members, MeetsAnother members r := by
  induction h with
  | single r => exact absurd rfl hlen
  | @snoc members cover last hrun sorted meets ih =>
    have hlast : last.Proper := hproper last (List.mem_append_right _ (List.mem_singleton_self last))
    obtain ⟨m, hm, hmeets⟩ := hrun.exists_meets sorted meets hlast
    intro r hr
    by_cases hin : r ∈ members
    · rw [MeetsAnother, List.erase_append_left _ hin]
      by_cases hone : members.length = 1
      · obtain ⟨only, rfl⟩ := List.length_eq_one_iff.mp hone
        rw [List.mem_singleton.mp hin, ← List.mem_singleton.mp hm]
        exact ⟨last, List.mem_append_right _ (List.mem_singleton_self last), hmeets⟩
      · have hinside : ∀ other ∈ members, other.Proper := fun other hother =>
          hproper other (List.mem_append_left _ hother)
        obtain ⟨other, hother, hboth⟩ := ih hinside hone r hin
        exact ⟨other, List.mem_append_left _ hother, hboth⟩
    · have heq : r = last := by
        cases List.mem_append.mp hr with
        | inl hr => exact absurd hr hin
        | inr hr => exact List.mem_singleton.mp hr
      rw [heq] at hin ⊢
      rw [MeetsAnother, List.erase_append_right _ hin]
      exact ⟨m, List.mem_append_left _ hm, hmeets.symm⟩

theorem Run.eq_singleton (h : Run members cover) (hlen : members.length = 1) : members = [cover] := by
  cases h with
  | single => rfl
  | snoc hrun =>
    have hpos := List.length_pos_iff.mpr hrun.ne_nil
    rw [List.length_append, List.length_singleton] at hlen
    omega

theorem meetsAnother_congr {l l' : List (Range T)} (h : l.Perm l') (r : Range T) :
    MeetsAnother l r ↔ MeetsAnother l' r := by
  have hmem : ∀ other, other ∈ l.erase r ↔ other ∈ l'.erase r := fun other => (h.erase r).mem_iff
  simp only [MeetsAnother, hmem]

theorem AreRuns.meetsAnother_iff (h : AreRuns all ranges) (hproper : ∀ r ∈ ranges, r.Proper) (hrun : run ∈ all) {r : Range T} (hr : r ∈ run.1) :
    MeetsAnother ranges r ↔ run.1.length ≠ 1 := by
  obtain ⟨before, after, hall⟩ := List.append_of_mem hrun
  have hperm : ranges.Perm (run.1 ++ (before.flatMap Prod.fst ++ after.flatMap Prod.fst)) := by
    rw [← h.flatten, hall, List.flatMap_append, List.flatMap_cons, ← List.append_assoc, ← List.append_assoc]
    exact List.perm_append_comm.append_right _
  rw [meetsAnother_congr hperm]
  constructor
  · rintro ⟨other, hother, hmeets⟩ hone
    rw [List.erase_append_left _ hr, (h.run run hrun).eq_singleton hone] at hother
    rw [(h.run run hrun).eq_singleton hone] at hr
    obtain rfl := List.mem_singleton.mp hr
    rw [List.erase_cons_head, List.nil_append] at hother
    have hapart := h.apart
    rw [hall, Apart, List.pairwise_append, List.pairwise_cons] at hapart
    obtain ⟨-, ⟨hafter, -⟩, hbefore⟩ := hapart
    cases List.mem_append.mp hother with
    | inl hother =>
      obtain ⟨earlier, hearlier, hmem⟩ := List.mem_flatMap.mp hother
      have hstop := ((h.run earlier (hall ▸ List.mem_append_left _ hearlier)).mem_cover other hmem).2
      have hlt := hbefore earlier hearlier run List.mem_cons_self
      exact absurd hmeets.1 (not_le_of_gt (lt_of_le_of_lt hstop hlt))
    | inr hother =>
      obtain ⟨later, hlater, hmem⟩ := List.mem_flatMap.mp hother
      have hin : later ∈ all := hall ▸ List.mem_append_right _ (List.mem_cons_of_mem run hlater)
      have hstart := ((h.run later hin).mem_cover other hmem).1
      exact absurd hmeets.2 (not_le_of_gt (lt_of_lt_of_le (hafter later hlater) hstart))
  · intro hlen
    have hinside : ∀ m ∈ run.1, m.Proper := fun m hm => hproper m (h.mem_of_mem hrun hm)
    obtain ⟨other, hother, hmeets⟩ := (h.run run hrun).meetsAnother hinside hlen r hr
    rw [MeetsAnother, List.erase_append_left _ hr]
    exact ⟨other, List.mem_append_left _ hother, hmeets⟩

theorem AreRuns.filter_alone (h : AreRuns all ranges) (hproper : ∀ r ∈ ranges, r.Proper) :
    ranges.filter (fun r => ¬ MeetsAnother ranges r) = (all.filter fun run => run.1.length = 1).map Prod.snd := by
  have hblock : ∀ run ∈ all, run.1.filter (fun r => ¬ MeetsAnother ranges r) =
      if run.1.length = 1 then [run.2] else [] := by
    intro run hrun
    by_cases hone : run.1.length = 1
    · rw [if_pos hone, ← (h.run run hrun).eq_singleton hone]
      apply List.filter_eq_self.mpr
      intro r hr
      exact decide_eq_true (mt (h.meetsAnother_iff hproper hrun hr).mp (not_not.mpr hone))
    · rw [if_neg hone]
      apply List.filter_eq_nil_iff.mpr
      intro r hr hdecide
      exact of_decide_eq_true hdecide ((h.meetsAnother_iff hproper hrun hr).mpr hone)
  have hfilter : ranges.filter (fun r => ¬ MeetsAnother ranges r) =
      all.flatMap fun run => run.1.filter fun r => ¬ MeetsAnother ranges r := by
    rw [← List.filter_flatMap, h.flatten]
  rw [hfilter, List.flatMap_congr hblock]
  clear hfilter hblock h
  induction all with
  | nil => rfl
  | cons run all ih =>
    rw [List.flatMap_cons, List.filter_cons, ih]
    by_cases hone : run.1.length = 1
    · rw [if_pos hone, if_pos (decide_eq_true hone)]
      rfl
    · rw [if_neg hone, if_neg (by simpa using hone)]
      rfl

theorem meetsOther_iff (ranges : List (Range T)) (i : Nat) :
    MeetsOther ranges i ↔ ∃ r ∈ ranges[i]?, MeetsAnother ranges r := by
  rw [MeetsOther]
  cases hget : ranges[i]? with
  | none => simp
  | some r =>
    obtain ⟨hlt, rfl⟩ := List.getElem?_eq_some_iff.mp hget
    have hperm : (ranges.eraseIdx i).Perm (ranges.erase ranges[i]) := by
      apply List.Perm.cons_inv
      exact (List.getElem_cons_eraseIdx_perm hlt).trans (List.perm_cons_erase (List.getElem_mem hlt))
    simp [MeetsAnother, hperm.mem_iff]

/-- The positions of the ranges of longer runs, in the list of which the runs begin at the first position. -/
def indicesFrom : Nat → List (List (Range T) × Range T) → List Nat
  | _, [] => []
  | first, run :: all =>
    (if run.1.length = 1 then [] else List.range' first run.1.length) ++ indicesFrom (first + run.1.length) all

omit [LinearOrder T] in
theorem mem_indicesFrom {p : Range T → Prop} (h : ∀ run ∈ all, ∀ r ∈ run.1, p r ↔ run.1.length ≠ 1) (first i : Nat) :
    i ∈ indicesFrom first all ↔ first ≤ i ∧ ∃ r ∈ (all.flatMap Prod.fst)[i - first]?, p r := by
  induction all generalizing first with
  | nil => simp [indicesFrom]
  | cons run all ih =>
    have hrun := h run List.mem_cons_self
    have hnext := ih (fun other hmem => h other (List.mem_cons_of_mem run hmem)) (first + run.1.length)
    rw [indicesFrom, List.mem_append, hnext, List.flatMap_cons]
    by_cases hfirst : first ≤ i
    · by_cases hin : i - first < run.1.length
      · have hlater : ¬ first + run.1.length ≤ i := by omega
        rw [List.getElem?_append_left hin, List.getElem?_eq_getElem hin]
        simp only [hfirst, hlater, false_and, or_false, true_and, Option.mem_def, Option.some.injEq, exists_eq_left',
          hrun _ (List.getElem_mem hin)]
        by_cases hone : run.1.length = 1
        · simp [hone]
        · rw [if_neg hone, List.mem_range'_1]
          exact ⟨fun _ => hone, fun _ => ⟨hfirst, by omega⟩⟩
      · have hlater : first + run.1.length ≤ i := by omega
        have hnot : ¬ i ∈ if run.1.length = 1 then [] else List.range' first run.1.length := by
          split
          · exact List.not_mem_nil
          · rw [List.mem_range'_1]
            omega
        rw [List.getElem?_append_right (Nat.not_lt.mp hin), Nat.sub_sub]
        simp only [hfirst, hlater, hnot, true_and, false_or]
    · have hlater : ¬ first + run.1.length ≤ i := by omega
      have hnot : ¬ i ∈ if run.1.length = 1 then [] else List.range' first run.1.length := by
        split
        · exact List.not_mem_nil
        · rw [List.mem_range'_1]
          omega
      simp only [hfirst, hlater, hnot, false_and, or_false]

theorem AreRuns.mem_indices (h : AreRuns all ranges) (hproper : ∀ r ∈ ranges, r.Proper) (i : Nat) :
    i ∈ indicesFrom 0 all ↔ MeetsOther ranges i := by
  rw [mem_indicesFrom (p := MeetsAnother ranges) fun run hrun r hr => h.meetsAnother_iff hproper hrun hr, h.flatten,
    meetsOther_iff, Nat.sub_zero]
  exact ⟨fun hboth => hboth.2, fun hmeets => ⟨Nat.zero_le i, hmeets⟩⟩

def longCovers (all : List (List (Range T) × Range T)) : List (Range T) :=
  (all.filter fun run => ¬ run.1.length = 1).map Prod.snd

theorem AreRuns.covers_perm (h : AreRuns all ranges) (hproper : ∀ r ∈ ranges, r.Proper) :
    (ranges.filter (fun r => ¬ MeetsAnother ranges r) ++ longCovers all).Perm (all.map Prod.snd) := by
  rw [h.filter_alone hproper, longCovers, ← List.map_append]
  apply List.Perm.map
  have hsplit := List.filter_append_perm (fun run : List (Range T) × Range T => decide (run.1.length = 1)) all
  simpa using hsplit

theorem AreRuns.covers_apart (h : AreRuns all ranges) (hproper : ∀ r ∈ ranges, r.Proper) :
    (all.map Prod.snd).Pairwise fun a b => ¬ a.Meets b ∧ ¬ b.Meets a ∧ a ≠ b := by
  rw [List.pairwise_map]
  apply h.apart.imp_of_mem
  intro a b ha hb hlt
  have hcover : ∀ run ∈ all, run.2.Proper := fun run hrun =>
    (h.run run hrun).cover_proper fun m hm => hproper m (h.mem_of_mem hrun hm)
  refine ⟨fun hmeets => absurd hmeets.2 (not_le_of_gt hlt), fun hmeets => absurd hmeets.1 (not_le_of_gt hlt), ?_⟩
  intro heq
  rw [← heq] at hlt
  exact absurd (hcover a ha) (not_le_of_gt hlt)

end Range

end InfiniShell.Collections
