import InfiniShell.RichText.Selections

namespace InfiniShell.RichText

open Collections Collections.Range

namespace Buffer

variable {T : Type} [LinearOrder T]

theorem sortByStart_perm (ranges : List (Range T)) : (sortByStart ranges).Perm ranges := List.perm_insertionSort _ _

theorem sortByStart_sorted (ranges : List (Range T)) : Range.Sorted (sortByStart ranges) := by
  have htotal : Std.Total fun a b : Range T => a.start ≤ b.start := ⟨fun a b => le_total a.start b.start⟩
  have htrans : IsTrans (Range T) fun a b => a.start ≤ b.start := ⟨fun a b c => le_trans⟩
  exact List.pairwise_insertionSort _ ranges

variable {ranges : List (Range T)}

theorem sortByStart_proper (h : ∀ r ∈ ranges, r.Proper) : ∀ r ∈ sortByStart ranges, r.Proper :=
  fun r hr => h r ((sortByStart_perm ranges).mem_iff.mp hr)

def sortedRuns (ranges : List (Range T)) : List (List (Range T) × Range T) := runs (sortByStart ranges)

theorem sortedRuns_areRuns (ranges : List (Range T)) : AreRuns (sortedRuns ranges) (sortByStart ranges) :=
  runs_areRuns (sortByStart_sorted ranges)

/-- What has been gathered, and what is still being gathered. -/
def collected (s : Option (OverlapRange T) × List Nat × List (Range T)) : List Nat × List (Range T) :=
  match s with
  | (some overlap, overlapping) => finishOverlap overlapping overlap
  | (none, overlapping) => overlapping

omit [LinearOrder T] in
theorem finishOverlap_run (overlapping : List Nat × List (Range T)) {members : List (Range T)} {cover : Range T}
    (hne : members ≠ []) (first : Nat) :
    finishOverlap overlapping ⟨List.range' first members.length, cover.start, cover.stop⟩ =
      (overlapping.1 ++ (if members.length = 1 then [] else List.range' first members.length),
        overlapping.2 ++ if members.length = 1 then [] else [cover]) := by
  have hpos := List.length_pos_iff.mpr hne
  rw [finishOverlap, List.length_range']
  by_cases hone : members.length = 1
  · rw [if_neg (by omega), if_pos hone, if_pos hone, List.append_nil, List.append_nil]
  · rw [if_pos (by omega), if_neg hone, if_neg hone]

theorem scan_runsFrom (members : List (Range T)) (cover : Range T) (rest : List (Range T)) (hne : members ≠ [])
    (first : Nat) (overlapping : List Nat × List (Range T)) :
    collected ((rest.zipIdx (first + members.length)).foldl scanRange
        (some ⟨List.range' first members.length, cover.start, cover.stop⟩, overlapping)) =
      (overlapping.1 ++ indicesFrom first (runsFrom members cover rest),
        overlapping.2 ++ longCovers (runsFrom members cover rest)) := by
  induction rest generalizing members cover first overlapping with
  | nil =>
    rw [List.zipIdx_nil, List.foldl_nil, collected, finishOverlap_run overlapping hne, runsFrom, indicesFrom,
      indicesFrom, List.append_nil, longCovers, List.filter_cons]
    by_cases hone : members.length = 1
    · simp [hone]
    · simp [hone]
  | cons r rest ih =>
    rw [List.zipIdx_cons, List.foldl_cons, runsFrom, scanRange]
    by_cases hmeets : r.start ≤ cover.stop
    · have hindices : List.range' first members.length ++ [first + members.length] =
          List.range' first (members ++ [r]).length := by
        rw [List.length_append, List.length_singleton, List.range'_1_concat]
      have hlength : first + members.length + 1 = first + (members ++ [r]).length := by
        rw [List.length_append, List.length_singleton, Nat.add_assoc]
      simp only [if_pos hmeets, hindices, hlength]
      have hlonger : members ++ [r] ≠ [] := List.append_ne_nil_of_right_ne_nil _ (List.cons_ne_nil _ [])
      exact ih (members ++ [r]) ⟨cover.start, max r.stop cover.stop⟩ hlonger first overlapping
    · simp only [if_neg hmeets, finishOverlap_run overlapping hne]
      have hnext := ih [r] r (List.cons_ne_nil r []) (first + members.length)
        (overlapping.1 ++ (if members.length = 1 then [] else List.range' first members.length),
          overlapping.2 ++ if members.length = 1 then [] else [cover])
      rw [List.length_singleton] at hnext
      refine Eq.trans hnext ?_
      rw [indicesFrom, longCovers, longCovers, List.filter_cons, List.append_assoc, List.append_assoc]
      by_cases hone : members.length = 1
      · simp [hone]
      · simp [hone]

theorem overlappingRanges_eq (ranges : List (Range T)) :
    overlappingRanges ranges = (indicesFrom 0 (sortedRuns ranges), longCovers (sortedRuns ranges)) := by
  have hscan : overlappingRanges ranges =
      collected ((sortByStart ranges).zipIdx.foldl scanRange (none, [], [])) := rfl
  rw [hscan, sortedRuns]
  cases sortByStart ranges with
  | nil => rfl
  | cons r rest => exact scan_runsFrom [r] r rest (List.cons_ne_nil r []) 0 ([], [])

theorem overlapIndices_nil_iff (ranges : List (Range T)) :
    (overlappingRanges ranges).1 = [] ↔ (overlappingRanges ranges).2 = [] := by
  rw [overlappingRanges_eq]
  have hruns := (sortedRuns_areRuns ranges).run
  generalize sortedRuns ranges = all at hruns
  change indicesFrom 0 all = [] ↔ longCovers all = []
  generalize 0 = first
  induction all generalizing first with
  | nil => exact iff_of_true rfl rfl
  | cons run all ih =>
    have hrest := ih (fun other hmem => hruns other (List.mem_cons_of_mem run hmem)) (first + run.1.length)
    have hpos := List.length_pos_iff.mpr (hruns run List.mem_cons_self).ne_nil
    rw [indicesFrom, longCovers, List.filter_cons, List.append_eq_nil_iff, hrest]
    by_cases hone : run.1.length = 1
    · simp [hone, longCovers]
    · have hne : run.1 ≠ [] := List.length_pos_iff.mp hpos
      simp [hone, hne]

variable (hproper : ∀ r ∈ ranges, r.Proper)
include hproper

theorem mem_overlapIndices (i : Nat) :
    i ∈ (overlappingRanges ranges).1 ↔ MeetsOther (sortByStart ranges) i := by
  rw [overlappingRanges_eq]
  exact (sortedRuns_areRuns ranges).mem_indices (sortByStart_proper hproper) i

theorem isUnion_iff (union : Range T) :
    IsUnion ranges union ↔ union ∈ (sortedRuns ranges).map Prod.snd := by
  have hmem : ∀ r, r ∈ ranges ↔ r ∈ sortByStart ranges := fun r => (sortByStart_perm ranges).mem_iff.symm
  rw [← (sortedRuns_areRuns ranges).isUnion_iff (sortByStart_proper hproper)]
  simp only [IsUnion, Range.Joined, hmem]

theorem alone_append_covers :
    (ranges.filter (fun r => ¬ MeetsAnother ranges r) ++ (overlappingRanges ranges).2).Perm
      ((sortedRuns ranges).map Prod.snd) := by
  rw [overlappingRanges_eq]
  have hperm := (sortedRuns_areRuns ranges).covers_perm (sortByStart_proper hproper)
  refine List.Perm.trans ?_ hperm
  apply List.Perm.append_right
  have hfilter : ranges.filter (fun r => ¬ MeetsAnother ranges r) =
      ranges.filter fun r => ¬ MeetsAnother (sortByStart ranges) r := by
    apply List.filter_congr
    intro r _
    rw [decide_eq_decide, meetsAnother_congr (sortByStart_perm ranges)]
  rw [hfilter]
  exact (sortByStart_perm ranges).symm.filter _

theorem overlappingRanges_proper : ∀ r ∈ (overlappingRanges ranges).2, r.Proper := by
  have hruns := sortedRuns_areRuns ranges
  rw [overlappingRanges_eq]
  intro r hr
  obtain ⟨run, hrun, rfl⟩ := List.mem_map.mp hr
  have hmem := (List.mem_filter.mp hrun).1
  exact (hruns.run run hmem).cover_proper fun m hm => sortByStart_proper hproper m (hruns.mem_of_mem hmem hm)

theorem overlapIndices_of_apart
    (h : ranges.Pairwise fun a b => ¬ a.Meets b) : (overlappingRanges ranges).1 = [] := by
  apply List.eq_nil_iff_forall_not_mem.mpr
  intro i hi
  rw [mem_overlapIndices hproper, meetsOther_iff] at hi
  obtain ⟨r, hr, hmeets⟩ := hi
  rw [meetsAnother_congr (sortByStart_perm ranges)] at hmeets
  obtain ⟨other, hother, hboth⟩ := hmeets
  have hin : r ∈ ranges := (sortByStart_perm ranges).mem_iff.mp (List.mem_of_getElem? hr)
  have hsymm : ∀ {a b : Range T}, ¬ a.Meets b → ¬ b.Meets a := fun hnot hmeets => hnot hmeets.symm
  have hpairs := (List.perm_cons_erase hin).pairwise h hsymm
  exact (List.pairwise_cons.mp hpairs).1 other hother hboth

end Buffer

namespace BufferSelectionModel

/-- The anchors of the selections are there, and new ones will be new. -/
structure Valid (m : BufferSelectionModel) : Prop where
  nonempty : m.selections ≠ []
  resolves : ∀ s ∈ m.selections, (m.selectionHead s).isSome ∧ (m.selectionTail s).isSome
  fresh : ∀ id, (m.anchors.anchors.get id).isSome → id < m.anchors.nextId

structure Merged (m after : BufferSelectionModel) (ranges rangesAfter : List (Range Nat)) : Prop where
  nodup : rangesAfter.Nodup
  unions : ∀ union, union ∈ rangesAfter ↔ IsUnion ranges union
  keeps : ∀ i s, m.selections[i]? = some s → ¬ MeetsOther ranges i → ∃ kept ∈ after.selections,
    after.selectionHead kept = m.selectionHead s ∧ after.selectionTail kept = m.selectionTail s
  again : after.mergeOverlappingSelections = some after
  positions : ∀ i, i ∈ (Buffer.overlappingRanges ranges).1 ↔ MeetsOther ranges i

def Merges (m : BufferSelectionModel) : Prop :=
  ∃ after ranges rangesAfter, m.mergeOverlappingSelections = some after ∧
    m.selectionsToOffsetRanges = some ranges ∧ after.selectionsToOffsetRanges = some rangesAfter ∧
      m.Merged after ranges rangesAfter

def SamePositions (ranges : List (Range Nat)) : Prop :=
  ∀ i, MeetsOther ranges i ↔ MeetsOther (Buffer.sortByStart ranges) i

variable {m after : BufferSelectionModel} {ranges : List (Range Nat)}

theorem selectionToOffsetRange_proper {s : Selection} {range : Range Nat}
    (h : m.selectionToOffsetRange s = some range) : range.Proper := by
  obtain ⟨head, -, h⟩ := Option.bind_eq_some_iff.mp h
  obtain ⟨tail, -, h⟩ := Option.bind_eq_some_iff.mp h
  obtain rfl := Option.some.inj h
  split
  next hle => exact hle
  next hlt => exact Nat.le_of_lt (Nat.not_le.mp hlt)

theorem selectionToOffsetRange_isSome {s : Selection} (hhead : (m.selectionHead s).isSome)
    (htail : (m.selectionTail s).isSome) : (m.selectionToOffsetRange s).isSome := by
  obtain ⟨head, hhead⟩ := Option.isSome_iff_exists.mp hhead
  obtain ⟨tail, htail⟩ := Option.isSome_iff_exists.mp htail
  simp [selectionToOffsetRange, hhead, htail]

theorem selectionsToOffsetRanges_iff : m.selectionsToOffsetRanges = some ranges ↔
    List.Forall₂ (fun s range => m.selectionToOffsetRange s = some range) m.selections ranges := by
  rw [selectionsToOffsetRanges]
  generalize m.selections = selections
  induction selections generalizing ranges with
  | nil => simp [eq_comm]
  | cons s selections ih =>
    rw [List.mapM_cons, List.forall₂_cons_left_iff]
    simp only [Option.bind_eq_bind, Option.bind_eq_some_iff, ih, Option.pure_def, Option.some.injEq]
    constructor
    · rintro ⟨range, hrange, rest, hrest, rfl⟩
      exact ⟨range, rest, hrange, hrest, rfl⟩
    · rintro ⟨range, rest, hrange, hrest, rfl⟩
      exact ⟨range, hrange, rest, hrest, rfl⟩

theorem Valid.exists_ranges (h : m.Valid) : ∃ ranges, m.selectionsToOffsetRanges = some ranges := by
  have hall : ∀ s ∈ m.selections, (m.selectionToOffsetRange s).isSome := fun s hs =>
    selectionToOffsetRange_isSome (h.resolves s hs).1 (h.resolves s hs).2
  simp only [selectionsToOffsetRanges_iff]
  generalize m.selections = selections at hall
  induction selections with
  | nil => exact ⟨[], .nil⟩
  | cons s selections ih =>
    obtain ⟨range, hrange⟩ := Option.isSome_iff_exists.mp (hall s List.mem_cons_self)
    obtain ⟨rest, hrest⟩ := ih fun other hmem => hall other (List.mem_cons_of_mem s hmem)
    exact ⟨range :: rest, .cons hrange hrest⟩

theorem proper_of_ranges (h : m.selectionsToOffsetRanges = some ranges) : ∀ r ∈ ranges, r.Proper := by
  have hall := selectionsToOffsetRanges_iff.mp h
  intro r hr
  obtain ⟨i, hi⟩ := List.getElem?_of_mem hr
  obtain ⟨hlt, rfl⟩ := List.getElem?_eq_some_iff.mp hi
  exact selectionToOffsetRange_proper (hall.get (hall.length_eq ▸ hlt) hlt)

structure Grown (before after : Anchors) : Prop where
  resolve : ∀ anchor offset, before.resolve anchor = some offset → after.resolve anchor = some offset
  fresh : ∀ id, (after.anchors.get id).isSome → id < after.nextId

theorem Grown.trans {a b c : Anchors} (h : Grown a b) (h' : Grown b c) : Grown a c :=
  ⟨fun anchor offset hget => h'.resolve anchor offset (h.resolve anchor offset hget), h'.fresh⟩

theorem createAnchor_grown {a : Anchors} (hfresh : ∀ id, (a.anchors.get id).isSome → id < a.nextId) (offset : Nat)
    (side : AnchorSide) : Grown a (a.createAnchor offset side).2 ∧
      (a.createAnchor offset side).2.resolve (a.createAnchor offset side).1 = some offset := by
  have hnew : a.anchors.get a.nextId = none := by
    cases hget : a.anchors.get a.nextId with
    | none => rfl
    | some state => exact absurd (hfresh a.nextId (by rw [hget]; rfl)) (Nat.lt_irrefl _)
  refine ⟨⟨?_, ?_⟩, ?_⟩
  · intro anchor at' hget
    obtain ⟨state, hstate, hoffset⟩ := Option.map_eq_some_iff.mp hget
    rw [Anchors.resolve, Anchors.createAnchor, AssocMap.get_insert_of_new hnew hstate, Option.map_some, hoffset]
  · intro id hid
    rw [Anchors.createAnchor, AssocMap.get_insert] at hid
    split at hid
    next heq => exact heq ▸ Nat.lt_succ_self _
    next => exact Nat.lt_succ_of_lt (hfresh id hid)
  · rw [Anchors.resolve, Anchors.createAnchor, AssocMap.get_insert, if_pos rfl]
    rfl

theorem createSelection_spec {a : Anchors} (hfresh : ∀ id, (a.anchors.get id).isSome → id < a.nextId)
    (head tail : Nat) : Grown a (createSelection a head tail).2 ∧
      (createSelection a head tail).2.resolve (createSelection a head tail).1.head = some head ∧
        (createSelection a head tail).2.resolve (createSelection a head tail).1.tail = some tail := by
  obtain ⟨hgrown, hhead⟩ := createAnchor_grown hfresh head .right
  obtain ⟨hgrown', htail⟩ := createAnchor_grown hgrown.fresh tail .right
  exact ⟨hgrown.trans hgrown', hgrown'.resolve _ _ hhead, htail⟩

theorem selectionToOffsetRange_of {s : Selection} {head tail : Nat} (hhead : m.selectionHead s = some head)
    (htail : m.selectionTail s = some tail) :
    m.selectionToOffsetRange s = some (if head ≥ tail then ⟨tail, head⟩ else ⟨head, tail⟩) := by
  rw [selectionToOffsetRange, hhead, htail]
  rfl

theorem selectionToOffsetRange_grown {selections selections' : List Selection} {a b : Anchors} (h : Grown a b)
    {s : Selection} {range : Range Nat}
    (hrange : (BufferSelectionModel.mk selections a).selectionToOffsetRange s = some range) :
    (BufferSelectionModel.mk selections' b).selectionToOffsetRange s = some range := by
  obtain ⟨head, hhead, hrest⟩ := Option.bind_eq_some_iff.mp hrange
  obtain ⟨tail, htail, -⟩ := Option.bind_eq_some_iff.mp hrest
  rw [← hrange, selectionToOffsetRange_of hhead htail]
  exact selectionToOffsetRange_of (h.resolve _ _ hhead) (h.resolve _ _ htail)

theorem range_of_ends {range : Range Nat} (h : range.Proper) :
    (if range.stop ≥ range.start then (⟨range.start, range.stop⟩ : Range Nat) else ⟨range.stop, range.start⟩) = range ∧
      (if range.start ≥ range.stop then (⟨range.stop, range.start⟩ : Range Nat) else ⟨range.start, range.stop⟩) =
        range := by
  refine ⟨if_pos h, ?_⟩
  by_cases hge : range.start ≥ range.stop
  · have heq : range.start = range.stop := Nat.le_antisymm h hge
    obtain ⟨start, stop⟩ := range
    obtain rfl : start = stop := heq
    rw [if_pos hge]
  · rw [if_neg hge]

theorem pushRanges_spec (forwards : Bool) {newRanges : List (Range Nat)} (hproper : ∀ r ∈ newRanges, r.Proper)
    {selections : List Selection} {a : Anchors} (hfresh : ∀ id, (a.anchors.get id).isSome → id < a.nextId) :
    ∃ created, (newRanges.foldl (pushRange forwards) (selections, a)).1 = selections ++ created ∧
      Grown a (newRanges.foldl (pushRange forwards) (selections, a)).2 ∧
        List.Forall₂ (fun s range => (BufferSelectionModel.mk selections
          (newRanges.foldl (pushRange forwards) (selections, a)).2).selectionToOffsetRange s = some range)
            created newRanges := by
  induction newRanges generalizing selections a with
  | nil => exact ⟨[], (List.append_nil _).symm, ⟨fun _ _ hget => hget, hfresh⟩, .nil⟩
  | cons range rest ih =>
    have hrange : range.Proper := hproper range List.mem_cons_self
    rw [List.foldl_cons]
    obtain ⟨s, a', hpush, hgrown, hs⟩ : ∃ s a', pushRange forwards (selections, a) range = (selections ++ [s], a') ∧
        Grown a a' ∧ (BufferSelectionModel.mk selections a').selectionToOffsetRange s = some range := by
      cases forwards with
      | true =>
        obtain ⟨hgrown, hhead, htail⟩ := createSelection_spec hfresh range.stop range.start
        refine ⟨_, _, rfl, hgrown, ?_⟩
        have hof := @selectionToOffsetRange_of ⟨selections, _⟩ _ _ _ hhead htail
        rwa [(range_of_ends hrange).1] at hof
      | false =>
        obtain ⟨hgrown, hhead, htail⟩ := createSelection_spec hfresh range.start range.stop
        refine ⟨_, _, rfl, hgrown, ?_⟩
        have hof := @selectionToOffsetRange_of ⟨selections, _⟩ _ _ _ hhead htail
        rwa [(range_of_ends hrange).2] at hof
    rw [hpush]
    obtain ⟨created, hselections, hgrown', hcreated⟩ :=
      @ih (fun r hr => hproper r (List.mem_cons_of_mem range hr)) (selections ++ [s]) a' hgrown.fresh
    refine ⟨s :: created, ?_, hgrown.trans hgrown', .cons (selectionToOffsetRange_grown hgrown' hs) hcreated⟩
    rw [hselections, List.append_assoc]
    rfl

def atPositions {α : Type} (q : Nat → Bool) (l : List α) (first : Nat) : List α :=
  ((l.zipIdx first).filter fun item => q item.2).map Prod.fst

theorem atPositions_cons {α : Type} (q : Nat → Bool) (a : α) (l : List α) (first : Nat) :
    atPositions q (a :: l) first = (if q first then [a] else []) ++ atPositions q l (first + 1) := by
  rw [atPositions, List.zipIdx_cons, List.filter_cons]
  split <;> rfl

theorem forall₂_atPositions {α β : Type} {R : α → β → Prop} {l : List α} {l' : List β} (h : List.Forall₂ R l l')
    (q : Nat → Bool) (first : Nat) : List.Forall₂ R (atPositions q l first) (atPositions q l' first) := by
  induction h generalizing first with
  | nil => exact .nil
  | cons hhead _ ih =>
    rw [atPositions_cons, atPositions_cons]
    split
    · exact .cons hhead (ih (first + 1))
    · exact ih (first + 1)

theorem atPositions_eq_filter {α : Type} {q : Nat → Bool} {p : α → Bool} {l : List α} {first : Nat}
    (h : ∀ i a, l[i]? = some a → q (first + i) = p a) : atPositions q l first = l.filter p := by
  induction l generalizing first with
  | nil => rfl
  | cons a l ih =>
    have hrest : atPositions q l (first + 1) = l.filter p := by
      apply ih
      intro i b hb
      rw [Nat.add_assoc, Nat.add_comm 1 i]
      exact h (i + 1) b hb
    rw [atPositions_cons, hrest, List.filter_cons, ← h 0 a rfl, Nat.add_zero]
    split <;> rfl

theorem mem_atPositions {α : Type} {q : Nat → Bool} {l : List α} {i : Nat} {a : α} (ha : l[i]? = some a)
    (hq : q i = true) : a ∈ atPositions q l 0 := by
  apply List.mem_map.mpr
  refine ⟨(a, i), List.mem_filter.mpr ⟨?_, hq⟩, rfl⟩
  rw [List.mem_zipIdx_iff_getElem?]
  exact ha

theorem mem_of_atPositions {α : Type} {q : Nat → Bool} {l : List α} {first : Nat} {a : α}
    (h : a ∈ atPositions q l first) : a ∈ l := by
  obtain ⟨item, hitem, rfl⟩ := List.mem_map.mp h
  exact List.fst_mem_of_mem_zipIdx (List.mem_filter.mp hitem).1

theorem anyM_of_isSome {α : Type} {f : α → Option Bool} {l : List α} (h : ∀ a ∈ l, (f a).isSome) :
    ∃ b, l.anyM f = some b := by
  induction l with
  | nil => exact ⟨false, rfl⟩
  | cons a l ih =>
    obtain ⟨b, hb⟩ := Option.isSome_iff_exists.mp (h a List.mem_cons_self)
    obtain ⟨rest, hrest⟩ := ih fun other hmem => h other (List.mem_cons_of_mem a hmem)
    rw [List.anyM, hb]
    cases b with
    | true => exact ⟨true, rfl⟩
    | false => exact ⟨rest, hrest⟩

theorem Valid.merge (h : m.Valid) (hranges : m.selectionsToOffsetRanges = some ranges) :
    ∃ after, m.mergeOverlappingSelections = some after ∧ Grown m.anchors after.anchors ∧
      after.selectionsToOffsetRanges =
        some (atPositions (fun i => ! (Buffer.overlappingRanges ranges).1.contains i) ranges 0 ++
          (Buffer.overlappingRanges ranges).2) ∧
      ∀ s ∈ atPositions (fun i => ! (Buffer.overlappingRanges ranges).1.contains i) m.selections 0,
        s ∈ after.selections := by
  have hall := selectionsToOffsetRanges_iff.mp hranges
  have hproper := proper_of_ranges hranges
  rw [mergeOverlappingSelections, hranges]
  simp only [Option.bind_eq_bind, Option.bind_some]
  by_cases hnil : (Buffer.overlappingRanges ranges).1 = []
  · have hnone := (Buffer.overlapIndices_nil_iff ranges).mp hnil
    have hevery : ∀ {α : Type} (l : List α),
        atPositions (fun i => ! (Buffer.overlappingRanges ranges).1.contains i) l 0 = l := by
      intro α l
      have hfilter := @atPositions_eq_filter α (fun i => ! (Buffer.overlappingRanges ranges).1.contains i)
        (fun _ => true) l 0 (by simp [hnil])
      rw [hfilter, List.filter_true]
    refine ⟨m, ?_, ⟨fun _ _ hget => hget, h.fresh⟩, ?_, ?_⟩
    · rw [hnil]
      rfl
    · rw [hevery, hnone, List.append_nil, hranges]
    · intro s hs
      rwa [hevery] at hs
  · have hbehind : ∀ s ∈ m.selections, (m.headIsBehind s).isSome := by
      intro s hs
      obtain ⟨head, hhead⟩ := Option.isSome_iff_exists.mp (h.resolves s hs).1
      obtain ⟨tail, htail⟩ := Option.isSome_iff_exists.mp (h.resolves s hs).2
      simp [headIsBehind, hhead, htail]
    obtain ⟨forwards, hforwards⟩ : ∃ b, (atPositions (fun i => (Buffer.overlappingRanges ranges).1.contains i)
        m.selections 0).anyM m.headIsBehind = some b :=
      anyM_of_isSome fun s hs => hbehind s (mem_of_atPositions hs)
    have hnew : (Buffer.overlappingRanges ranges).2 ≠ [] := mt (Buffer.overlapIndices_nil_iff ranges).mpr hnil
    obtain ⟨created, hselections, hgrown, hcreated⟩ := @pushRanges_spec forwards _
      (Buffer.overlappingRanges_proper hproper) (m.keptSelections (Buffer.overlappingRanges ranges).1) _ h.fresh
    have hkept : m.keptSelections (Buffer.overlappingRanges ranges).1 =
        atPositions (fun i => ! (Buffer.overlappingRanges ranges).1.contains i) m.selections 0 := rfl
    have hcreatedNe : created ≠ [] := by
      intro hempty
      have hlength := hcreated.length_eq
      rw [hempty] at hlength
      exact hnew (List.length_eq_zero_iff.mp hlength.symm)
    refine ⟨⟨m.keptSelections (Buffer.overlappingRanges ranges).1 ++ created, _⟩, ?_, hgrown, ?_, ?_⟩
    · have hempty : (m.keptSelections (Buffer.overlappingRanges ranges).1 ++ created).isEmpty = false := by
        simp [hcreatedNe]
      rw [if_neg (by simpa using hnil)]
      change (Option.bind ((atPositions _ m.selections 0).anyM m.headIsBehind) _) = _
      rw [hforwards, Option.bind_some, hselections, hempty]
      rfl
    · rw [selectionsToOffsetRanges_iff]
      apply List.rel_append
      · rw [hkept]
        exact (forall₂_atPositions hall _ 0).imp fun s range hrange => selectionToOffsetRange_grown hgrown hrange
      · exact hcreated
    · intro s hs
      exact List.mem_append_left _ hs

theorem keeps_offsets (h : Grown m.anchors after.anchors) {s : Selection} (hhead : (m.selectionHead s).isSome)
    (htail : (m.selectionTail s).isSome) :
    after.selectionHead s = m.selectionHead s ∧ after.selectionTail s = m.selectionTail s := by
  obtain ⟨head, hhead⟩ := Option.isSome_iff_exists.mp hhead
  obtain ⟨tail, htail⟩ := Option.isSome_iff_exists.mp htail
  rw [hhead, htail]
  exact ⟨h.resolve _ _ hhead, h.resolve _ _ htail⟩

/-- Exactly if overlapping ranges have the same positions in the list as in the order of the starts. -/
theorem merges_iff (m : BufferSelectionModel) (h : m.Valid) :
    m.Merges ↔ ∀ ranges, m.selectionsToOffsetRanges = some ranges → SamePositions ranges := by
  constructor
  · rintro ⟨after, ranges, rangesAfter, -, hranges, -, hmerged⟩ ranges' hranges'
    obtain rfl := Option.some.inj (hranges.symm.trans hranges')
    intro i
    rw [← hmerged.positions i]
    exact Buffer.mem_overlapIndices (proper_of_ranges hranges) i
  · intro hsame
    obtain ⟨ranges, hranges⟩ := h.exists_ranges
    have hproper := proper_of_ranges hranges
    have hpositions : ∀ i, i ∈ (Buffer.overlappingRanges ranges).1 ↔ MeetsOther ranges i := fun i =>
      (Buffer.mem_overlapIndices hproper i).trans (hsame ranges hranges i).symm
    obtain ⟨after, hafter, hgrown, hrangesAfter, hkept⟩ := h.merge hranges
    have halone : atPositions (fun i => ! (Buffer.overlappingRanges ranges).1.contains i) ranges 0 =
        ranges.filter fun r => ¬ MeetsAnother ranges r := by
      apply atPositions_eq_filter
      intro i r hr
      have hiff : MeetsOther ranges i ↔ MeetsAnother ranges r := by
        rw [meetsOther_iff, hr]
        simp
      rw [Nat.zero_add, List.contains_eq_mem, decide_eq_decide.mpr ((hpositions i).trans hiff), decide_not]
    rw [halone] at hrangesAfter
    have hperm := Buffer.alone_append_covers hproper
    have hapart := (Buffer.sortedRuns_areRuns ranges).covers_apart (Buffer.sortByStart_proper hproper)
    have hsymm : ∀ {a b : Range Nat}, (¬ a.Meets b ∧ ¬ b.Meets a ∧ a ≠ b) → ¬ b.Meets a ∧ ¬ a.Meets b ∧ b ≠ a :=
      fun hab => ⟨hab.2.1, hab.1, Ne.symm hab.2.2⟩
    have hpairs := hperm.symm.pairwise hapart hsymm
    refine ⟨after, ranges, _, hafter, hranges, hrangesAfter, ?_, ?_, ?_, ?_, hpositions⟩
    · exact hpairs.imp fun hab => hab.2.2
    · intro union
      rw [hperm.mem_iff, Buffer.isUnion_iff hproper]
    · intro i s hs hnot
      have hin : s ∈ m.selections := List.mem_of_getElem? hs
      have hoffsets := keeps_offsets hgrown (h.resolves s hin).1 (h.resolves s hin).2
      refine ⟨s, hkept s (mem_atPositions hs ?_), hoffsets⟩
      rw [List.contains_eq_mem, decide_eq_false (mt (hpositions i).mp hnot)]
      rfl
    · have hproperAfter := proper_of_ranges hrangesAfter
      have hnil := Buffer.overlapIndices_of_apart hproperAfter (hpairs.imp fun hab => hab.1)
      rw [mergeOverlappingSelections, hrangesAfter]
      simp only [Option.bind_eq_bind, Option.bind_some, hnil]
      rfl

theorem createSelections_spec (offsets : List (Nat × Nat)) {a : Anchors}
    (hfresh : ∀ id, (a.anchors.get id).isSome → id < a.nextId) : Grown a (createSelections a offsets).2 ∧
      List.Forall₂ (fun s pair => (createSelections a offsets).2.resolve s.head = some pair.1 ∧
        (createSelections a offsets).2.resolve s.tail = some pair.2) (createSelections a offsets).1 offsets := by
  induction offsets generalizing a with
  | nil => exact ⟨⟨fun _ _ hget => hget, hfresh⟩, .nil⟩
  | cons pair offsets ih =>
    obtain ⟨hgrown, hhead, htail⟩ := createSelection_spec hfresh pair.1 pair.2
    obtain ⟨hgrown', hrest⟩ := ih hgrown.fresh
    exact ⟨hgrown.trans hgrown', .cons ⟨hgrown'.resolve _ _ hhead, hgrown'.resolve _ _ htail⟩ hrest⟩

theorem setSelectionOffsets_valid (m : BufferSelectionModel) {offsets : List (Nat × Nat)} (hne : offsets ≠ [])
    (hfresh : ∀ id, (m.anchors.anchors.get id).isSome → id < m.anchors.nextId) :
    (m.setSelectionOffsets offsets).Valid := by
  obtain ⟨hgrown, hall⟩ := createSelections_spec offsets hfresh
  refine ⟨?_, ?_, hgrown.fresh⟩
  · intro hnil
    change (createSelections m.anchors offsets).1 = [] at hnil
    rw [hnil] at hall
    cases hall
    exact hne rfl
  · intro s hs
    change s ∈ (createSelections m.anchors offsets).1 at hs
    obtain ⟨i, hi⟩ := List.getElem?_of_mem hs
    obtain ⟨hlt, rfl⟩ := List.getElem?_eq_some_iff.mp hi
    have hpair := hall.get hlt (hall.length_eq ▸ hlt)
    exact ⟨Option.isSome_iff_exists.mpr ⟨_, hpair.1⟩, Option.isSome_iff_exists.mpr ⟨_, hpair.2⟩⟩

theorem new_fresh : ∀ id, (new.anchors.anchors.get id).isSome → id < new.anchors.nextId :=
  (createSelection_spec (fun id hid => by cases hid) 1 1).1.fresh

theorem merges_iff_in_order : (new.setSelectionOffsets [(1, 5), (7, 3), (8, 10)]).Merges := by
  apply (merges_iff _ (new.setSelectionOffsets_valid (List.cons_ne_nil _ _) new_fresh)).mpr
  intro ranges hranges
  have hcomputed : (new.setSelectionOffsets [(1, 5), (7, 3), (8, 10)]).selectionsToOffsetRanges =
      some [⟨1, 5⟩, ⟨3, 7⟩, ⟨8, 10⟩] := by decide
  obtain rfl := Option.some.inj (hcomputed.symm.trans hranges)
  have hsorted : Buffer.sortByStart [⟨1, 5⟩, ⟨3, 7⟩, (⟨8, 10⟩ : Range Nat)] = [⟨1, 5⟩, ⟨3, 7⟩, ⟨8, 10⟩] := by decide
  intro i
  rw [hsorted]

theorem merges_wrong : ¬ ∀ m : BufferSelectionModel, m.Valid → m.Merges := by
  intro hall
  obtain ⟨after, ranges, rangesAfter, -, hranges, -, hmerged⟩ :=
    hall _ (new.setSelectionOffsets_valid (List.cons_ne_nil (1, 5) [(8, 10), (3, 7)]) new_fresh)
  have hcomputed : (new.setSelectionOffsets [(1, 5), (8, 10), (3, 7)]).selectionsToOffsetRanges =
      some [⟨1, 5⟩, ⟨8, 10⟩, ⟨3, 7⟩] := by decide
  obtain rfl := Option.some.inj (hcomputed.symm.trans hranges)
  have hmeets : MeetsOther [⟨1, 5⟩, ⟨8, 10⟩, (⟨3, 7⟩ : Range Nat)] 2 :=
    ⟨⟨3, 7⟩, rfl, ⟨1, 5⟩, List.mem_cons_self, by decide⟩
  exact absurd ((hmerged.positions 2).mpr hmeets) (by decide)

end BufferSelectionModel

end InfiniShell.RichText
