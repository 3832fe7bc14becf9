import InfiniShell.Scrollback.Index
import Mathlib.Tactic.Ring

namespace InfiniShell.Scrollback

open Collections Terminal

def colsOf (infos : List GraphemeInfo) : Nat := (infos.map GraphemeInfo.cellWidth).sum

def bytesOf (infos : List GraphemeInfo) : Nat := (infos.map GraphemeInfo.utf8Bytes).sum

@[simp] theorem colsOf_nil : colsOf [] = 0 := rfl

@[simp] theorem colsOf_cons (info : GraphemeInfo) (infos : List GraphemeInfo) :
    colsOf (info :: infos) = info.cellWidth + colsOf infos := rfl

@[simp] theorem colsOf_append (l r : List GraphemeInfo) : colsOf (l ++ r) = colsOf l + colsOf r := by
  rw [colsOf, List.map_append, List.sum_append]
  rfl

@[simp] theorem colsOf_replicate (n : Nat) (info : GraphemeInfo) :
    colsOf (List.replicate n info) = n * info.cellWidth := by
  rw [colsOf, List.map_replicate, List.sum_replicate_nat]

@[simp] theorem bytesOf_nil : bytesOf [] = 0 := rfl

@[simp] theorem bytesOf_cons (info : GraphemeInfo) (infos : List GraphemeInfo) :
    bytesOf (info :: infos) = info.utf8Bytes + bytesOf infos := rfl

@[simp] theorem bytesOf_append (l r : List GraphemeInfo) : bytesOf (l ++ r) = bytesOf l + bytesOf r := by
  rw [bytesOf, List.map_append, List.sum_append]
  rfl

@[simp] theorem bytesOf_replicate (n : Nat) (info : GraphemeInfo) :
    bytesOf (List.replicate n info) = n * info.utf8Bytes := by
  rw [bytesOf, List.map_replicate, List.sum_replicate_nat]

def Narrow (infos : List GraphemeInfo) : Prop := ∀ info ∈ infos, info.cellWidth = 1 ∨ info.cellWidth = 2

namespace Index

@[simp] theorem expand_nil : expand [] = [] := rfl

@[simp] theorem expand_cons (run : GraphemeRun) (runs : List GraphemeRun) :
    expand (run :: runs) = List.replicate run.count run.info ++ expand runs := rfl

@[simp] theorem expand_append (l r : List GraphemeRun) : expand (l ++ r) = expand l ++ expand r := by
  rw [expand, List.flatMap_append]
  rfl

end Index

open Index (expand)

variable {info : GraphemeInfo} {runs next : List GraphemeRun}

theorem pushRun_spec (h : pushRun runs info = some next)
    (hpos : ∀ run ∈ runs, 0 < run.count) : expand next = expand runs ++ [info] ∧ ∀ run ∈ next, 0 < run.count := by
  unfold pushRun at h
  cases hlast : runs.getLast? with
  | none =>
    rw [hlast] at h
    obtain rfl := Option.some.inj h
    obtain rfl := List.getLast?_eq_none_iff.mp hlast
    exact ⟨rfl, by simp⟩
  | some last =>
    rw [hlast] at h
    obtain ⟨front, rfl⟩ := List.getLast?_eq_some_iff.mp hlast
    simp only at h
    split at h
    next hinfo =>
      split at h
      next =>
        obtain rfl := Option.some.inj h
        refine ⟨?_, ?_⟩
        · simp [← hinfo, List.replicate_succ', List.append_assoc]
        · intro run hrun
          rw [List.dropLast_concat, List.mem_append, List.mem_singleton] at hrun
          cases hrun with
          | inl hrun => exact hpos run (List.mem_append_left _ hrun)
          | inr hrun =>
            rw [hrun]
            exact Nat.succ_pos _
      next => cases h
    next =>
      obtain rfl := Option.some.inj h
      refine ⟨by simp, ?_⟩
      intro run hrun
      cases List.mem_append.mp hrun with
      | inl hrun => exact hpos run hrun
      | inr hrun =>
        rw [List.mem_singleton.mp hrun]
        exact Nat.one_pos

def Encodes (infos : List GraphemeInfo) (runs : List GraphemeRun) : Prop := infos.foldlM pushRun [] = some runs

theorem Encodes.nil : Encodes [] [] := rfl

variable {infos : List GraphemeInfo}

theorem Encodes.push
    (h : Encodes infos runs) (hpush : pushRun runs info = some next) : Encodes (infos ++ [info]) next := by
  rw [Encodes, List.foldlM_append, h]
  simp [hpush]

variable {runs : List GraphemeRun}

theorem Encodes.spec (h : Encodes infos runs) : expand runs = infos ∧ ∀ run ∈ runs, 0 < run.count := by
  have hfold : ∀ (infos : List GraphemeInfo) (front : List GraphemeRun), (∀ run ∈ front, 0 < run.count) →
      infos.foldlM pushRun front = some runs → expand runs = expand front ++ infos ∧ ∀ run ∈ runs, 0 < run.count := by
    intro infos
    induction infos with
    | nil =>
      intro front hpos hfold
      obtain rfl := Option.some.inj hfold
      exact ⟨(List.append_nil _).symm, hpos⟩
    | cons info infos ih =>
      intro front hpos hfold
      rw [List.foldlM_cons, Option.bind_eq_bind, Option.bind_eq_some_iff] at hfold
      obtain ⟨next, hpush, hrest⟩ := hfold
      obtain ⟨hexpand, hnext⟩ := pushRun_spec hpush hpos
      obtain ⟨hruns, hall⟩ := ih next hnext hrest
      rw [hruns, hexpand, List.append_assoc]
      exact ⟨rfl, hall⟩
  exact hfold infos [] (by simp) h

theorem Encodes.expand (h : Encodes infos runs) : expand runs = infos := h.spec.1

theorem Encodes.nil_iff (h : Encodes infos runs) : runs = [] ↔ infos = [] := by
  obtain ⟨hexpand, hpos⟩ := h.spec
  constructor
  · intro hruns
    rw [← hexpand, hruns]
    rfl
  · intro hinfos
    cases runs with
    | nil => rfl
    | cons run runs =>
      have hcount := hpos run List.mem_cons_self
      rw [hinfos, Index.expand_cons, List.append_eq_nil_iff, List.replicate_eq_nil_iff] at hexpand
      omega

/-- The type of a column of graphemes with these sizes, the first of which starts at `startCol`. -/
def cellTypeOfInfos : List GraphemeInfo → Nat → Nat → CellType
  | [], _, _ => .regularChar
  | info :: infos, startCol, col =>
    if col < startCol + info.cellWidth then
      if info.cellWidth = 1 then .regularChar else if col = startCol then .wideChar else .wideCharSpacer
    else cellTypeOfInfos infos (startCol + info.cellWidth) col

variable {startCol col : Nat}

theorem cellTypeOfInfos_replicate (hwidth : info.cellWidth = 1 ∨ info.cellWidth = 2) (n : Nat)
    (rest : List GraphemeInfo) (hle : startCol ≤ col) :
    cellTypeOfInfos (List.replicate n info ++ rest) startCol col =
      if col < startCol + n * info.cellWidth then (GraphemeRun.mk n info).cellTypeAtOffset (col - startCol)
      else cellTypeOfInfos rest (startCol + n * info.cellWidth) col := by
  induction n generalizing startCol with
  | zero =>
    have hnot : ¬ col < startCol + 0 * info.cellWidth := by omega
    rw [if_neg hnot]
    simp
  | succ n ih =>
    have hmul : (n + 1) * info.cellWidth = info.cellWidth + n * info.cellWidth := by ring
    rw [List.replicate_succ, List.cons_append, cellTypeOfInfos, hmul, ← Nat.add_assoc]
    split
    next hin =>
      rw [if_pos (Nat.lt_of_lt_of_le hin (Nat.le_add_right _ _)), GraphemeRun.cellTypeAtOffset]
      split
      next => rfl
      next hwide =>
        have hparity : col = startCol ↔ (col - startCol) % 2 = 0 := by omega
        simp only [hparity]
    next hout =>
      rw [ih (Nat.not_lt.mp hout)]
      split
      next =>
        rw [GraphemeRun.cellTypeAtOffset, GraphemeRun.cellTypeAtOffset]
        split
        next => rfl
        next hwide =>
          have htwo := hwidth.resolve_left hwide
          have hparity : (col - (startCol + info.cellWidth)) % 2 = (col - startCol) % 2 := by omega
          rw [hparity]
      next => rfl

theorem cellTypeInRuns_eq (hnarrow : Narrow (expand runs))
    (hpos : ∀ run ∈ runs, 0 < run.count) (hle : startCol ≤ col) :
    Index.cellTypeInRuns runs startCol col = cellTypeOfInfos (expand runs) startCol col := by
  induction runs generalizing startCol with
  | nil => rfl
  | cons run runs ih =>
    have hmem : run.info ∈ expand (run :: runs) := by
      apply List.mem_append_left
      rw [List.mem_replicate]
      exact ⟨Nat.ne_of_gt (hpos run List.mem_cons_self), rfl⟩
    have hrest : Narrow (expand runs) := fun info hinfo => hnarrow info (List.mem_append_right _ hinfo)
    rw [Index.cellTypeInRuns, Index.expand_cons, cellTypeOfInfos_replicate (hnarrow _ hmem) _ _ hle]
    change (if col < startCol + run.cols then run.cellTypeAtOffset (col - startCol) else
      Index.cellTypeInRuns runs (startCol + run.cols) col) = if col < startCol + run.cols then
        run.cellTypeAtOffset (col - startCol) else cellTypeOfInfos (expand runs) (startCol + run.cols) col
    split
    next => rfl
    next hout => exact ih hrest (fun run hrun => hpos run (List.mem_cons_of_mem _ hrun)) (Nat.not_lt.mp hout)

end InfiniShell.Scrollback
