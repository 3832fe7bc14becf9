import InfiniShell.Crdt.ReplicatedList

namespace InfiniShell.Crdt

variable {T α : Type} [LinearOrder T]

def anchorOf (elements : List (Element T α)) : Option (Key T) := elements.getLast?.map Element.key

def keys (elements : List (Element T α)) : List (Key T) := elements.map Element.key

def seen (undone : T → Bool) (elements : List (Element T α)) : List α :=
  (elements.filter (Element.visible undone)).map Element.value

/-- What is left when only the insertions and deletions of these edits are kept. -/
def keep (p : T → Bool) (elements : List (Element T α)) : List (Element T α) :=
  (elements.filter fun e => p e.id).map fun e => { e with deletions := e.deletions.filter fun d => p d = true }

section Anchor

omit [LinearOrder T]

@[simp] theorem anchorOf_nil : anchorOf ([] : List (Element T α)) = none := rfl

@[simp] theorem anchorOf_concat (elements : List (Element T α)) (e : Element T α) :
    anchorOf (elements ++ [e]) = some e.key := by
  rw [anchorOf, List.getLast?_concat]
  rfl

variable {elements : List (Element T α)}

theorem anchorOf_mem {key : Key T} (h : anchorOf elements = some key) : key ∈ keys elements := by
  obtain ⟨e, he, rfl⟩ := Option.map_eq_some_iff.mp h
  exact List.mem_map_of_mem (List.mem_of_getLast? he)

theorem anchorOf_eq_none : anchorOf elements = none ↔ elements = [] := by
  rw [anchorOf, Option.map_eq_none_iff, List.getLast?_eq_none_iff]

@[simp] theorem keys_append (l r : List (Element T α)) : keys (l ++ r) = keys l ++ keys r := List.map_append

theorem anchorOf_append_of_ne_nil {l r : List (Element T α)} (h : r ≠ []) : anchorOf (l ++ r) = anchorOf r := by
  rw [anchorOf, anchorOf, List.getLast?_append_of_ne_nil _ h]

theorem eq_of_anchorOf {A B X Y : List (Element T α)} (heq : A ++ X = B ++ Y) (hnodup : (keys (A ++ X)).Nodup)
    (hanchor : anchorOf A = anchorOf B) : A = B ∧ X = Y := by
  have hlonger : ∀ {A C : List (Element T α)}, (keys (A ++ C)).Nodup → anchorOf A = anchorOf (A ++ C) → C = [] := by
    intro A C hnodup hanchor
    by_contra hne
    rw [anchorOf_append_of_ne_nil hne] at hanchor
    obtain ⟨key, hkey⟩ := Option.ne_none_iff_exists'.mp (mt anchorOf_eq_none.mp hne)
    rw [keys_append] at hnodup
    exact (List.nodup_append.mp hnodup).2.2 key (anchorOf_mem (hanchor.trans hkey)) key (anchorOf_mem hkey) rfl
  cases List.append_eq_append_iff.mp heq with
  | inl h =>
    obtain ⟨C, rfl, rfl⟩ := h
    rw [← List.append_assoc, keys_append] at hnodup
    have hnil := hlonger (List.nodup_append.mp hnodup).1 hanchor
    rw [hnil, List.append_nil]
    exact ⟨rfl, rfl⟩
  | inr h =>
    obtain ⟨C, rfl, rfl⟩ := h
    rw [keys_append] at hnodup
    have hnil := hlonger (List.nodup_append.mp hnodup).1 hanchor.symm
    rw [hnil, List.append_nil]
    exact ⟨rfl, rfl⟩

theorem exists_anchorOf {A X l : List (Element T α)} (h : (keys (A ++ X)).Sublist (keys l)) :
    ∃ B Y, l = B ++ Y ∧ anchorOf B = anchorOf A ∧ (keys X).Sublist (keys Y) := by
  cases hA : A.reverse with
  | nil =>
    rw [List.reverse_eq_nil_iff.mp hA] at h ⊢
    exact ⟨[], l, rfl, rfl, h⟩
  | cons a A' =>
    have hA : A = A'.reverse ++ [a] := by rw [← List.reverse_reverse A, hA, List.reverse_cons]
    rw [hA, List.append_assoc, keys_append] at h
    obtain ⟨r₁, r₂, hkeys, -, hrest⟩ := List.append_sublist_iff.mp h
    obtain ⟨s₁, s₂, rfl, hmem, hX⟩ := List.cons_sublist_iff.mp hrest
    obtain ⟨s, s', rfl⟩ := List.append_of_mem hmem
    have hkeys' : l.map Element.key = (r₁ ++ s) ++ a.key :: (s' ++ s₂) := by
      change keys l = _
      rw [hkeys]
      simp
    obtain ⟨B, Y, rfl, -, hY⟩ := List.map_eq_append_iff.mp hkeys'
    obtain ⟨b, Y, rfl, hb, hY⟩ := List.map_eq_cons_iff.mp hY
    refine ⟨B ++ [b], Y, by simp, ?_, ?_⟩
    · rw [hA, anchorOf_concat, anchorOf_concat, hb]
    · change (keys X).Sublist (Y.map Element.key)
      rw [hY]
      exact hX.trans (List.sublist_append_right s' s₂)

end Anchor

section KeepList

omit [LinearOrder T]

variable {p : T → Bool}

end KeepList

section Read

variable {undone undone' : T → Bool}

omit [LinearOrder T] in
@[simp] theorem seen_append (l r : List (Element T α)) : seen undone (l ++ r) = seen undone l ++ seen undone r := by
  simp [seen]

omit [LinearOrder T] in
theorem visible_congr {e : Element T α} (hid : undone e.id = undone' e.id)
    (hdeletions : ∀ d ∈ e.deletions, undone d = undone' d) : e.visible undone = e.visible undone' := by
  have hall : (∀ d ∈ e.deletions, undone d = true) ↔ ∀ d ∈ e.deletions, undone' d = true :=
    forall₂_congr fun d hd => by rw [hdeletions d hd]
  simp only [Element.visible, hid, hall]

omit [LinearOrder T] in
theorem seen_congr {elements : List (Element T α)}
    (h : ∀ e ∈ elements, undone e.id = undone' e.id ∧ ∀ d ∈ e.deletions, undone d = undone' d) :
    seen undone elements = seen undone' elements := by
  rw [seen, seen, List.filter_congr fun e he => visible_congr (h e he).1 (h e he).2]

end Read

section Keep

variable {p : T → Bool}

end Keep

namespace Replacement

variable {r : Replacement T α}

theorem keys_markFrom (phase : Phase) (elements : List (Element T α)) :
    keys (r.markFrom phase elements) = keys elements := by
  induction elements generalizing phase with
  | nil => rfl
  | cons e elements ih =>
    change (r.markIf phase e).key :: keys (r.markFrom _ elements) = e.key :: keys elements
    rw [ih, markIf_key]

theorem keys_place_sublist (ts : T) (run elements : List (Element T α)) :
    (keys elements).Sublist (keys (place ts run elements)) := by
  induction elements with
  | nil => exact List.nil_sublist _
  | cons e elements ih =>
    rw [place]
    split
    next =>
      rw [keys_append]
      exact List.sublist_append_right _ _
    next => exact ih.cons_cons e.key

theorem keys_insertAfter_sublist (ts : T) (run : List (Element T α)) (anchor : Option (Key T))
    (elements : List (Element T α)) : (keys elements).Sublist (keys (insertAfter ts run anchor elements)) := by
  cases anchor with
  | none =>
    rw [insertAfter_none]
    exact keys_place_sublist ts run elements
  | some anchor =>
    induction elements with
    | nil => exact List.nil_sublist _
    | cons e elements ih =>
      rw [insertAfter]
      split
      next => exact (keys_place_sublist ts run elements).cons_cons e.key
      next => exact ih.cons_cons e.key

theorem keys_apply_sublist (r : Replacement T α) (elements : List (Element T α)) :
    (keys elements).Sublist (keys (r.apply elements)) := by
  have h := keys_insertAfter_sublist r.ts r.run r.start (r.markFrom r.firstPhase elements)
  rwa [keys_markFrom] at h

theorem insertAfter_eq (ts : T) (run : List (Element T α)) (anchor : Option (Key T)) (elements : List (Element T α)) :
    insertAfter ts run anchor elements = elements ∨
      ∃ l r, elements = l ++ r ∧ insertAfter ts run anchor elements = l ++ (run ++ r) := by
  have hplace : ∀ elements, ∃ l r, elements = l ++ r ∧ place ts run elements = l ++ (run ++ r) := by
    intro elements
    induction elements with
    | nil => exact ⟨[], [], rfl, (List.append_nil run).symm⟩
    | cons e elements ih =>
      rw [place]
      split
      next => exact ⟨[], e :: elements, rfl, rfl⟩
      next =>
        obtain ⟨l, r, heq, hplaced⟩ := ih
        exact ⟨e :: l, r, congrArg (e :: ·) heq, congrArg (e :: ·) hplaced⟩
  cases anchor with
  | none =>
    rw [insertAfter_none]
    exact .inr (hplace elements)
  | some anchor =>
    induction elements with
    | nil => exact .inl rfl
    | cons e elements ih =>
      rw [insertAfter]
      split
      next =>
        obtain ⟨l, r, heq, hplaced⟩ := hplace elements
        exact .inr ⟨e :: l, r, congrArg (e :: ·) heq, congrArg (e :: ·) hplaced⟩
      next =>
        cases ih with
        | inl hsame => exact .inl (congrArg (e :: ·) hsame)
        | inr hinserted =>
          obtain ⟨l, r, heq, hinserted⟩ := hinserted
          exact .inr ⟨e :: l, r, congrArg (e :: ·) heq, congrArg (e :: ·) hinserted⟩

theorem keys_apply_perm (r : Replacement T α) (elements : List (Element T α)) :
    keys (r.apply elements) = keys elements ∨ (keys (r.apply elements)).Perm (keys r.run ++ keys elements) := by
  rw [← keys_markFrom (r := r) r.firstPhase elements, apply]
  cases insertAfter_eq r.ts r.run r.start (r.markFrom r.firstPhase elements) with
  | inl hsame => exact .inl (congrArg keys hsame)
  | inr hinserted =>
    obtain ⟨l, m, heq, hinserted⟩ := hinserted
    right
    rw [hinserted, heq, keys_append, keys_append, keys_append, ← List.append_assoc, ← List.append_assoc]
    exact List.perm_append_comm.append_right _

variable {elements : List (Element T α)}

theorem mem_keys_apply {key : Key T} (h : key ∈ keys (r.apply elements)) :
    key ∈ keys elements ∨ key.1 = r.ts := by
  cases r.keys_apply_perm elements with
  | inl hsame => exact .inl (hsame ▸ h)
  | inr hperm =>
    cases List.mem_append.mp (hperm.mem_iff.mp h) with
    | inl hrun =>
      obtain ⟨e, he, rfl⟩ := List.mem_map.mp hrun
      exact .inr (r.run_id e he)
    | inr hmem => exact .inl hmem

theorem nodup_keys_apply (h : (keys elements).Nodup) (hrun : (keys r.run).Nodup)
    (hnew : ∀ key ∈ keys elements, key.1 ≠ r.ts) : (keys (r.apply elements)).Nodup := by
  cases r.keys_apply_perm elements with
  | inl hsame => rwa [hsame]
  | inr hperm =>
    rw [hperm.nodup_iff]
    refine List.nodup_append.mpr ⟨hrun, h, ?_⟩
    intro key hkey key' hkey' heq
    obtain ⟨e, he, rfl⟩ := List.mem_map.mp hkey
    exact hnew key' hkey' (heq ▸ r.run_id e he)

theorem place_nil (ts : T) (elements : List (Element T α)) : place ts [] elements = elements := by
  induction elements with
  | nil => rfl
  | cons e elements ih =>
    rw [place, ih, List.nil_append]
    exact ite_self _

section Split

variable {A M R : List (Element T α)} {l : List (Element T α)}

theorem markFrom_before (hstart : ∀ key ∈ keys l, some key ≠ r.start) (elements : List (Element T α)) :
    r.markFrom .before (l ++ elements) = l ++ r.markFrom .before elements := by
  induction l with
  | nil => rfl
  | cons e l ih =>
    have hnext : r.nextPhase .before e.key = .before := if_neg (hstart e.key List.mem_cons_self)
    have hmark : r.markIf .before e = e := if_neg fun h => absurd h.1 (by decide)
    rw [List.cons_append, markFrom, hnext, hmark, ih fun key hkey => hstart key (List.mem_cons_of_mem _ hkey),
      List.cons_append]

theorem markFrom_within (hstop : ∀ key ∈ keys l, some key ≠ r.stop) (elements : List (Element T α)) :
    r.markFrom .within (l ++ elements) = l.map (r.markIf .within) ++ r.markFrom .within elements := by
  induction l with
  | nil => rfl
  | cons e l ih =>
    have hnext : r.nextPhase .within e.key = .within := if_neg (hstop e.key List.mem_cons_self)
    rw [List.cons_append, markFrom, hnext, ih fun key hkey => hstop key (List.mem_cons_of_mem _ hkey), List.map_cons,
      List.cons_append]

theorem markFrom_after (elements : List (Element T α)) : r.markFrom .after elements = elements := by
  induction elements with
  | nil => rfl
  | cons e elements ih =>
    have hmark : r.markIf .after e = e := if_neg fun h => absurd h.1 (by decide)
    rw [markFrom, hmark]
    exact congrArg (e :: ·) ih

theorem markFrom_covered (hnodup : (keys M).Nodup) (hstop : M ≠ [] → r.stop = anchorOf M) :
    r.markFrom (if M = [] then .after else .within) (M ++ R) = M.map (r.markIf .within) ++ R := by
  cases hM : M.reverse with
  | nil =>
    rw [List.reverse_eq_nil_iff.mp hM, if_pos rfl, List.nil_append, markFrom_after]
    rfl
  | cons m M' =>
    have hM : M = M'.reverse ++ [m] := by rw [← List.reverse_reverse M, hM, List.reverse_cons]
    have hne : M ≠ [] := by rw [hM]; exact List.append_ne_nil_of_right_ne_nil _ (List.cons_ne_nil m [])
    have hkey : r.stop = some m.key := by rw [hstop hne, hM, anchorOf_concat]
    have hfresh : ∀ key ∈ keys M'.reverse, some key ≠ r.stop := by
      intro key hmem heq
      rw [hkey] at heq
      rw [hM, keys_append] at hnodup
      exact (List.nodup_append.mp hnodup).2.2 key hmem m.key (List.mem_singleton.mpr rfl) (Option.some.inj heq)
    have hnext : r.nextPhase .within m.key = .after := if_pos hkey.symm
    rw [if_neg hne, hM, List.append_assoc, markFrom_within hfresh, List.map_append, List.append_assoc]
    rw [List.singleton_append, markFrom, hnext, markFrom_after]
    rfl

theorem nextPhase_start {key : Key T} (hstart : r.start = some key) :
    r.nextPhase .before key = if r.stop = r.start then .after else .within := if_pos hstart.symm

theorem markFrom_split (hnodup : (keys (A ++ M ++ R)).Nodup) (hstart : r.start = anchorOf A)
    (hstop : r.stop = anchorOf (A ++ M)) :
    r.markFrom r.firstPhase (A ++ M ++ R) = A ++ (M.map (r.markIf .within) ++ R) := by
  have hnodupM : (keys M).Nodup := by
    rw [keys_append, keys_append] at hnodup
    exact (List.nodup_append.mp (List.nodup_append.mp hnodup).1).2.1
  have hstopM : M ≠ [] → r.stop = anchorOf M := by
    intro hne
    rw [hstop, anchorOf, anchorOf, List.getLast?_append_of_ne_nil _ hne]
  have heq : r.stop = r.start ↔ M = [] := by
    constructor
    · intro heq
      by_contra hne
      rw [hstopM hne, hstart] at heq
      obtain ⟨key, hkey⟩ := Option.ne_none_iff_exists'.mp (mt anchorOf_eq_none.mp hne)
      have hA := anchorOf_mem (heq ▸ hkey)
      rw [keys_append, keys_append] at hnodup
      exact (List.nodup_append.mp (List.nodup_append.mp hnodup).1).2.2 key hA key (anchorOf_mem hkey) rfl
    · intro hM
      rw [hstop, hstart, hM, List.append_nil]
  rw [List.append_assoc]
  cases hA : A.reverse with
  | nil =>
    have hA : A = [] := List.reverse_eq_nil_iff.mp hA
    have hphase : r.firstPhase = if M = [] then .after else .within := by
      rw [hA, anchorOf_nil] at hstart
      rw [hstart] at heq
      simp only [firstPhase, hstart, heq, if_true]
    rw [hA, hphase, List.nil_append, List.nil_append, markFrom_covered hnodupM hstopM]
  | cons a A' =>
    have hA : A = A'.reverse ++ [a] := by rw [← List.reverse_reverse A, hA, List.reverse_cons]
    have hkey : r.start = some a.key := by rw [hstart, hA, anchorOf_concat]
    have hfresh : ∀ key ∈ keys A'.reverse, some key ≠ r.start := by
      intro key hmem hkey'
      rw [hkey] at hkey'
      rw [hA, List.append_assoc, List.append_assoc, keys_append] at hnodup
      exact (List.nodup_append.mp hnodup).2.2 key hmem a.key List.mem_cons_self (Option.some.inj hkey')
    have hphase : r.firstPhase = .before := by
      rw [firstPhase, hkey]
      exact if_neg (Option.some_ne_none a.key)
    have hmark : r.markIf .before a = a := if_neg fun h => absurd h.1 (by decide)
    rw [hphase, hA, List.append_assoc, markFrom_before hfresh, List.singleton_append, markFrom, hmark,
      nextPhase_start hkey]
    simp only [heq]
    rw [markFrom_covered hnodupM hstopM, List.append_assoc, List.singleton_append]

theorem insertAfter_split {ts : T} {run : List (Element T α)} (hnodup : (keys A).Nodup) (elements : List (Element T α)) :
    insertAfter ts run (anchorOf A) (A ++ elements) = A ++ place ts run elements := by
  cases hA : A.reverse with
  | nil => rw [List.reverse_eq_nil_iff.mp hA, anchorOf_nil, insertAfter_none, List.nil_append, List.nil_append]
  | cons a A' =>
    have hA : A = A'.reverse ++ [a] := by rw [← List.reverse_reverse A, hA, List.reverse_cons]
    rw [hA, anchorOf_concat]
    rw [hA, keys_append] at hnodup
    generalize A'.reverse = l at *
    clear hA
    induction l with
    | nil => exact if_pos rfl
    | cons e l ih =>
      obtain ⟨hmem, hnodup⟩ := List.nodup_cons.mp hnodup
      have hne : e.key ≠ a.key := fun heq =>
        hmem (List.mem_append_right _ (heq ▸ List.mem_singleton.mpr rfl))
      rw [List.cons_append, List.cons_append, insertAfter, if_neg hne, ih hnodup, List.cons_append]

theorem apply_split (hnodup : (keys (A ++ M ++ R)).Nodup) (hstart : r.start = anchorOf A)
    (hstop : r.stop = anchorOf (A ++ M)) :
    r.apply (A ++ M ++ R) = A ++ place r.ts r.run (M.map (r.markIf .within) ++ R) := by
  have hnodupA : (keys A).Nodup := by
    rw [keys_append, keys_append] at hnodup
    exact (List.nodup_append.mp (List.nodup_append.mp hnodup).1).1
  rw [apply, markFrom_split hnodup hstart hstop, hstart, insertAfter_split hnodupA]

end Split

end Replacement

end InfiniShell.Crdt
