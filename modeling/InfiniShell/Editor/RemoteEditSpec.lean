import InfiniShell.Editor.Operations
import InfiniShell.Editor.Cuts

namespace InfiniShell.Editor

open Collections Collections.ListCursor Crdt

/-- The fragments that are done and those ahead, with the split trees that list them all. -/
structure Coheres (undoHistory : UndoHistory) (new ahead : List Fragment) (splits : InsertionSplits) : Prop where
  wellFormed : WellFormed (new ++ ahead) undoHistory
  headed : Headed (new ++ ahead)
  listed : Listed (new ++ ahead) splits
  started : new ≠ []

def EndsWith (new : List Fragment) (prev : Fragment) : Prop := ∃ last, new.getLast? = some last ∧ last.id = prev.id

namespace Coheres

variable {undoHistory : UndoHistory} {new ahead rest : List Fragment} {splits : InsertionSplits} {f prev last : Fragment}

section

variable (h : Coheres undoHistory new ahead splits)
include h

theorem lt (hf : f ∈ ahead) : f.startCharacterOffset < f.endCharacterOffset :=
  h.headed.lt h.started hf

theorem ends_le (hf : f ∈ ahead) :
    f.endCharacterOffset ≤ f.insertion.text.length := h.wellFormed.ends_le (List.mem_append_right new hf)

theorem ne_nil (hf : f ∈ ahead) : f.elements ≠ [] := by
  intro hnil
  have hlength := congrArg List.length (Fragment.keys_elements (h.ends_le hf))
  have hlt := h.lt hf
  rw [hnil, List.length_map, List.length_range', Fragment.len] at hlength
  change 0 = _ at hlength
  omega

end

theorem push (h : Coheres undoHistory new (f :: rest) splits) : Coheres undoHistory (new ++ [f]) rest splits := by
  have heq : new ++ [f] ++ rest = new ++ f :: rest := by simp
  exact ⟨heq ▸ h.wellFormed, heq ▸ h.headed, heq ▸ h.listed, by simp⟩

theorem pushAll {l : List Fragment} (h : Coheres undoHistory new (l ++ rest) splits) :
    Coheres undoHistory (new ++ l) rest splits := by
  have heq : new ++ l ++ rest = new ++ (l ++ rest) := List.append_assoc ..
  exact ⟨heq ▸ h.wellFormed, heq ▸ h.headed, heq ▸ h.listed, List.append_ne_nil_of_left_ne_nil h.started l⟩

variable {ts : Lamport}

theorem mark (h : Coheres undoHistory new (f :: rest) splits) (hts : undoHistory.undosOf ts = ∅) :
    Coheres undoHistory new (f.markDeletion ts undoHistory :: rest) splits :=
  ⟨h.wellFormed.mark hts, h.headed.mark h.started, h.listed.congr rfl rfl, h.started⟩

theorem insert {text : List Char} (style : Option TextStyle)
    (h : Coheres undoHistory new ahead splits) (hprev : EndsWith new prev) (hnew : ofInsertion ts (new ++ ahead) = [])
    (hts : undoHistory.undosOf ts = ∅) (htext : text ≠ []) :
    ∃ f splits', buildFragmentToInsert prev ahead.head? text style ts splits = some (f, splits') ∧
      f.elements = runFrom ts 0 text ∧ Coheres undoHistory (new ++ [f]) ahead splits' := by
  obtain ⟨last, hlast, hid⟩ := hprev
  have hbetween := h.wellFormed.between_eq hlast
  have hbuild : buildFragmentToInsert prev ahead.head? text style ts splits =
      some (Fragment.new (FragmentId.mid last.id (nextId ahead)) ⟨ts, text, style⟩,
        splits.insert ts [⟨text.length, FragmentId.mid last.id (nextId ahead)⟩]) := by
    rw [buildFragmentToInsert, ← hid]
    change (FragmentId.between last.id (nextId ahead)).map _ = _
    rw [hbetween, Option.map_some]
  refine ⟨_, _, hbuild, Fragment.elements_new _ _, ?_⟩
  apply push
  exact ⟨h.wellFormed.insert hlast hnew hts, h.headed.insert h.started htext,
    h.listed.insert (f := Fragment.new (FragmentId.mid last.id (nextId ahead)) ⟨ts, text, style⟩) hnew, h.started⟩

end Coheres

section Parts

variable {undoHistory : UndoHistory} {new rest : List Fragment} {splits : InsertionSplits} {f prev last : Fragment}
variable {offset : Nat} {range : Range}

def SplitParts.fragments (parts : SplitParts) : List Fragment :=
  parts.beforeRange.toList ++ parts.withinRange.toList ++ parts.afterRange.toList

theorem Listed.replace {parts : List Fragment} (h : Listed (new ++ f :: rest) splits) (hne : parts ≠ [])
    (hparts : ∀ part ∈ parts, part.insertion.id = f.insertion.id) :
    Listed (new ++ (parts ++ rest)) (splits.insert f.insertion.id ((ofInsertion f.insertion.id new).map Fragment.split ++
      parts.map Fragment.split ++ (ofInsertion f.insertion.id rest).map Fragment.split)) := by
  have hself : ofInsertion f.insertion.id parts = parts := by
    rw [ofInsertion, List.filter_eq_self]
    exact fun part hpart => decide_eq_true (hparts part hpart)
  intro other
  rw [BTreeMap.get_insert]
  split
  next heq =>
    rw [heq, listing, ofInsertion_append, ofInsertion_append, hself, if_neg]
    · rw [List.map_append, List.map_append, List.append_assoc]
    · exact List.append_ne_nil_of_right_ne_nil _ (List.append_ne_nil_of_left_ne_nil hne _)
  next hne' =>
    have hnone : ofInsertion other parts = [] := by
      rw [ofInsertion_eq_nil]
      intro part hpart heq
      exact hne' (heq.symm.trans (hparts part hpart))
    rw [h other, listing_of_ne (Ne.symm hne'), listing, listing, ofInsertion_append, ofInsertion_append,
      ofInsertion_append, hnone, List.nil_append]

theorem cutFragment_eq (hend : f.endCharacterOffset ≤ f.insertion.text.length)
    (hle : f.startCharacterOffset ≤ offset) (hle' : offset ≤ f.endCharacterOffset) (hprev : prev.id = last.id)
    (hid : FragmentId.between last.id f.id = some (FragmentId.mid last.id f.id)) :
    cutFragment prev f offset = some (f.prefixTo last offset, f.suffixFrom offset) := by
  have hcut : f.setEndCharacterOffset offset = _ :=
    Fragment.setEndCharacterOffset_eq (hle.trans (hle'.trans hend)) (hle'.trans hend)
  rw [cutFragment, Fragment.setStartOffset_eq hend hle', hcut, hprev]
  change (FragmentId.between last.id f.id).map _ = _
  rw [hid]
  rfl

/-- The characters of the fragment's insertion between two offsets, as they are in the fragment. -/
def Fragment.elementsBetween (f : Fragment) (start stop : Nat) : Elements :=
  ({ f with startCharacterOffset := start, endCharacterOffset := stop } : Fragment).elements

theorem Fragment.elementsBetween_append {start mid stop : Nat} (hle : start ≤ mid) (hle' : mid ≤ stop)
    (hstop : stop ≤ f.insertion.text.length) :
    f.elementsBetween start mid ++ f.elementsBetween mid stop = f.elementsBetween start stop := by
  apply Fragment.elements_cut
  · exact ⟨rfl, rfl, rfl, rfl⟩
  · exact ⟨rfl, rfl, rfl, rfl⟩
  · rfl
  · rfl
  · rfl
  · exact hle
  · exact hle'
  · exact hstop

theorem Fragment.elementsBetween_self (f : Fragment) (start : Nat) : f.elementsBetween start start = [] :=
  Fragment.elements_eq_nil (Nat.le_refl start)

theorem Fragment.elementsBetween_ends (f : Fragment) :
    f.elementsBetween f.startCharacterOffset f.endCharacterOffset = f.elements := rfl

structure SplitOf (undoHistory : UndoHistory) (new rest : List Fragment) (f : Fragment) (range : Range)
    (parts : SplitParts) : Prop where
  before : elements parts.beforeRange.toList = f.elementsBetween f.startCharacterOffset range.start
  within : elements parts.withinRange.toList = f.elementsBetween range.start range.stop
  after : elements parts.afterRange.toList = f.elementsBetween range.stop f.endCharacterOffset
  nonempty : parts.withinRange.isSome ∨ parts.afterRange.isSome
  endsWith : EndsWith parts.fragments f
  insertionId : ∀ part ∈ parts.fragments, part.insertion.id = f.insertion.id
  splits : parts.splits range = parts.fragments.map Fragment.split
  wellFormed : WellFormed (new ++ (parts.fragments ++ rest)) undoHistory
  headed : Headed (new ++ (parts.fragments ++ rest))

theorem elements_toList (g : Fragment) : elements (some g).toList = g.elements := List.append_nil _

variable {g : Fragment}

theorem cutWithin_spec (hwell : WellFormed (new ++ g :: rest) undoHistory)
    (hhead : Headed (new ++ g :: rest)) (hlast : new.getLast? = some last) (hprev : prev.id = last.id)
    (hle : g.startCharacterOffset ≤ offset) (hlt : offset < g.endCharacterOffset) :
    ∃ pre, cutFragment prev g offset = some (pre, g.suffixFrom offset) ∧ pre.insertion = g.insertion ∧
      pre.startCharacterOffset = g.startCharacterOffset ∧
      pre.elements = g.elementsBetween g.startCharacterOffset offset ∧ pre.split = ⟨offset - pre.startCharacterOffset, pre.id⟩ ∧
      (if offset > g.startCharacterOffset then
        WellFormed (new ++ pre :: g.suffixFrom offset :: rest) undoHistory ∧
          Headed (new ++ pre :: g.suffixFrom offset :: rest)
      else g.suffixFrom offset = g) := by
  have hend := hwell.end_le
  refine ⟨g.prefixTo last offset, cutFragment_eq hend hle hlt.le hprev (hwell.between_eq hlast), rfl, rfl, rfl, rfl, ?_⟩
  split
  next hgt =>
    have hne : new ≠ [] := by
      intro hnil
      rw [hnil] at hlast
      exact absurd hlast.symm (Option.some_ne_none last)
    exact ⟨hwell.cutAt hlast hle hlt.le, hhead.cutAt hne hgt hlt⟩
  next hgt =>
    have heq : offset = g.startCharacterOffset := by omega
    rw [heq]
    rfl

structure CutBehind (undoHistory : UndoHistory) (new rest : List Fragment) (f : Fragment) (range : Range)
    (g : Fragment) (after : Option Fragment) : Prop where
  partOf : PartOf g f
  start : g.startCharacterOffset = f.startCharacterOffset
  stop : g.endCharacterOffset = range.stop
  elements : elements after.toList = f.elementsBetween range.stop f.endCharacterOffset
  nonempty : range.start < range.stop ∨ after.isSome
  endsWith : EndsWith (g :: after.toList) f
  insertionId : ∀ part ∈ after, part.insertion.id = f.insertion.id
  splits : (after.map fun part => (⟨part.endCharacterOffset - range.stop, part.id⟩ : InsertionSplit)) =
    after.map Fragment.split
  wellFormed : WellFormed (new ++ g :: (after.toList ++ rest)) undoHistory
  headed : Headed (new ++ g :: (after.toList ++ rest))

theorem cutBehind_spec (h : Coheres undoHistory new (f :: rest) splits) (hlast : new.getLast? = some last)
    (hprev : prev.id = last.id) (hstop : range.stop ≤ f.endCharacterOffset) (hlt : f.startCharacterOffset < range.stop)
    (hlt' : range.start < f.endCharacterOffset) :
    ∃ g after, cutFragmentIf (range.stop < f.endCharacterOffset) prev f range.stop = some (g, after) ∧
      CutBehind undoHistory new rest f range g after := by
  have hend := h.ends_le List.mem_cons_self
  by_cases hbehind : range.stop < f.endCharacterOffset
  · refine ⟨f.prefixTo last range.stop, some (f.suffixFrom range.stop), ?_, ?_⟩
    · rw [cutFragmentIf, if_pos (decide_eq_true hbehind),
        cutFragment_eq hend hlt.le hstop hprev (h.wellFormed.between_eq hlast)]
      rfl
    · constructor
      · exact Fragment.partOf_prefixTo f last _
      · rfl
      · rfl
      · exact elements_toList _
      · exact .inr rfl
      · exact ⟨f.suffixFrom range.stop, rfl, rfl⟩
      · intro part hpart
        rw [← Option.some.inj hpart]
        rfl
      · rfl
      · exact h.wellFormed.cutAt hlast hlt.le hstop
      · exact h.headed.cutAt h.started hlt hbehind
  · have heq : range.stop = f.endCharacterOffset := by omega
    refine ⟨f, none, ?_, ⟨rfl, rfl, rfl, rfl⟩, rfl, heq.symm, ?_, .inl (by omega), ⟨f, rfl, rfl⟩,
      fun part hpart => absurd hpart.symm (Option.some_ne_none part), rfl,
      h.wellFormed, h.headed⟩
    · rw [cutFragmentIf, if_neg (by simpa using hbehind)]
    · rw [heq, Fragment.elementsBetween_self]
      rfl

theorem CutBehind.splitOf {after : Option Fragment}
    (h : CutBehind undoHistory new rest f range g after) (hlast : new.getLast? = some last) (hprev : prev.id = last.id)
    (hstart : f.startCharacterOffset ≤ range.start) (hle : range.start ≤ range.stop)
    (hlt : f.startCharacterOffset < range.stop) :
    ∃ cut, cutFragmentIf (range.start ≠ range.stop) prev g range.start = some cut ∧
      SplitOf undoHistory new rest f range
        { afterRange := after
          withinRange := cut.2
          beforeRange := if range.start > f.startCharacterOffset then some cut.1 else none } := by
  have hbetween : ∀ start stop, g.elementsBetween start stop = f.elementsBetween start stop := fun start stop => by
    rw [Fragment.elementsBetween, Fragment.elementsBetween, Fragment.elements, Fragment.elements, Fragment.text,
      Fragment.text, h.partOf.insertion, h.partOf.deletions]
    rfl
  have hg : g.elements = f.elementsBetween f.startCharacterOffset range.stop := by
    rw [← hbetween, ← h.start, ← h.stop]
    rfl
  have hgid : g.insertion.id = f.insertion.id := by rw [h.partOf.insertion]
  by_cases hempty : range.start = range.stop
  · have hgt : range.start > f.startCharacterOffset := by omega
    refine ⟨(g, none), by rw [cutFragmentIf, if_neg (by simpa using hempty)], ?_⟩
    rw [if_pos hgt]
    refine ⟨?_, ?_, h.elements, .inr (h.nonempty.resolve_left (by omega)), h.endsWith, ?_, ?_, h.wellFormed, h.headed⟩
    · rw [elements_toList, hg, hempty]
    · rw [hempty, Fragment.elementsBetween_self]
      rfl
    · simpa [SplitParts.fragments, hgid] using h.insertionId
    · have hsplits := congrArg Option.toList h.splits
      rw [Option.toList_map, Option.toList_map] at hsplits
      simp only [SplitParts.splits, SplitParts.fragments, Option.map_some, Option.toList_some, Option.map_none,
        Option.toList_none, List.append_nil, List.map_append, List.map_cons, List.map_nil, Option.toList_map, hsplits]
      simp [Fragment.split, Fragment.len, h.stop, hempty]
  · obtain ⟨pre, hcut, hinsertion, hprestart, helements, hsplit, hcases⟩ := cutWithin_spec h.wellFormed
      h.headed hlast (show prev.id = last.id from hprev) (h.start.le.trans hstart) (show range.start < g.endCharacterOffset by rw [h.stop]; omega)
    have hcutIf : cutFragmentIf (decide (range.start ≠ range.stop)) prev g range.start =
        some (pre, some (g.suffixFrom range.start)) := by
      rw [cutFragmentIf, if_pos (decide_eq_true hempty), hcut]
      rfl
    refine ⟨(pre, some (g.suffixFrom range.start)), hcutIf, ?_⟩
    have hsuffix : (g.suffixFrom range.start).elements = f.elementsBetween range.start range.stop := by
      rw [← hbetween, ← h.stop]
      rfl
    have hsplits := congrArg Option.toList h.splits
    rw [Option.toList_map, Option.toList_map] at hsplits
    obtain ⟨last', hlast', hid'⟩ := h.endsWith
    rw [h.start] at hcases
    by_cases hgt : range.start > f.startCharacterOffset
    · rw [if_pos hgt] at hcases
      rw [if_pos hgt]
      refine ⟨?_, ?_, h.elements, .inl rfl, ?_, ?_, ?_, hcases.1, hcases.2⟩
      · rw [elements_toList, helements, hbetween, h.start]
      · rw [elements_toList, hsuffix]
      · cases after with
        | none =>
          have hg' : g = last' := Option.some.inj hlast'
          exact ⟨g.suffixFrom range.start, rfl, (congrArg Fragment.id hg').trans hid'⟩
        | some part => exact ⟨last', hlast', hid'⟩
      · simpa [SplitParts.fragments, hgid, hinsertion, Fragment.suffixFrom] using h.insertionId
      · simp only [SplitParts.splits, SplitParts.fragments, Option.map_some, Option.toList_some, List.map_append,
          List.map_cons, List.map_nil, Option.toList_map, hsplits, hsplit]
        simp [Fragment.split, Fragment.len, h.stop, Fragment.suffixFrom]
    · rw [if_neg hgt] at hcases
      rw [if_neg hgt, hcases]
      have heq : range.start = f.startCharacterOffset := by omega
      refine ⟨?_, ?_, h.elements, .inl rfl, h.endsWith, ?_, ?_, h.wellFormed, h.headed⟩
      · rw [heq, Fragment.elementsBetween_self]
        rfl
      · rw [elements_toList, hg, heq]
      · simpa [SplitParts.fragments, hgid] using h.insertionId
      · simp only [SplitParts.splits, SplitParts.fragments, Option.map_some, Option.toList_some, Option.map_none,
          Option.toList_none, List.nil_append, List.map_append, List.map_cons, List.map_nil, Option.toList_map, hsplits]
        simp [Fragment.split, Fragment.len, h.start, h.stop, heq]

theorem splitParts_spec (h : Coheres undoHistory new (f :: rest) splits) (hprev : EndsWith new prev)
    (hstart : f.startCharacterOffset ≤ range.start) (hle : range.start ≤ range.stop)
    (hstop : range.stop ≤ f.endCharacterOffset) (hlt : f.startCharacterOffset < range.stop)
    (hlt' : range.start < f.endCharacterOffset) :
    ∃ parts, splitParts prev f range = some parts ∧ SplitOf undoHistory new rest f range parts := by
  obtain ⟨last, hlast, hid⟩ := hprev
  obtain ⟨g, after, hcut, hbehind⟩ := cutBehind_spec h hlast hid.symm hstop hlt hlt'
  obtain ⟨cut, hcut', hparts⟩ := hbehind.splitOf hlast hid.symm hstart hle hlt
  refine ⟨_, ?_, hparts⟩
  rw [splitParts, hcut, Option.bind_some, hcut', Option.map_some]

theorem splitFragment_spec (h : Coheres undoHistory new (f :: rest) splits) (hprev : EndsWith new prev)
    (hstart : f.startCharacterOffset ≤ range.start) (hle : range.start ≤ range.stop)
    (hstop : range.stop ≤ f.endCharacterOffset) (hlt : f.startCharacterOffset < range.stop)
    (hlt' : range.start < f.endCharacterOffset) :
    ∃ parts splits', splitFragment prev f range splits = some (parts, splits') ∧
      SplitOf undoHistory new rest f range parts ∧ Coheres undoHistory new (parts.fragments ++ rest) splits' := by
  rw [splitFragment, if_neg hlt.ne', if_neg hlt'.ne]
  by_cases hwhole : range.start = f.startCharacterOffset ∧ range.stop = f.endCharacterOffset
  · refine ⟨⟨none, some f, none⟩, splits, if_pos hwhole, ?_, h⟩
    refine ⟨?_, ?_, ?_, .inl rfl, ⟨f, rfl, rfl⟩, ?_, ?_, h.wellFormed, h.headed⟩
    · rw [hwhole.1, Fragment.elementsBetween_self]
      rfl
    · rw [elements_toList, hwhole.1, hwhole.2]
      rfl
    · rw [hwhole.2, Fragment.elementsBetween_self]
      rfl
    · simp [SplitParts.fragments]
    · simp [SplitParts.splits, SplitParts.fragments, Fragment.split, Fragment.len, hwhole.1, hwhole.2]
  · obtain ⟨parts, hparts, hsplit⟩ := splitParts_spec h hprev hstart hle hstop hlt hlt'
    obtain ⟨oldSplitTree, hget, -⟩ := SplitScan.start h.listed h.wellFormed (h.lt List.mem_cons_self)
    have hold : oldSplitTree = (ofInsertion f.insertion.id (new ++ f :: rest)).map Fragment.split := by
      have hlisted := h.listed f.insertion.id
      rw [hget, listing, if_neg] at hlisted
      · exact Option.some.inj hlisted
      · rw [ofInsertion_append, ofInsertion_cons_of_eq rfl]
        exact List.append_ne_nil_of_right_ne_nil _ (List.cons_ne_nil _ _)
    have hne : parts.fragments ≠ [] := by
      obtain ⟨last, hlast, -⟩ := hsplit.endsWith
      intro hnil
      rw [hnil] at hlast
      exact absurd hlast.symm (Option.some_ne_none last)
    rw [if_neg hwhole, hparts, Option.bind_some, hget, Option.map_some, hold,
      splitsAround_eq h.wellFormed (h.lt List.mem_cons_self), hsplit.splits]
    exact ⟨parts, _, rfl, hsplit, hsplit.wellFormed, hsplit.headed, h.listed.replace hne hsplit.insertionId, h.started⟩

end Parts

section Loop

variable {op : EditOperation} {undoHistory : UndoHistory} {startFragmentId endFragmentId : FragmentId}
variable {f prev : Fragment} {rest : List Fragment} {s : ApplyScan}

def Pending (op : EditOperation) (undoHistory : UndoHistory) (s : ApplyScan) (ahead : List Fragment) : Prop :=
  undoHistory.undosOf op.lamportTimestamp = ∅ ∧
    ∀ text ∈ s.newText, text = op.newText ∧ text ≠ [] ∧ ofInsertion op.lamportTimestamp (s.newFragments ++ ahead) = []

/-- The run that the text still to be inserted brings. -/
def ApplyScan.run (op : EditOperation) (s : ApplyScan) : Elements :=
  match s.newText with
  | none => []
  | some text => runFrom op.lamportTimestamp 0 text

theorem markObserved_elements (op : EditOperation) (undoHistory : UndoHistory) (f : Fragment) :
    (markObserved op undoHistory f).elements = f.elements.map (op.replacement.markIf .within) := by
  have hid : ∀ e ∈ f.elements, e.id = f.insertion.id := fun e he => (Fragment.mem_elements he).1
  rw [markObserved]
  split
  next hobserved =>
    rw [Fragment.elements_mark]
    apply List.map_congr_left
    intro e he
    rw [Replacement.markIf, if_pos ⟨rfl, (hid e he).symm ▸ hobserved⟩]
    rfl
  next hobserved =>
    have hsame : ∀ e ∈ f.elements, op.replacement.markIf .within e = id e := by
      intro e he
      rw [Replacement.markIf, if_neg]
      · rfl
      · intro hboth
        exact hobserved (hid e he ▸ hboth.2)
    rw [List.map_congr_left hsame, List.map_id]

theorem ApplyScan.insertText_spec {ahead : List Fragment} (h : Coheres undoHistory s.newFragments ahead s.insertionSplits)
    (hprev : EndsWith s.newFragments prev) (hpending : Pending op undoHistory s ahead) :
    ∃ s', s.insertText op prev ahead.head? = some s' ∧ s'.newText = none ∧
      Coheres undoHistory s'.newFragments ahead s'.insertionSplits ∧
      elements s'.newFragments = elements s.newFragments ++ s.run op := by
  obtain ⟨hundos, htext⟩ := hpending
  rw [ApplyScan.insertText, ApplyScan.run]
  cases hnew : s.newText with
  | none => exact ⟨s, rfl, hnew, h, (List.append_nil _).symm⟩
  | some text =>
    obtain ⟨-, hne, hfresh⟩ := htext text hnew
    obtain ⟨f, splits', hbuild, helements, hinsert⟩ := h.insert none hprev hfresh hundos hne
    dsimp only
    rw [hbuild, Option.map_some]
    refine ⟨_, rfl, rfl, hinsert, ?_⟩
    rw [elements_append, elements_cons, elements_nil, List.append_nil, helements]

@[simp] theorem markObserved_id (op : EditOperation) (undoHistory : UndoHistory) (f : Fragment) :
    (markObserved op undoHistory f).id = f.id := by
  rw [markObserved]
  split
  · rfl
  · rfl

theorem Coheres.markObserved {new : List Fragment} {splits : InsertionSplits}
    (h : Coheres undoHistory new (f :: rest) splits) (hts : undoHistory.undosOf op.lamportTimestamp = ∅) :
    Coheres undoHistory new (Editor.markObserved op undoHistory f :: rest) splits := by
  rw [Editor.markObserved]
  split
  next => exact h.mark hts
  next => exact h

theorem applyToFragment_split {range : Range} (h : Coheres undoHistory s.newFragments (f :: rest) s.insertionSplits)
    (hprev : EndsWith s.newFragments prev) (hends : f.id = startFragmentId ∨ f.id = endFragmentId)
    (hrange : splitRange op startFragmentId endFragmentId f = range) (hstart : f.startCharacterOffset ≤ range.start)
    (hle : range.start ≤ range.stop) (hstop : range.stop ≤ f.endCharacterOffset)
    (hlt : f.startCharacterOffset < range.stop) (hlt' : range.start < f.endCharacterOffset)
    (hpending : Pending op undoHistory s (f :: rest)) :
    ∃ s', applyToFragment op undoHistory startFragmentId endFragmentId (some prev) f s = some s' ∧ s'.newText = none ∧
      Coheres undoHistory s'.newFragments rest s'.insertionSplits ∧ EndsWith s'.newFragments f ∧
      elements s'.newFragments = elements s.newFragments ++ f.elementsBetween f.startCharacterOffset range.start ++
        s.run op ++ (f.elementsBetween range.start range.stop).map (op.replacement.markIf .within) ++
        f.elementsBetween range.stop f.endCharacterOffset := by
  obtain ⟨parts, splits', hsplit, hparts, hcoheres⟩ := splitFragment_spec h hprev hstart hle hstop hlt hlt'
  obtain ⟨before, within, after⟩ := parts
  have hinsertion := hparts.insertionId
  have hbefore := hparts.before
  have hwithin := hparts.within
  have hafter := hparts.after
  have hlast := hparts.endsWith
  simp only [SplitParts.fragments, List.append_assoc] at hinsertion hcoheres hlast
  rw [applyToFragment, if_pos hends, Option.bind_some, hrange, hsplit, Option.bind_some]
  dsimp only
  have hpushed := hcoheres.pushAll
  have hprev' : EndsWith (s.newFragments ++ before.toList) (before.getD prev) := by
    cases before with
    | none =>
      rw [Option.toList_none, List.append_nil]
      exact hprev
    | some g => exact ⟨g, List.getLast?_concat, rfl⟩
  have hhead : (within.toList ++ (after.toList ++ rest)).head? = within.or after := by
    cases within with
    | some g => rfl
    | none =>
      cases after with
      | some g => rfl
      | none => exact absurd hparts.nonempty (by simp)
  have hpending' : Pending op undoHistory ({ s with insertionSplits := splits' }.push before.toList)
      (within.toList ++ (after.toList ++ rest)) := by
    refine ⟨hpending.1, fun text htext => ?_⟩
    obtain ⟨heq, hne, hfresh⟩ := hpending.2 text htext
    refine ⟨heq, hne, ?_⟩
    rw [ofInsertion_eq_nil] at hfresh ⊢
    intro g hg
    have hg : g ∈ s.newFragments ∨ g ∈ before.toList ++ (within.toList ++ after.toList) ∨ g ∈ rest := by
      simp only [ApplyScan.push, List.mem_append] at hg ⊢
      tauto
    cases hg with
    | inl hg => exact hfresh g (List.mem_append_left _ hg)
    | inr hg =>
      cases hg with
      | inl hg =>
        rw [hinsertion g hg]
        exact hfresh f (by simp)
      | inr hg => exact hfresh g (List.mem_append_right _ (List.mem_cons_of_mem f hg))
  obtain ⟨s', hinsert, hnone, hs', helements⟩ := ApplyScan.insertText_spec hpushed hprev' hpending'
  rw [hhead] at hinsert
  rw [hinsert, Option.map_some]
  have helements : elements s'.newFragments = elements s.newFragments ++
      f.elementsBetween f.startCharacterOffset range.start ++ s.run op := by
    rw [helements, ← hbefore, ← elements_append]
    rfl
  cases within with
  | none =>
    rw [← hwithin, ← hafter]
    refine ⟨_, rfl, hnone, ?_, ?_, ?_⟩
    · have hpush := hs'.pushAll.pushAll
      exact hpush
    · cases after with
      | none => exact absurd hparts.nonempty (by simp)
      | some g =>
        obtain ⟨last, hlast, hid⟩ := hlast
        have hg : g = last := by
          simpa using hlast
        exact ⟨g, List.getLast?_concat, hg ▸ hid⟩
    · simp only [ApplyScan.push, elements_append, helements, Option.map_none, Option.toList_none, elements_nil,
        List.append_nil, List.map_nil]
  | some w =>
    rw [elements_toList] at hwithin
    rw [← hwithin, ← hafter]
    refine ⟨_, rfl, hnone, ?_, ?_, ?_⟩
    · have hmark : Coheres undoHistory s'.newFragments (markObserved op undoHistory w :: (after.toList ++ rest))
          s'.insertionSplits := hs'.markObserved hpending.1
      exact hmark.push.pushAll (l := after.toList)
    · cases after with
      | none =>
        obtain ⟨last, hlast, hid⟩ := hlast
        have hw : w = last := by
          simpa using hlast
        refine ⟨markObserved op undoHistory w, ?_, ?_⟩
        · simp [ApplyScan.push]
        · rw [markObserved_id, hw]
          exact hid
      | some g =>
        obtain ⟨last, hlast, hid⟩ := hlast
        have hg : g = last := by
          simpa using hlast
        exact ⟨g, List.getLast?_concat, hg ▸ hid⟩
    · have hmark := markObserved_elements op undoHistory w
      simp only [ApplyScan.push, elements_append, helements, Option.map_some, Option.toList_some, elements_cons,
        elements_nil, List.append_nil, hmark]

def ApplyScan.placed (op : EditOperation) (s : ApplyScan) (l : Elements) : Elements :=
  match s.newText with
  | none => l
  | some text => place op.lamportTimestamp (runFrom op.lamportTimestamp 0 text) l

theorem Pending.ne (h : Pending op undoHistory s (f :: rest)) (hsome : s.newText.isSome) :
    f.insertion.id ≠ op.lamportTimestamp := by
  obtain ⟨text, htext⟩ := Option.isSome_iff_exists.mp hsome
  have hfresh := (h.2 text htext).2.2
  rw [ofInsertion_eq_nil] at hfresh
  exact hfresh f (by simp)

variable {l : Elements}

theorem insertBefore_spec (h : Coheres undoHistory s.newFragments (f :: rest) s.insertionSplits)
    (hprev : EndsWith s.newFragments prev) (hpending : Pending op undoHistory s (f :: rest))
    (mk : Element Lamport Char → Element Lamport Char) (hmk : ∀ e, (mk e).id = e.id) :
    ∃ s', (if s.newText.isSome ∧ op.lamportTimestamp > f.insertion.id then
        (some prev).bind fun prevFragment => s.insertText op prevFragment (some f) else some s) = some s' ∧
      Coheres undoHistory s'.newFragments (f :: rest) s'.insertionSplits ∧
      (∀ g : Fragment, g.insertion = f.insertion → Pending op undoHistory (s'.push [g]) rest) ∧
      elements s'.newFragments ++ f.elements.map mk ++ s'.placed op l =
        elements s.newFragments ++ s.placed op (f.elements.map mk ++ l) := by
  by_cases hinsert : s.newText.isSome ∧ op.lamportTimestamp > f.insertion.id
  · obtain ⟨s', hinsert', hnone, hs', helements⟩ := ApplyScan.insertText_spec h hprev hpending
    rw [if_pos hinsert, Option.bind_some]
    refine ⟨s', hinsert', hs', fun g hg => ⟨hpending.1, fun text htext => ?_⟩, ?_⟩
    · change text ∈ s'.newText at htext
      rw [hnone] at htext
      exact absurd htext (Option.some_ne_none text).symm
    · obtain ⟨text, htext⟩ := Option.isSome_iff_exists.mp hinsert.1
      have hne := h.ne_nil List.mem_cons_self
      have hlt : ∀ e ∈ f.elements.map mk, e.id = f.insertion.id := by
        intro e he
        obtain ⟨d, hd, rfl⟩ := List.mem_map.mp he
        rw [hmk]
        exact (Fragment.mem_elements hd).1
      have hplace : place op.lamportTimestamp (runFrom op.lamportTimestamp 0 text) (f.elements.map mk ++ l) = _ :=
        place_append_of_lt hlt hinsert.2 (fun hnil => hne (List.map_eq_nil_iff.mp hnil)) l
      simp only [ApplyScan.placed, ApplyScan.run, htext, hnone] at helements ⊢
      rw [helements, hplace]
      simp only [List.append_assoc]
  · rw [if_neg hinsert]
    refine ⟨s, rfl, h, fun g hg => ⟨hpending.1, fun text htext => ?_⟩, ?_⟩
    · obtain ⟨heq, hne, hfresh⟩ := hpending.2 text htext
      refine ⟨heq, hne, ?_⟩
      rw [ofInsertion_eq_nil] at hfresh ⊢
      have heq : s.newFragments ++ [g] ++ rest = s.newFragments ++ g :: rest := by simp
      change ∀ c ∈ s.newFragments ++ [g] ++ rest, _
      rw [heq]
      intro c hc
      cases WellFormed.mem_insert_iff.mp hc with
      | inl hcg =>
        rw [hcg, hg]
        exact hfresh f (by simp)
      | inr hc => exact hfresh c (WellFormed.mem_insert_iff.mpr (.inr hc))
    · cases htext : s.newText with
      | none =>
        simp only [ApplyScan.placed, htext, List.append_assoc]
      | some text =>
        have hsome : s.newText.isSome := by rw [htext]; rfl
        have hgt : op.lamportTimestamp < f.insertion.id := by
          have hle : op.lamportTimestamp ≤ f.insertion.id := not_lt.mp fun hlt => hinsert ⟨hsome, hlt⟩
          exact lt_of_le_of_ne hle (hpending.ne hsome).symm
        have hrun : ∀ e ∈ f.elements.map mk, e.id = f.insertion.id := by
          intro e he
          obtain ⟨d, hd, rfl⟩ := List.mem_map.mp he
          rw [hmk]
          exact (Fragment.mem_elements hd).1
        simp only [ApplyScan.placed, htext]
        rw [place_append hrun hgt, List.append_assoc]

def Applied (op : EditOperation) (undoHistory : UndoHistory) (startFragmentId endFragmentId : FragmentId)
    (prev : Fragment) (rest : List Fragment) (s : ApplyScan) (result : Elements) : Prop :=
  ∃ prev' ahead s' s'' passed,
    applyToFragments op undoHistory startFragmentId endFragmentId (some prev) rest s = some (prev', ahead, s') ∧
      insertRemaining op prev' s' = some s'' ∧ rest = passed ++ ahead ∧
      Coheres undoHistory s''.newFragments ahead s''.insertionSplits ∧
      elements s''.newFragments ++ elements ahead = result

theorem Applied.step {s' : ApplyScan} {result : Elements}
    (hgo : ¬(s.newText = none ∧ f.id > endFragmentId))
    (happly : applyToFragment op undoHistory startFragmentId endFragmentId (some prev) f s = some s')
    (h : Applied op undoHistory startFragmentId endFragmentId f rest s' result) :
    Applied op undoHistory startFragmentId endFragmentId prev (f :: rest) s result := by
  obtain ⟨prev', ahead, s₁, s₂, passed, hloop, hremaining, hrest, hcoheres, helements⟩ := h
  refine ⟨prev', ahead, s₁, s₂, f :: passed, ?_, hremaining, by rw [hrest, List.cons_append], hcoheres, helements⟩
  rw [applyToFragments, if_neg hgo, happly, Option.bind_some, hloop]

theorem applied_after (h : Coheres undoHistory s.newFragments rest s.insertionSplits)
    (hprev : EndsWith s.newFragments prev) (hafter : ∀ f ∈ rest, endFragmentId < f.id ∧ f.id ≠ startFragmentId)
    (hpending : Pending op undoHistory s rest) :
    Applied op undoHistory startFragmentId endFragmentId prev rest s
      (elements s.newFragments ++ s.placed op (elements rest)) := by
  induction rest generalizing s prev with
  | nil =>
    obtain ⟨s', hinsert, hnone, hs', helements⟩ := ApplyScan.insertText_spec h hprev hpending
    cases htext : s.newText with
    | none =>
      refine ⟨some prev, [], s, s, [], rfl, ?_, rfl, h, ?_⟩
      · rw [insertRemaining, htext]
        rfl
      · rw [ApplyScan.placed, htext]
    | some text =>
      refine ⟨some prev, [], s, s', [], rfl, ?_, rfl, hs', ?_⟩
      · rw [insertRemaining, htext]
        exact hinsert
      · rw [helements, ApplyScan.placed, ApplyScan.run, htext, elements_nil, List.append_nil]
        rfl
  | cons f rest ih =>
    obtain ⟨hend, hstart⟩ := hafter f List.mem_cons_self
    by_cases hstop : s.newText = none ∧ f.id > endFragmentId
    · refine ⟨some prev, f :: rest, s, s, [], ?_, ?_, rfl, h, ?_⟩
      · rw [applyToFragments, if_pos hstop]
      · rw [insertRemaining, hstop.1]
        rfl
      · rw [ApplyScan.placed, hstop.1]
    · obtain ⟨s', hinsert, hs', hpending', helements⟩ :=
        insertBefore_spec (l := elements rest) h hprev hpending id fun _ => rfl
      have happly : applyToFragment op undoHistory startFragmentId endFragmentId (some prev) f s =
          some (s'.push [f]) := by
        rw [applyToFragment, if_neg (not_or.mpr ⟨hstart, hend.ne'⟩), hinsert, Option.map_some,
          if_neg (not_lt.mpr hend.le)]
      refine Applied.step hstop happly ?_
      have hrest := ih (s := s'.push [f]) hs'.push (show EndsWith _ f from ⟨f, List.getLast?_concat, rfl⟩)
        (fun g hg => hafter g (List.mem_cons_of_mem f hg)) (hpending' f rfl)
      rw [List.map_id] at helements
      rw [elements_cons, ← helements]
      have hpush : elements (s'.push [f]).newFragments = elements s'.newFragments ++ f.elements := by
        rw [ApplyScan.push, elements_append, elements_cons, elements_nil, List.append_nil]
      rw [hpush] at hrest
      exact hrest

theorem ApplyScan.placed_eq (hlt : ∀ e ∈ l.head?, e.id < op.lamportTimestamp) (hne : l ≠ []) :
    s.placed op l = s.run op ++ l := by
  rw [placed, run]
  cases l with
  | nil => exact absurd rfl hne
  | cons e l =>
    cases s.newText with
    | none => rfl
    | some text =>
      dsimp only
      rw [place, if_pos (hlt e rfl)]

theorem applied_within {fe : Fragment} {G H : List Fragment} {mk : Element Lamport Char → Element Lamport Char}
    (hmk : mk = op.replacement.markIf .within)
    (h : Coheres undoHistory s.newFragments (G ++ fe :: H) s.insertionSplits)
    (hprev : EndsWith s.newFragments prev) (hend : fe.id = endFragmentId) (hne : fe.id ≠ startFragmentId)
    (hbefore : ∀ g ∈ G, g.id < endFragmentId ∧ g.id ≠ startFragmentId)
    (hafter : ∀ f ∈ H, endFragmentId < f.id ∧ f.id ≠ startFragmentId) (hid : fe.insertion.id < op.lamportTimestamp)
    (hlt : fe.startCharacterOffset < op.endCharacterOffset) (hle : op.endCharacterOffset ≤ fe.endCharacterOffset)
    (hpending : Pending op undoHistory s (G ++ fe :: H)) :
    Applied op undoHistory startFragmentId endFragmentId prev (G ++ fe :: H) s
      (elements s.newFragments ++ s.placed op
        ((elements G ++ fe.elementsBetween fe.startCharacterOffset op.endCharacterOffset).map mk ++
          (fe.elementsBetween op.endCharacterOffset fe.endCharacterOffset ++ elements H))) := by
  have hmkId : ∀ e, (mk e).id = e.id := by
    intro e
    rw [hmk]
    exact congrArg Prod.fst (Replacement.markIf_key ..)
  induction G generalizing s prev with
  | nil =>
    have hgo : ¬(s.newText = none ∧ fe.id > endFragmentId) := fun hboth => hboth.2.ne' hend
    have hrange : splitRange op startFragmentId endFragmentId fe = ⟨fe.startCharacterOffset, op.endCharacterOffset⟩ := by
      rw [splitRange, if_neg (Ne.symm hne), if_pos hend.symm]
    obtain ⟨s', happly, hnone, hs', hends, helements⟩ := applyToFragment_split h hprev (.inr hend) hrange
      (Nat.le_refl _) hlt.le hle hlt (hlt.trans_le hle) hpending
    refine Applied.step hgo happly ?_
    have hpending' : Pending op undoHistory s' H := by
      refine ⟨hpending.1, fun text htext => ?_⟩
      rw [hnone] at htext
      exact absurd htext (Option.some_ne_none text).symm
    have hrest := applied_after hs' hends hafter hpending'
    have hplaced : s'.placed op (elements H) = elements H := by rw [ApplyScan.placed, hnone]
    have helem := h.ne_nil List.mem_cons_self
    have hbetween : fe.elementsBetween fe.startCharacterOffset op.endCharacterOffset ++
        fe.elementsBetween op.endCharacterOffset fe.endCharacterOffset = fe.elements :=
      Fragment.elementsBetween_append hlt.le hle (h.ends_le List.mem_cons_self)
    have hids : ∀ e ∈ (elements [] ++ fe.elementsBetween fe.startCharacterOffset op.endCharacterOffset).map mk ++
        fe.elementsBetween op.endCharacterOffset fe.endCharacterOffset, e.id = fe.insertion.id := by
      intro e he
      cases List.mem_append.mp he with
      | inl he =>
        obtain ⟨d, hd, rfl⟩ := List.mem_map.mp he
        rw [hmkId]
        exact (Fragment.mem_elements hd).1
      | inr he => exact (Fragment.mem_elements he).1
    have hnonempty : (elements [] ++ fe.elementsBetween fe.startCharacterOffset op.endCharacterOffset).map mk ++
        fe.elementsBetween op.endCharacterOffset fe.endCharacterOffset ≠ [] := by
      intro hnil
      obtain ⟨hleft, hright⟩ := List.append_eq_nil_iff.mp hnil
      rw [elements_nil, List.nil_append, List.map_eq_nil_iff] at hleft
      rw [hleft, hright] at hbetween
      exact helem hbetween.symm
    rw [← List.append_assoc, ApplyScan.placed_eq]
    · rw [hplaced, helements, Fragment.elementsBetween_self, List.append_nil, ← hmk] at hrest
      simpa only [elements_nil, List.nil_append, List.append_assoc] using hrest
    · intro e he
      obtain ⟨d, rest, heq⟩ := List.exists_cons_of_ne_nil hnonempty
      rw [heq, List.cons_append, List.head?_cons] at he
      rw [← Option.some.inj he, hids d (by rw [heq]; exact List.mem_cons_self)]
      exact hid
    · exact List.append_ne_nil_of_left_ne_nil hnonempty _
  | cons g G ih =>
    obtain ⟨hg, hg'⟩ := hbefore g List.mem_cons_self
    have hgo : ¬(s.newText = none ∧ g.id > endFragmentId) := fun hboth => hg.asymm hboth.2
    obtain ⟨s', hinsert, hs', hpending', helements⟩ := insertBefore_spec h hprev hpending mk hmkId
      (l := (elements G ++ fe.elementsBetween fe.startCharacterOffset op.endCharacterOffset).map mk ++
        (fe.elementsBetween op.endCharacterOffset fe.endCharacterOffset ++ elements H))
    have happly : applyToFragment op undoHistory startFragmentId endFragmentId (some prev) g s =
        some (s'.push [markObserved op undoHistory g]) := by
      rw [applyToFragment, if_neg (not_or.mpr ⟨hg', hg.ne⟩), hinsert, Option.map_some, if_pos hg]
    refine Applied.step hgo happly ?_
    have hends : EndsWith (s'.push [markObserved op undoHistory g]).newFragments g :=
      ⟨_, List.getLast?_concat, markObserved_id op undoHistory g⟩
    have hinsertion : (markObserved op undoHistory g).insertion = g.insertion := by
      rw [markObserved]
      split
      · rfl
      · rfl
    have hrest := ih (hs'.markObserved hpending.1).push hends (fun f hf => hbefore f (List.mem_cons_of_mem g hf))
      (hpending' _ hinsertion)
    have hpush : elements (s'.push [markObserved op undoHistory g]).newFragments =
        elements s'.newFragments ++ g.elements.map mk := by
      rw [ApplyScan.push, elements_append, elements_cons, elements_nil, List.append_nil, markObserved_elements, hmk]
    rw [hpush] at hrest
    rw [elements_cons, List.append_assoc, List.map_append, List.append_assoc, ← helements]
    exact hrest

end Loop

end InfiniShell.Editor
