import InfiniShell.Compaction.State
import Mathlib.Tactic.Cases
import Mathlib.Algebra.GroupWithZero.Nat

namespace InfiniShell.Compaction

/-- Turns one before the other, latest first, the latest up to `n`. -/
def Tiles : Nat → List (Turn I) → Prop
  | _, [] => True
  | n, turn :: earlier => turn.start < turn.stop ∧ turn.stop = n ∧ Tiles turn.start earlier

section Tiles

variable {I : Type} {n : Nat} {turn : Turn I} {l l' : List (Turn I)}

theorem Tiles.bounds (h : Tiles n l) (hmem : turn ∈ l) : turn.start < turn.stop ∧ turn.stop ≤ n := by
  induction l generalizing n with
  | nil => cases hmem
  | cons last earlier ih =>
    obtain ⟨hlt, hstop, hearlier⟩ := h
    cases List.mem_cons.mp hmem with
    | inl heq => exact heq ▸ ⟨hlt, Nat.le_of_eq hstop⟩
    | inr hmem =>
      obtain ⟨hturn, hle⟩ := ih hearlier hmem
      exact ⟨hturn, by omega⟩

theorem Tiles.left (h : Tiles n (l ++ l')) : Tiles n l := by
  induction l generalizing n with
  | nil => trivial
  | cons last earlier ih => exact ⟨h.1, h.2.1, ih h.2.2⟩

theorem Tiles.before (h : Tiles n (l ++ l')) {first : Turn I} (hturn : turn ∈ l) (hfirst : first ∈ l') :
    first.stop ≤ turn.start := by
  induction l generalizing n with
  | nil => cases hturn
  | cons last earlier ih =>
    obtain ⟨-, -, hearlier⟩ := h
    cases List.mem_cons.mp hturn with
    | inl heq => exact heq ▸ (hearlier.bounds (List.mem_append_right _ hfirst)).2
    | inr hmem => exact ih hearlier hmem

theorem Tiles.unique (h : Tiles n l) {other : Turn I} {i : Nat} (hturn : turn ∈ l) (hother : other ∈ l)
    (hi : turn.start ≤ i ∧ i < turn.stop) (hi' : other.start ≤ i ∧ i < other.stop) : other = turn := by
  induction l generalizing n with
  | nil => cases hturn
  | cons last earlier ih =>
    obtain ⟨-, -, hearlier⟩ := h
    cases List.mem_cons.mp hturn with
    | inl hlast =>
      cases List.mem_cons.mp hother with
      | inl hlast' => rw [hlast, hlast']
      | inr hmem =>
        have hle := (hearlier.bounds hmem).2
        rw [hlast] at hi
        omega
    | inr hmem =>
      cases List.mem_cons.mp hother with
      | inl hlast' =>
        have hle := (hearlier.bounds hmem).2
        rw [hlast'] at hi'
        omega
      | inr hmem' => exact ih hearlier hmem hmem'

variable {start : Nat}

theorem Tiles.span_le (h : Tiles n (l ++ l')) (hturn : ∃ turn ∈ l, turn.start ≤ start) :
    ((l ++ l').filter fun turn => decide (start < turn.stop)).length ≤ l.length := by
  obtain ⟨turn, hmem, hle⟩ := hturn
  have hnone : l'.filter (fun turn => decide (start < turn.stop)) = [] := by
    rw [List.filter_eq_nil_iff]
    intro first hfirst
    have hbefore := h.before hmem hfirst
    simpa using Nat.le_trans hbefore hle
  rw [List.filter_append, hnone, List.append_nil]
  exact List.length_filter_le _ _

theorem Tiles.span_lt (h : Tiles n (l ++ l')) (hturn : turn ∈ l') (hlt : start < turn.stop) :
    l.length < ((l ++ l').filter fun turn => decide (start < turn.stop)).length := by
  have hall : l.filter (fun turn => decide (start < turn.stop)) = l := by
    rw [List.filter_eq_self]
    intro later hlater
    have hbefore := h.before hlater hturn
    have hbounds := (h.bounds (List.mem_append_left _ hlater)).1
    exact decide_eq_true (by omega)
  have hpos : 0 < (l'.filter fun turn => decide (start < turn.stop)).length :=
    List.length_pos_of_mem (List.mem_filter.mpr ⟨hturn, decide_eq_true hlt⟩)
  rw [List.filter_append, hall, List.length_append]
  omega

theorem Tiles.concat (h : Tiles n l) (hturn : turn.start < turn.stop)
    (hstop : turn.stop = (l.getLast?.map Turn.start).getD n) : Tiles n (l ++ [turn]) := by
  induction l generalizing n with
  | nil => exact ⟨hturn, hstop, trivial⟩
  | cons last earlier ih =>
    obtain ⟨hlt, hn, hearlier⟩ := h
    refine ⟨hlt, hn, ih hearlier ?_⟩
    rw [hstop]
    cases earlier with
    | nil => rfl
    | cons next rest =>
      rw [List.getLast?_cons_cons]
      cases hlast : (next :: rest).getLast? with
      | none => simp at hlast
      | some first => rfl

theorem closeTurns_cons (turn : Turn I) (l : List (Turn I)) :
    closeTurns (turn :: l) = { turn with stop := (l.head?.map Turn.start).getD turn.stop } :: closeTurns l := by
  cases l <;> rfl

theorem head?_closeTurns (l : List (Turn I)) :
    (closeTurns l).head?.map Turn.start = l.head?.map Turn.start := by
  cases l with
  | nil => rfl
  | cons turn rest =>
    rw [closeTurns_cons]
    rfl

theorem closeTurns_tiles (horder : l.Pairwise fun a b => a.start < b.start)
    (hstop : ∀ turn ∈ l, turn.start < n ∧ turn.stop = n) : Tiles n (closeTurns l).reverse := by
  induction l with
  | nil => trivial
  | cons turn rest ih =>
    obtain ⟨hbefore, hrest⟩ := List.pairwise_cons.mp horder
    obtain ⟨hlt, hturn⟩ := hstop turn List.mem_cons_self
    rw [closeTurns_cons, List.reverse_cons]
    apply (ih hrest fun other hother => hstop other (List.mem_cons_of_mem _ hother)).concat
    · dsimp only
      cases rest with
      | nil => simpa [hturn] using hlt
      | cons next rest => exact hbefore next List.mem_cons_self
    · dsimp only
      rw [List.getLast?_reverse, head?_closeTurns, hturn]

end Tiles

section Turns

variable {M I C : Type} [MessageRef M I C] {messages : List M}

/-- The turn that starts at a message, before it is known where it ends. -/
def openTurn (n : Nat) (msg : M) (i : Nat) : Option (Turn I) :=
  if MessageRef.role msg ≠ .user then none
  else if MessageRef.isCompactionMarker msg then none
  else some ⟨i, n, MessageRef.id msg⟩

variable {turn : Turn I}

theorem openTurn_eq {n i : Nat} {msg : M} (h : openTurn n msg i = some turn) :
    turn.start = i ∧ turn.stop = n ∧ turn.id = MessageRef.id msg := by
  rw [openTurn] at h
  split at h
  · cases h
  · split at h
    · cases h
    · rw [← Option.some.inj h]
      exact ⟨rfl, rfl, rfl⟩

/-- The turns that start in `messages`, counted from `k`. -/
def openTurns (n k : Nat) (messages : List M) : List (Turn I) :=
  (messages.zipIdx k).filterMap fun p => openTurn n p.1 p.2

theorem mem_openTurns {n k : Nat} (h : turn ∈ openTurns n k messages) :
    turn.stop = n ∧ ∃ i msg, turn.start = k + i ∧ messages[i]? = some msg ∧ turn.id = MessageRef.id msg := by
  obtain ⟨⟨msg, i⟩, hmem, hopen⟩ := List.mem_filterMap.mp h
  obtain ⟨hle, hget⟩ := List.mem_zipIdx_iff_le_and_getElem?_sub.mp hmem
  obtain ⟨hstart, hstop, hid⟩ := openTurn_eq hopen
  exact ⟨hstop, i - k, msg, by dsimp only at hstart hle; omega, hget, hid⟩

theorem openTurns_ordered (n k : Nat) : (openTurns n k messages).Pairwise fun a b : Turn I => a.start < b.start := by
  induction messages generalizing k with
  | nil => exact .nil
  | cons msg rest ih =>
    have hrest := ih (k + 1)
    rw [openTurns, List.zipIdx_cons, List.filterMap_cons]
    cases hopen : openTurn n msg k with
    | none => exact hrest
    | some turn =>
      apply List.pairwise_cons.mpr
      refine ⟨fun other hother => ?_, hrest⟩
      obtain ⟨-, i, -, hstart, -⟩ := mem_openTurns (k := k + 1) hother
      rw [(openTurn_eq hopen).1, hstart]
      omega

theorem turns_eq : turns messages = closeTurns (openTurns messages.length 0 messages) := rfl

variable (messages) in
theorem turns_tiles : Tiles messages.length (turns messages).reverse := by
  rw [turns_eq]
  apply closeTurns_tiles (openTurns_ordered _ _)
  intro turn hturn
  obtain ⟨hstop, i, msg, hstart, hget, -⟩ := mem_openTurns hturn
  have hlt := (List.getElem?_eq_some_iff.mp hget).1
  exact ⟨by omega, hstop⟩

theorem id_of_mem_closeTurns {l : List (Turn I)} (h : turn ∈ closeTurns l) :
    ∃ opened ∈ l, turn.start = opened.start ∧ turn.id = opened.id := by
  induction l with
  | nil => cases h
  | cons first rest ih =>
    rw [closeTurns_cons] at h
    cases List.mem_cons.mp h with
    | inl heq => exact ⟨first, List.mem_cons_self, by rw [heq], by rw [heq]⟩
    | inr hmem =>
      obtain ⟨opened, hopened, heq⟩ := ih hmem
      exact ⟨opened, List.mem_cons_of_mem _ hopened, heq⟩

theorem turn_id (h : turn ∈ turns messages) : messages[turn.start]?.map MessageRef.id = some turn.id := by
  obtain ⟨opened, hopened, hstart, hid⟩ := id_of_mem_closeTurns h
  obtain ⟨-, i, msg, hi, hget, hmsg⟩ := mem_openTurns hopened
  have heq : turn.start = i := by omega
  rw [heq, hget, Option.map_some, hid, hmsg]

end Turns

section Tail

variable {M I C : Type} [MessageRef M I C] {messages : List M} {estimate : List M → Nat} {budget limit : Nat}

def BeginsTurn (messages : List M) (start : Nat) : Prop :=
  ∃ turn ∈ turns messages, turn.start = start

def SplitsTurn (messages : List M) (start : Nat) : Prop :=
  ∃ turn ∈ turns messages, (turn.start < start ∧ start < turn.stop) ∧
    ∀ other ∈ turns messages, other.start < start → start < other.stop → other = turn

structure TailFits (messages : List M) (estimate : List M → Nat) (budget limit start : Nat) : Prop where
  size : estimate (messages.drop start) ≤ budget
  span : ((turns messages).filter fun turn => decide (start < turn.stop)).length ≤ limit
  place : BeginsTurn messages start ∨ SplitsTurn messages start

section Additive

variable (hadd : ∀ a b, estimate (a ++ b) = estimate a + estimate b)

include hadd

omit [MessageRef M I C] in
theorem estimate_nil : estimate [] = 0 := by
  have h := hadd [] []
  rw [List.append_nil] at h
  omega

variable {start stop : Nat}

omit [MessageRef M I C] in
variable (messages) in
theorem estimate_slice (h : start ≤ stop) :
    estimate (slice messages start stop) + estimate (messages.drop stop) = estimate (messages.drop start) := by
  rw [← hadd, slice]
  congr 1
  obtain ⟨k, rfl⟩ := Nat.exists_eq_add_of_le h
  rw [← List.drop_drop, List.drop_take, Nat.add_sub_cancel_left, List.take_append_drop]

omit [MessageRef M I C] in
variable (messages) in
theorem estimate_drop_le (h : start ≤ stop) :
    estimate (messages.drop stop) ≤ estimate (messages.drop start) := by
  have hslice := estimate_slice messages hadd h
  omega

variable {turn : Turn I} {tail : Tail I}

omit hadd in
theorem splitTurn_some (h : splitTurn messages turn budget estimate = some tail) :
    turn.start < tail.start ∧ tail.start < turn.stop ∧ messages[tail.start]?.map MessageRef.id = some tail.id ∧
      estimate (slice messages tail.start turn.stop) ≤ budget ∧
      ∀ s, turn.start < s → s < tail.start → budget < estimate (slice messages s turn.stop) := by
  rw [splitTurn] at h
  split at h
  · cases h
  · split at h
    · cases h
    · obtain ⟨start, hfind, hmsg⟩ := Option.bind_eq_some_iff.mp h
      obtain ⟨msg, hget, htail⟩ := Option.bind_eq_some_iff.mp hmsg
      obtain ⟨hfits, hmem, hbefore⟩ := List.find?_range'_eq_some.mp hfind
      rw [List.mem_range'_1] at hmem
      rw [← Option.some.inj htail]
      dsimp only
      refine ⟨by omega, by omega, by rw [hget, Option.map_some], by simpa using hfits, fun s hs hlt => ?_⟩
      have hnot := hbefore s hs hlt
      simpa using hnot

omit hadd in
theorem splitTurn_none (hstop : turn.stop ≤ messages.length)
    (h : splitTurn messages turn budget estimate = none) {s : Nat} (hs : turn.start < s) (hlt : s < turn.stop) :
    budget = 0 ∨ budget < estimate (slice messages s turn.stop) := by
  rw [splitTurn] at h
  split at h
  next hzero => exact .inl hzero
  next =>
    rw [if_neg (by omega)] at h
    cases hfind : (List.range' (turn.start + 1) (turn.stop - (turn.start + 1))).find? fun start =>
        decide (estimate (slice messages start turn.stop) ≤ budget) with
    | none =>
      have hnot := List.find?_range'_eq_none.mp hfind s hs (by omega)
      exact .inr (by simpa using hnot)
    | some start =>
      have hmem := (List.find?_range'_eq_some.mp hfind).2.1
      rw [List.mem_range'_1] at hmem
      rw [hfind] at h
      have hget : messages[start]? = some messages[start] := List.getElem?_eq_getElem (by omega)
      simp [hget] at h

structure Kept (messages : List M) (estimate : List M → Nat) (budget n : Nat) (latestFirst : List (Turn I))
    (keep : Option (Tail I)) (tail : Tail I) : Prop where
  size : estimate (messages.drop tail.start) ≤ budget
  place : keep = some tail ∨ ∃ turn ∈ latestFirst, turn.start ≤ tail.start ∧ tail.start < turn.stop ∧
    messages[tail.start]?.map MessageRef.id = some tail.id
  maximal : ∀ s < tail.start, (∃ turn ∈ latestFirst, turn.start ≤ s) → estimate (messages.drop s) ≤ budget →
    estimate (messages.drop tail.start) = budget ∧
      (keep = some tail ∨ ∃ turn ∈ latestFirst, turn.start = tail.start)

theorem keepTail_kept {n total : Nat} {latestFirst : List (Turn I)} {keep : Option (Tail I)}
    (htiles : Tiles n latestFirst) (hn : n ≤ messages.length) (htotal : total = estimate (messages.drop n))
    (hbudget : total ≤ budget) (hkeep : ∀ t ∈ keep, t.start = n)
    (hids : ∀ turn ∈ latestFirst, messages[turn.start]?.map MessageRef.id = some turn.id)
    (h : keepTail messages budget estimate latestFirst total keep = some tail) :
    Kept messages estimate budget n latestFirst keep tail := by
  induction latestFirst generalizing n total keep with
  | nil =>
    rw [keepTail] at h
    refine ⟨?_, .inl h, fun s _ hturn _ => ?_⟩
    · rw [hkeep tail h, ← htotal]
      exact hbudget
    · obtain ⟨turn, hmem, -⟩ := hturn
      cases hmem
  | cons turn earlier ih =>
    obtain ⟨hlt, hstop, hearlier⟩ := htiles
    have hsize := estimate_slice messages hadd (Nat.le_of_lt hlt)
    rw [keepTail] at h
    rw [hstop] at hsize h
    by_cases hfits : total + estimate (slice messages turn.start n) ≤ budget
    · rw [if_pos hfits] at h
      have hkept := ih hearlier (by omega) (by omega) hfits
        (fun t ht => by rw [← Option.some.inj ht]) (fun t ht => hids t (List.mem_cons_of_mem _ ht)) h
      have hle : tail.start ≤ turn.start := by
        cases hkept.place with
        | inl heq => exact Nat.le_of_eq (congrArg Tail.start (Option.some.inj heq).symm)
        | inr hplace =>
          obtain ⟨other, hother, -, hlt', -⟩ := hplace
          have hbounds := (hearlier.bounds hother).2
          omega
      have hstart : ∀ t, some (⟨turn.start, turn.id⟩ : Tail I) = some t → t.start = turn.start ∧ t.id = turn.id := by
        intro t ht
        rw [← Option.some.inj ht]
        exact ⟨rfl, rfl⟩
      refine ⟨hkept.size, .inr ?_, fun s hs hturn hsmall => ?_⟩
      · cases hkept.place with
        | inl heq =>
          obtain ⟨hstart, hid⟩ := hstart tail heq
          refine ⟨turn, List.mem_cons_self, by omega, by omega, ?_⟩
          rw [hstart, hid]
          exact hids turn List.mem_cons_self
        | inr hplace =>
          obtain ⟨other, hother, hplace⟩ := hplace
          exact ⟨other, List.mem_cons_of_mem _ hother, hplace⟩
      · have hearlier' : ∃ other ∈ earlier, other.start ≤ s := by
          obtain ⟨other, hother, hle'⟩ := hturn
          cases List.mem_cons.mp hother with
          | inl heq =>
            rw [heq] at hle'
            omega
          | inr hmem => exact ⟨other, hmem, hle'⟩
        obtain ⟨hfull, hbegins⟩ := hkept.maximal s hs hearlier' hsmall
        refine ⟨hfull, .inr ?_⟩
        cases hbegins with
        | inl heq => exact ⟨turn, List.mem_cons_self, (hstart tail heq).1.symm⟩
        | inr hbegins =>
          obtain ⟨other, hother, heq⟩ := hbegins
          exact ⟨other, List.mem_cons_of_mem _ hother, heq⟩
    · rw [if_neg hfits] at h
      -- nothing that reaches the start of the turn fits
      have hover : ∀ s ≤ turn.start, ¬estimate (messages.drop s) ≤ budget := by
        intro s hs
        have hle := estimate_drop_le messages hadd hs
        omega
      cases hsplit : splitTurn messages turn (budget - total) estimate with
      | some cut =>
        rw [hsplit, Option.some_or] at h
        rw [Option.some.inj h] at hsplit
        obtain ⟨hbegin, hend, hid, hcut, hfirst⟩ := splitTurn_some hsplit
        rw [hstop] at hcut hend hfirst
        have hsum := estimate_slice messages hadd (Nat.le_of_lt hend)
        refine ⟨by omega, .inr ⟨turn, List.mem_cons_self, Nat.le_of_lt hbegin, by omega, hid⟩, fun s hs _ hsmall => ?_⟩
        by_cases hle : s ≤ turn.start
        · exact absurd hsmall (hover s hle)
        · have hlonger := hfirst s (by omega) hs
          have hsum' := estimate_slice messages hadd (show s ≤ n by omega)
          omega
      | none =>
        rw [hsplit, Option.none_or] at h
        have hstart := hkeep tail h
        refine ⟨by rw [hstart]; omega, .inl h, fun s hs _ hsmall => ⟨?_, .inl h⟩⟩
        rw [hstart] at hs ⊢
        by_cases hle : s ≤ turn.start
        · exact absurd hsmall (hover s hle)
        · have hsum := estimate_slice messages hadd (Nat.le_of_lt hs)
          have hrest := splitTurn_none (by omega) hsplit (s := s) (by omega) (by omega)
          rw [hstop] at hrest
          omega

end Additive

omit [MessageRef M I C] in
theorem reverse_recent (l : List (Turn I)) :
    (l.drop (l.length - limit)).reverse = l.reverse.take limit := by
  rw [List.reverse_drop]
  by_cases hle : limit ≤ l.length
  · rw [Nat.sub_sub_self hle]
  · rw [List.take_of_length_le (by rw [List.length_reverse]; omega), List.take_of_length_le (by rw [List.length_reverse]; omega)]

theorem select_eq {cfg : CompactionConfig} {model : ModelLimit} {start : Nat} {id : I}
    (h : select messages cfg model estimate = ⟨start, some id⟩) :
    keepTail messages (cfg.preserveRecentBudget (usable cfg model)) estimate
      ((turns messages).reverse.take cfg.tailTurns) 0 none = some ⟨start, id⟩ := by
  rw [select] at h
  split at h
  · simp at h
  · dsimp only at h
    split at h
    · simp at h
    · rw [reverse_recent] at h
      split at h
      next => simp at h
      next tail heq =>
        split at h
        · simp at h
        · rw [heq]
          obtain ⟨hstart, hid⟩ := SelectResult.mk.inj h
          rw [← hstart, ← Option.some.inj hid]

/-- The tail fits; a longer one fits only if this one takes up the budget and starts with a turn. -/
theorem select_tail_fits {cfg : CompactionConfig} {model : ModelLimit} {start : Nat} {id : I}
    (hadd : ∀ a b, estimate (a ++ b) = estimate a + estimate b)
    (h : select messages cfg model estimate = ⟨start, some id⟩) :
    let budget := cfg.preserveRecentBudget (usable cfg model)
    messages[start]?.map MessageRef.id = some id ∧
    TailFits messages estimate budget cfg.tailTurns start ∧
    ∀ s < start, TailFits messages estimate budget cfg.tailTurns s →
      estimate (messages.drop start) = budget ∧ BeginsTurn messages start ∧
        estimate (slice messages s start) = 0 := by
  intro budget
  have htiles := turns_tiles messages
  have hloop := select_eq h
  obtain ⟨latest, earlier, hsplit, hlatest, hcount⟩ : ∃ latest earlier, (turns messages).reverse = latest ++ earlier ∧
      (turns messages).reverse.take cfg.tailTurns = latest ∧
      latest.length ≤ cfg.tailTurns ∧ (earlier ≠ [] → latest.length = cfg.tailTurns) := by
    refine ⟨_, _, (List.take_append_drop cfg.tailTurns _).symm, rfl, List.length_take_le _ _, fun hne => ?_⟩
    rw [List.length_take]
    have hlt : ¬(turns messages).reverse.length ≤ cfg.tailTurns := fun hle => hne (List.drop_of_length_le hle)
    omega
  have hspan : ∀ s, ((turns messages).filter fun turn => decide (s < turn.stop)).length =
      ((latest ++ earlier).filter fun turn => decide (s < turn.stop)).length := by
    intro s
    rw [← hsplit, List.filter_reverse, List.length_reverse]
  have hmem : ∀ turn, turn ∈ turns messages ↔ turn ∈ latest ++ earlier := by
    intro turn
    rw [← hsplit, List.mem_reverse]
  rw [hlatest] at hloop
  rw [hsplit] at htiles
  have hkept := keepTail_kept hadd htiles.left (Nat.le_refl _) (by rw [List.drop_length, estimate_nil hadd])
    (Nat.zero_le _) (fun t ht => by cases ht)
    (fun turn hturn => turn_id ((hmem turn).mpr (List.mem_append_left _ hturn))) hloop
  obtain ⟨turn, hturn, hle, hlt, hid⟩ := hkept.place.resolve_left nofun
  dsimp only at hle hlt hid
  refine ⟨hid, ⟨hkept.size, ?_, ?_⟩, fun s hs hfits => ?_⟩
  · rw [hspan]
    exact Nat.le_trans (htiles.span_le ⟨turn, hturn, hle⟩) hcount.1
  · have hmem' := (hmem turn).mpr (List.mem_append_left _ hturn)
    by_cases heq : turn.start = start
    · exact .inl ⟨turn, hmem', heq⟩
    · refine .inr ⟨turn, hmem', ⟨by omega, hlt⟩, fun other hother hbefore hbehind => ?_⟩
      exact htiles.unique (List.mem_append_left _ hturn) ((hmem other).mp hother) ⟨hle, hlt⟩ ⟨Nat.le_of_lt hbefore, hbehind⟩
  · obtain ⟨other, hother, hle', hlt'⟩ : ∃ other ∈ turns messages, other.start ≤ s ∧ s < other.stop := by
      cases hfits.place with
      | inl hbegins =>
        obtain ⟨other, hother, rfl⟩ := hbegins
        exact ⟨other, hother, Nat.le_refl _, (htiles.bounds ((hmem other).mp hother)).1⟩
      | inr hsplits =>
        obtain ⟨other, hother, ⟨hbefore, hbehind⟩, -⟩ := hsplits
        exact ⟨other, hother, Nat.le_of_lt hbefore, hbehind⟩
    have hlatest' : other ∈ latest := by
      cases List.mem_append.mp ((hmem other).mp hother) with
      | inl hmem' => exact hmem'
      | inr hmem' =>
        have hreached := htiles.span_lt hmem' hlt'
        have hfull := hcount.2 (List.ne_nil_of_mem hmem')
        have hlimit := hfits.span
        rw [hspan] at hlimit
        omega
    obtain ⟨hfull, hbegins⟩ := hkept.maximal s hs ⟨other, hlatest', hle'⟩ hfits.size
    obtain ⟨first, hfirst, hstart⟩ := hbegins.resolve_left nofun
    refine ⟨hfull, ⟨first, (hmem first).mpr (List.mem_append_left _ hfirst), hstart⟩, ?_⟩
    have hsum := estimate_slice messages hadd (Nat.le_of_lt hs)
    have hsize := hfits.size
    dsimp only at hfull
    omega

end Tail

instance : DebugRepr Nat := ⟨fun n => (toString n).length⟩

def sumSize (views : List (WarpMessageView Nat)) : Nat := (views.map MessageRef.estimateSize).sum

theorem sumSize_append (a b : List (WarpMessageView Nat)) : sumSize (a ++ b) = sumSize a + sumSize b := by
  rw [sumSize, List.map_append, List.sum_append, sumSize, sumSize]

def tightViews : List (WarpMessageView Nat) :=
  project
    [⟨"first", "task", "r", "", some (.userQuery "what is in here ..." 0), 0⟩,
      ⟨"answer", "task", "r", "", some (.agentOutput ""), 0⟩,
      ⟨"second", "task", "r", "", some (.userQuery "and what is in the other one, please .." 0), 0⟩]
    {} fun _ => none

def tightConfig : CompactionConfig := { preserveRecentTokens := some 10 }

theorem select_tight : select tightViews tightConfig ⟨100000, 0, 8000⟩ sumSize = ⟨2, some "second"⟩ :=
  congrArg₂ SelectResult.mk (show (select tightViews tightConfig ⟨100000, 0, 8000⟩ sumSize).headEnd = 2 by decide +kernel)
    (show (select tightViews tightConfig ⟨100000, 0, 8000⟩ sumSize).tailStartId = some "second" by decide +kernel)

theorem select_tail_fits_tight : TailFits tightViews sumSize 10 2 2 :=
  (select_tail_fits sumSize_append select_tight).2.1

/-- The tail could take in the empty answer too and still be within budget and turns. -/
theorem select_tail_not_longest :
    select tightViews tightConfig ⟨100000, 0, 8000⟩ sumSize = ⟨2, some "second"⟩ ∧ 0 < 1 ∧ 1 < 2 ∧
      TailFits tightViews sumSize (tightConfig.preserveRecentBudget (usable tightConfig ⟨100000, 0, 8000⟩))
        tightConfig.tailTurns 1 := by
  refine ⟨select_tight, by decide, by decide, by decide +kernel, by decide +kernel, .inr ?_⟩
  have hturns : turns tightViews = [⟨0, 2, "first"⟩, ⟨2, 3, "second"⟩] := rfl
  rw [SplitsTurn, hturns]
  refine ⟨⟨0, 2, "first"⟩, List.mem_cons_self, ⟨by decide, by decide⟩, fun other hother hbefore _ => ?_⟩
  cases List.mem_cons.mp hother with
  | inl heq => exact heq
  | inr hmem =>
    rw [List.mem_singleton.mp hmem] at hbefore
    exact absurd hbefore (by decide)

end InfiniShell.Compaction
