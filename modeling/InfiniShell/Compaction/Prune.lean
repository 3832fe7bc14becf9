import InfiniShell.Compaction.Commit
import Mathlib.Data.List.Forall2
import Mathlib.Data.List.TakeWhile
import Mathlib.Algebra.GroupWithZero.Nat

namespace InfiniShell.Compaction

def pruneMinimum : Nat := 20000
def pruneProtect : Nat := 40000
def pruneProtectedTools : List String := ["skill"]

structure PruneScan (I C : Type) where
  total : Nat := 0
  pruned : Nat := 0
  toPrune : List (I × C) := []

def PruneScan.add {I C : Type} (s : PruneScan I C) (key : I × C) (estimate : Nat) : PruneScan I C :=
  let total := s.total + estimate
  if total ≤ pruneProtect then { s with total }
  else ⟨total, s.pruned + estimate, s.toPrune ++ [key]⟩

section Scan

variable {M I C : Type} [MessageRef M I C]

/-- The outputs of one message, latest first; `true` ends the whole scan. -/
def pruneOutputs (id : I) : List (ToolOutputRef C) → PruneScan I C → PruneScan I C × Bool
  | [], s => (s, false)
  | tp :: outputs, s =>
    if !tp.completed then pruneOutputs id outputs s
    else if pruneProtectedTools.contains tp.toolName then pruneOutputs id outputs s
    else if tp.alreadyCompacted then (s, true)
    else pruneOutputs id outputs (s.add (id, tp.callId) tp.outputSize)

/-- The messages, latest first, after `userTurnsSeen` user messages. -/
def pruneMessages : List M → Nat → PruneScan I C → PruneScan I C
  | [], _, s => s
  | msg :: earlier, userTurnsSeen, s =>
    let userTurnsSeen := if MessageRef.role msg = .user then userTurnsSeen + 1 else userTurnsSeen
    if userTurnsSeen < 2 then pruneMessages earlier userTurnsSeen s
    else if MessageRef.role msg = .assistant ∧ MessageRef.isSummary msg then s
    else
      match pruneOutputs (MessageRef.id msg) (MessageRef.toolOutputs msg).reverse s with
      | (s, true) => s
      | (s, false) => pruneMessages earlier userTurnsSeen s

def pruneDecisions (messages : List M) : List (I × C) :=
  let s := pruneMessages messages.reverse 0 {}
  if s.pruned > pruneMinimum then s.toPrune else []

end Scan

section Now

variable {P : Type} [DebugRepr P]

/-- `prune` is the field of the configuration. -/
def pruneNow (conversation : AIConversation P) (prune : Bool) (nowMs : Nat) : Nat × AIConversation P :=
  if !prune then (0, conversation)
  else
    let messages := conversation.linearizedMessages
    if messages.isEmpty then (0, conversation)
    else
      let decisions := pruneDecisions (project messages conversation.compactionState (buildToolNameLookup messages))
      if decisions.isEmpty then (0, conversation)
      else
        (decisions.length, { conversation with
          compactionState := decisions.foldl (fun state decision => state.markToolCompacted decision.1 nowMs)
            conversation.compactionState })

end Now

def ToolOutputRef.isEligible (tp : ToolOutputRef C) : Bool :=
  tp.completed && !pruneProtectedTools.contains tp.toolName

section Messages

variable {M I C : Type} [MessageRef M I C]

def isUser (msg : M) : Bool := decide (MessageRef.role msg = .user)

/-- A summary, or a message with an eligible output that is compacted already. -/
def isBoundary (msg : M) : Bool :=
  decide (MessageRef.role msg = .assistant) && MessageRef.isSummary msg ||
    (MessageRef.toolOutputs msg).any fun tp => tp.isEligible && tp.alreadyCompacted

def eligibleSize (msg : M) : Nat :=
  (((MessageRef.toolOutputs msg).filter ToolOutputRef.isEligible).map ToolOutputRef.outputSize).sum

/-- A tool result carries one output, and nothing else carries any. -/
def OneOutput (msg : M) : Prop :=
  if MessageRef.role msg = .tool then (MessageRef.toolOutputs msg).length = 1 else MessageRef.toolOutputs msg = []

/-- The output `tp` of `msg`, with `mid` between it and the turns that start at `turn`. -/
structure Prunable (msg : M) (mid : List M) (turn : M) (rest : List M) (tp : ToolOutputRef C) : Prop where
  output : MessageRef.toolOutputs msg = [tp]
  eligible : tp.isEligible
  turns : isUser turn ∧ rest.countP isUser = 1
  behind : ∀ x ∈ msg :: mid, isBoundary x = false
  exceeds : pruneProtect < (mid.map eligibleSize).sum + tp.outputSize

end Messages

def pastProtect {A : Type} (size : A → Nat) : Nat → List A → List A
  | _, [] => []
  | total, a :: l =>
    if total + size a ≤ pruneProtect then pastProtect size (total + size a) l
    else a :: pastProtect size (total + size a) l

section PastProtect

variable {A : Type} {size : A → Nat}

theorem pastProtect_append (total : Nat) (l l' : List A) :
    pastProtect size total (l ++ l') = pastProtect size total l ++ pastProtect size (total + (l.map size).sum) l' := by
  induction l generalizing total with
  | nil => rfl
  | cons a l ih =>
    rw [List.cons_append, pastProtect, ih, pastProtect, List.map_cons, List.sum_cons, ← Nat.add_assoc]
    split <;> rfl

theorem mem_pastProtect {total : Nat} {l : List A} {a : A} :
    a ∈ pastProtect size total l ↔
      ∃ before after, l = before ++ a :: after ∧ pruneProtect < total + (before.map size).sum + size a := by
  constructor
  · intro h
    induction l generalizing total with
    | nil => cases h
    | cons b l ih =>
      have hlater : a ∈ pastProtect size (total + size b) l →
          ∃ before after, b :: l = before ++ a :: after ∧ pruneProtect < total + (before.map size).sum + size a := by
        intro h
        obtain ⟨before, after, heq, hlt⟩ := ih h
        refine ⟨b :: before, after, by rw [heq, List.cons_append], ?_⟩
        rwa [List.map_cons, List.sum_cons, ← Nat.add_assoc]
      rw [pastProtect] at h
      split at h
      next => exact hlater h
      next hover =>
        cases List.mem_cons.mp h with
        | inl heq => exact ⟨[], l, by rw [heq, List.nil_append], by simpa [heq] using Nat.lt_of_not_le hover⟩
        | inr h => exact hlater h
  · rintro ⟨before, after, rfl, hlt⟩
    rw [pastProtect_append, pastProtect, if_neg (Nat.not_le_of_lt hlt)]
    simp

theorem map_pastProtect (total : Nat) (l : List A) :
    (pastProtect size total l).map size = pastProtect id total (l.map size) := by
  induction l generalizing total with
  | nil => rfl
  | cons a l ih =>
    rw [pastProtect, List.map_cons, pastProtect, id]
    split
    · exact ih _
    · rw [List.map_cons, ih]

theorem foldl_add {I C : Type} (key : A → I × C) (l : List A) (s : PruneScan I C) :
    l.foldl (fun s a => s.add (key a) (size a)) s =
      ⟨s.total + (l.map size).sum, s.pruned + ((pastProtect size s.total l).map size).sum,
        s.toPrune ++ (pastProtect size s.total l).map key⟩ := by
  induction l generalizing s with
  | nil => simp [pastProtect]
  | cons a l ih =>
    rw [List.foldl_cons, ih, PruneScan.add, pastProtect]
    by_cases hle : s.total + size a ≤ pruneProtect
    · simp [hle, Nat.add_assoc]
    · simp [hle, Nat.add_assoc]

end PastProtect

section Window

variable {M I C : Type} [MessageRef M I C]

/-- What is before the last `n` turns, latest first. -/
def beforeTurns : Nat → List M → List M
  | 0, l => l
  | _ + 1, [] => []
  | n + 1, msg :: l => if isUser msg then beforeTurns n l else beforeTurns (n + 1) l

theorem beforeTurns_split {l rest : List M} {turn : M} (hturn : isUser turn) :
    beforeTurns (l.countP isUser + 1) (l ++ turn :: rest) = rest := by
  induction l with
  | nil => rw [List.countP_nil, List.nil_append, beforeTurns, if_pos hturn, beforeTurns]
  | cons msg l ih =>
    rw [List.cons_append, beforeTurns]
    by_cases huser : isUser msg
    · rw [if_pos huser, List.countP_cons_of_pos huser]
      exact ih
    · rw [if_neg huser, List.countP_cons_of_neg huser]
      exact ih

variable {l : List M}

theorem exists_split_of_beforeTurns {n : Nat} (h : beforeTurns (n + 1) l ≠ []) :
    ∃ later turn, l = later ++ turn :: beforeTurns (n + 1) l ∧ isUser turn ∧ later.countP isUser = n := by
  induction l generalizing n with
  | nil => exact absurd rfl h
  | cons msg l ih =>
    rw [beforeTurns] at h ⊢
    by_cases huser : isUser msg
    · rw [if_pos huser] at h ⊢
      cases n with
      | zero => exact ⟨[], msg, by rw [beforeTurns, List.nil_append], huser, rfl⟩
      | succ n =>
        obtain ⟨later, turn, heq, hturn, hcount⟩ := ih h
        exact ⟨msg :: later, turn, congrArg _ heq, hturn, by rw [List.countP_cons_of_pos huser, hcount]⟩
    · rw [if_neg huser] at h ⊢
      obtain ⟨later, turn, heq, hturn, hcount⟩ := ih h
      exact ⟨msg :: later, turn, congrArg _ heq, hturn, by rw [List.countP_cons_of_neg huser, hcount]⟩

def window (messages : List M) : List M :=
  (beforeTurns 2 messages.reverse).takeWhile fun msg => !isBoundary msg

def candidate (msg : M) : Option (M × ToolOutputRef C) :=
  ((MessageRef.toolOutputs msg).filter ToolOutputRef.isEligible).head?.map fun tp => (msg, tp)

def keyOf (p : M × ToolOutputRef C) : I × C := (MessageRef.id p.1, p.2.callId)

def sizeOf (p : M × ToolOutputRef C) : Nat := p.2.outputSize

variable {msg : M}

theorem OneOutput.cases (h : OneOutput msg) : MessageRef.toolOutputs msg = [] ∨
      MessageRef.role msg = .tool ∧ ∃ tp : ToolOutputRef C, MessageRef.toolOutputs msg = [tp] := by
  rw [OneOutput] at h
  split at h
  next hrole => exact .inr ⟨hrole, List.length_eq_one_iff.mp h⟩
  next => exact .inl h

theorem candidate_eq_some (h : OneOutput msg) {p : M × ToolOutputRef C} :
    candidate msg = some p ↔ p.1 = msg ∧ MessageRef.toolOutputs msg = [p.2] ∧ p.2.isEligible := by
  obtain hnone | ⟨-, tp, hone⟩ := h.cases
  · rw [candidate, hnone]
    simp
  · rw [candidate, hone]
    cases heligible : tp.isEligible with
    | false =>
      rw [List.filter_cons_of_neg (by simp [heligible])]
      constructor
      · intro hnil
        cases hnil
      · rintro ⟨-, heq, hp⟩
        rw [← List.singleton_inj.mp heq, heligible] at hp
        cases hp
    | true =>
      rw [List.filter_cons_of_pos heligible]
      constructor
      · intro hsome
        rw [← Option.some.inj hsome]
        exact ⟨rfl, rfl, heligible⟩
      · rintro ⟨hmsg, heq, -⟩
        rw [List.head?_cons, Option.map_some, List.singleton_inj.mp heq, ← hmsg]

theorem candidate_size (h : OneOutput msg) : ((candidate msg).map sizeOf).getD 0 = eligibleSize msg := by
  obtain hnone | ⟨-, tp, hone⟩ := h.cases
  · rw [candidate, eligibleSize, hnone]
    rfl
  · rw [candidate, eligibleSize, hone]
    cases heligible : tp.isEligible with
    | false => rw [List.filter_cons_of_neg (by simp [heligible])]; rfl
    | true => rw [List.filter_cons_of_pos heligible]; rfl

theorem sum_candidates (h : ∀ msg ∈ l, OneOutput msg) :
    ((l.filterMap candidate).map sizeOf).sum = (l.map eligibleSize).sum := by
  induction l with
  | nil => rfl
  | cons msg l ih =>
    have hrest := ih fun m hm => h m (List.mem_cons_of_mem _ hm)
    rw [List.map_cons, List.sum_cons, ← candidate_size (h msg List.mem_cons_self), ← hrest, List.filterMap_cons]
    cases candidate msg with
    | none => simp
    | some p => simp

theorem pruneOutputs_eq (h : OneOutput msg)
    (hsummary : ¬(MessageRef.role msg = .assistant ∧ MessageRef.isSummary msg)) (s : PruneScan I C) :
    pruneOutputs (MessageRef.id msg) (MessageRef.toolOutputs msg).reverse s =
      if isBoundary msg then (s, true)
      else ((candidate msg).toList.foldl (fun s p => s.add (keyOf p) (sizeOf p)) s, false) := by
  have hrole : (decide (MessageRef.role msg = .assistant) && MessageRef.isSummary msg) = false := by
    rw [Bool.eq_false_iff]
    intro htrue
    apply hsummary
    simpa using htrue
  rw [isBoundary, hrole, candidate]
  obtain hnone | ⟨-, tp, hone⟩ := h.cases
  · rw [hnone]
    rfl
  · rw [hone, List.reverse_singleton, pruneOutputs]
    cases hcompleted : tp.completed with
    | false => simp [ToolOutputRef.isEligible, hcompleted, pruneOutputs]
    | true =>
      by_cases hprotected : tp.toolName ∈ pruneProtectedTools
      · simp [ToolOutputRef.isEligible, hcompleted, hprotected, pruneOutputs]
      · cases hcompacted : tp.alreadyCompacted with
        | true => simp [ToolOutputRef.isEligible, hcompleted, hprotected, hcompacted]
        | false => simp [ToolOutputRef.isEligible, hcompleted, hprotected, hcompacted, pruneOutputs, keyOf, sizeOf]

theorem pruneMessages_eq (h : ∀ msg ∈ l, OneOutput msg) {userTurnsSeen : Nat} (hseen : 2 ≤ userTurnsSeen)
    (s : PruneScan I C) :
    pruneMessages l userTurnsSeen s =
      ((l.takeWhile fun msg => !isBoundary msg).filterMap candidate).foldl (fun s p => s.add (keyOf p) (sizeOf p)) s := by
  induction l generalizing userTurnsSeen s with
  | nil => rfl
  | cons msg l ih =>
    have hseen' : 2 ≤ if MessageRef.role msg = .user then userTurnsSeen + 1 else userTurnsSeen := by
      split <;> omega
    have hrest := fun s => ih (fun m hm => h m (List.mem_cons_of_mem _ hm)) hseen' s
    rw [pruneMessages, if_neg (by omega)]
    by_cases hsummary : MessageRef.role msg = .assistant ∧ MessageRef.isSummary msg
    · have hboundary : isBoundary msg = true := by simp [isBoundary, hsummary.1, hsummary.2]
      rw [if_pos hsummary, List.takeWhile_cons_of_neg (by simp [hboundary])]
      rfl
    · rw [if_neg hsummary, pruneOutputs_eq (h msg List.mem_cons_self) hsummary]
      cases hboundary : isBoundary msg with
      | true =>
        rw [if_pos rfl, List.takeWhile_cons_of_neg (by simp [hboundary])]
        rfl
      | false =>
        rw [if_neg Bool.false_ne_true, List.takeWhile_cons_of_pos (by simp [hboundary]), List.filterMap_cons]
        dsimp only
        rw [hrest]
        cases candidate msg <;> rfl

theorem pruneMessages_turns (h : ∀ msg ∈ l, OneOutput msg) {n userTurnsSeen : Nat}
    (hseen : userTurnsSeen + (n + 1) = 2) (s : PruneScan I C) :
    pruneMessages l userTurnsSeen s = pruneMessages (beforeTurns (n + 1) l) 2 s := by
  induction l generalizing n userTurnsSeen with
  | nil => rfl
  | cons msg l ih =>
    have hone : ∀ m ∈ l, OneOutput m := fun m hm => h m (List.mem_cons_of_mem _ hm)
    rw [pruneMessages, beforeTurns]
    by_cases huser : MessageRef.role msg = .user
    · have huser' : isUser msg = true := decide_eq_true huser
      rw [if_pos huser', if_pos huser]
      cases n with
      | succ n =>
        rw [if_pos (by omega)]
        exact ih hone (by omega)
      | zero =>
        have hempty : MessageRef.toolOutputs msg = [] := by
          obtain hnone | ⟨hrole, -⟩ := (h msg List.mem_cons_self).cases
          · exact hnone
          · rw [huser] at hrole
            cases hrole
        have hrole : ¬(MessageRef.role msg = .assistant ∧ MessageRef.isSummary msg) := by
          rw [huser]
          rintro ⟨hrole, -⟩
          cases hrole
        rw [if_neg (by omega), if_neg hrole, hempty, beforeTurns]
        have htwo : userTurnsSeen + 1 = 2 := by omega
        rw [htwo]
        rfl
    · have huser' : ¬isUser msg = true := fun h => huser (of_decide_eq_true h)
      rw [if_neg huser', if_neg huser, if_pos (by omega)]
      exact ih hone hseen

variable {messages : List M}

theorem oneOutput_beforeTurns (h : ∀ msg ∈ messages, OneOutput msg) :
    ∀ msg ∈ beforeTurns 2 messages.reverse, OneOutput msg := by
  intro msg hm
  obtain ⟨later, turn, heq, -⟩ := exists_split_of_beforeTurns (List.ne_nil_of_mem hm)
  apply h
  rw [← List.mem_reverse, heq]
  exact List.mem_append_right _ (List.mem_cons_of_mem _ hm)

def chosen (messages : List M) : List (M × ToolOutputRef C) :=
  pastProtect sizeOf 0 ((window messages).filterMap candidate)

theorem pruneDecisions_eq (h : ∀ msg ∈ messages, OneOutput msg) : pruneDecisions messages =
      if pruneMinimum < ((chosen messages).map sizeOf).sum then (chosen messages).map keyOf else [] := by
  have hone : ∀ msg ∈ messages.reverse, OneOutput msg := fun msg hm => h msg (List.mem_reverse.mp hm)
  rw [pruneDecisions, pruneMessages_turns (n := 1) hone rfl, pruneMessages_eq (oneOutput_beforeTurns h) (Nat.le_refl _), foldl_add keyOf]
  simp only [Nat.zero_add, List.nil_append]
  rfl

theorem map_fst_candidates : ((l.filterMap candidate).map Prod.fst).Sublist l := by
  induction l with
  | nil => exact .slnil
  | cons msg l ih =>
    rw [List.filterMap_cons]
    cases hcandidate : candidate msg with
    | none => exact ih.cons msg
    | some p =>
      obtain ⟨tp, -, htp⟩ := Option.map_eq_some_iff.mp hcandidate
      rw [List.map_cons, ← htp]
      exact ih.cons_cons msg

theorem pastProtect_sublist {A : Type} (size : A → Nat) (total : Nat) (l : List A) :
    (pastProtect size total l).Sublist l := by
  induction l generalizing total with
  | nil => exact .slnil
  | cons a l ih =>
    rw [pastProtect]
    split
    · exact (ih _).cons a
    · exact (ih _).cons_cons a

theorem beforeTurns_sublist (n : Nat) (l : List M) : (beforeTurns n l).Sublist l := by
  induction l generalizing n with
  | nil => cases n <;> exact .slnil
  | cons msg l ih =>
    cases n with
    | zero => exact .refl _
    | succ n =>
      rw [beforeTurns]
      split
      · exact (ih n).cons msg
      · exact (ih (n + 1)).cons msg

theorem chosen_sublist (messages : List M) : ((chosen messages).map Prod.fst).Sublist messages.reverse :=
  ((pastProtect_sublist _ _ _).map _).trans
    (map_fst_candidates.trans ((List.takeWhile_sublist _).trans (beforeTurns_sublist _ _)))

theorem split_of_window {messages newer older : List M} (h : window messages = newer ++ msg :: older) :
    ∃ before turn rest, messages = before ++ msg :: (newer.reverse ++ turn :: rest) ∧
      (isUser turn ∧ rest.countP isUser = 1) ∧ ∀ x ∈ msg :: newer.reverse, isBoundary x = false := by
  obtain ⟨more, hbefore⟩ : ∃ more, beforeTurns 2 messages.reverse = newer ++ msg :: (older ++ more) := by
    refine ⟨(beforeTurns 2 messages.reverse).dropWhile fun msg => !isBoundary msg, ?_⟩
    rw [← List.cons_append, ← List.append_assoc, ← h, window, List.takeWhile_append_dropWhile]
  have hne : beforeTurns (1 + 1) messages.reverse ≠ [] := by
    rw [hbefore]
    simp
  obtain ⟨later, turn, heq, hturn, hcount⟩ := exists_split_of_beforeTurns hne
  rw [hbefore] at heq
  have heq' := congrArg List.reverse heq
  rw [List.reverse_reverse] at heq'
  refine ⟨(older ++ more).reverse, turn, later.reverse, heq'.trans (by simp), ⟨hturn, ?_⟩, fun x hx => ?_⟩
  · rw [List.countP_reverse, hcount]
  · have hmem : x ∈ window messages := by
      rw [h]
      cases List.mem_cons.mp hx with
      | inl heq => simp [heq]
      | inr hx => exact List.mem_append_left _ (List.mem_reverse.mp hx)
    simpa using List.mem_takeWhile_imp hmem

theorem window_of_split {messages before mid rest : List M} {msg turn : M}
    (heq : messages = before ++ msg :: (mid ++ turn :: rest)) (hturn : isUser turn) (hcount : rest.countP isUser = 1)
    (hbehind : ∀ x ∈ msg :: mid, isBoundary x = false) :
    ∃ older, window messages = mid.reverse ++ msg :: older := by
  have hreverse : messages.reverse = rest.reverse ++ turn :: (mid.reverse ++ msg :: before.reverse) := by
    rw [heq]
    simp
  have hbefore : beforeTurns (rest.reverse.countP isUser + 1)
      (rest.reverse ++ turn :: (mid.reverse ++ msg :: before.reverse)) = mid.reverse ++ msg :: before.reverse :=
    beforeTurns_split hturn
  rw [List.countP_reverse, hcount, ← hreverse] at hbefore
  have hmid : ∀ x ∈ mid.reverse, (!isBoundary x) = true := by
    intro x hx
    simp [hbehind x (List.mem_cons_of_mem _ (List.mem_reverse.mp hx))]
  refine ⟨before.reverse.takeWhile fun msg => !isBoundary msg, ?_⟩
  rw [window, hbefore, List.takeWhile_append_of_pos hmid,
    List.takeWhile_cons_of_pos (by simp [hbehind msg List.mem_cons_self])]

theorem mem_chosen (h : ∀ msg ∈ messages, OneOutput msg) {tp : ToolOutputRef C} :
    (msg, tp) ∈ chosen messages ↔ ∃ before mid turn rest,
      messages = before ++ msg :: (mid ++ turn :: rest) ∧ Prunable msg mid turn rest tp := by
  rw [chosen, mem_pastProtect]
  constructor
  · rintro ⟨newer, older, heq, hover⟩
    obtain ⟨l, l', hwindow, hnewer, hrest⟩ := List.filterMap_eq_append_iff.mp heq
    obtain ⟨skipped, msg', l'', hl', hskipped, hmsg, -⟩ := List.filterMap_eq_cons_iff.mp hrest
    rw [hl', ← List.append_assoc] at hwindow
    obtain ⟨before, turn, rest, hmessages, hturns, hbehind⟩ := split_of_window hwindow
    have hone : ∀ m ∈ msg' :: (l ++ skipped), OneOutput m := by
      intro m hm
      apply h
      rw [hmessages]
      cases List.mem_cons.mp hm with
      | inl heq => simp [heq]
      | inr hm =>
        apply List.mem_append_right _ (List.mem_cons_of_mem _ (List.mem_append_left _ _))
        exact List.mem_reverse.mpr hm
    obtain ⟨heq', houtput, heligible⟩ := (candidate_eq_some (hone msg' List.mem_cons_self)).mp hmsg
    dsimp only at heq' houtput heligible
    subst heq'
    refine ⟨before, _, turn, rest, hmessages, houtput, heligible, hturns, hbehind, ?_⟩
    have hsum := sum_candidates fun m hm => hone m (List.mem_cons_of_mem _ hm)
    have hnone : skipped.filterMap candidate = [] := List.filterMap_eq_nil_iff.mpr hskipped
    rw [List.filterMap_append, hnone, List.append_nil, hnewer] at hsum
    rw [List.map_reverse, List.sum_reverse, ← hsum]
    rw [Nat.zero_add] at hover
    exact hover
  · rintro ⟨before, mid, turn, rest, hmessages, hprunable⟩
    obtain ⟨older, hwindow⟩ := window_of_split hmessages hprunable.turns.1 hprunable.turns.2 hprunable.behind
    have hone : ∀ m ∈ mid.reverse, OneOutput m := by
      intro m hm
      apply h
      rw [hmessages]
      simp [List.mem_reverse.mp hm]
    have hmsg : candidate msg = some (msg, tp) :=
      (candidate_eq_some (h msg (by simp [hmessages]))).mpr ⟨rfl, hprunable.output, hprunable.eligible⟩
    refine ⟨mid.reverse.filterMap candidate, older.filterMap candidate, ?_, ?_⟩
    · rw [hwindow, List.filterMap_append, List.filterMap_cons_some hmsg]
    · rw [sum_candidates hone, List.map_reverse, List.sum_reverse, Nat.zero_add]
      exact hprunable.exceeds

end Window

section Marked

variable {M I C : Type} [MessageRef M I C] {selected : List (I × C)}

/-- `msg'` is `msg` after its selected outputs, and maybe others, were marked compacted. -/
structure Marked (selected : List (I × C)) (msg msg' : M) : Prop where
  id : MessageRef.id msg' = MessageRef.id msg
  role : MessageRef.role msg' = MessageRef.role msg
  isSummary : MessageRef.isSummary msg' = MessageRef.isSummary msg
  outputs : List.Forall₂ (fun tp tp' : ToolOutputRef C =>
    tp = { tp' with alreadyCompacted := tp.alreadyCompacted } ∧
      (tp.alreadyCompacted ∨ (MessageRef.id msg, tp.callId) ∈ selected → tp'.alreadyCompacted))
    (MessageRef.toolOutputs msg) (MessageRef.toolOutputs msg')

namespace Marked

variable {msg msg' : M} (h : Marked selected msg msg')
include h

theorem oneOutput (hone : OneOutput msg) : OneOutput msg' := by
  have hlength := h.outputs.length_eq
  rw [OneOutput] at hone ⊢
  rw [h.role]
  split at hone
  next hrole => rw [if_pos hrole, ← hlength, hone]
  next hrole =>
    rw [if_neg hrole]
    exact List.eq_nil_of_length_eq_zero (by rw [← hlength, hone, List.length_nil])

theorem isUser : Compaction.isUser msg' = Compaction.isUser msg := by
  rw [Compaction.isUser, h.role, Compaction.isUser]

variable (hone : OneOutput msg)
include hone

theorem output : MessageRef.toolOutputs msg = [] ∧ MessageRef.toolOutputs msg' = [] ∨
      ∃ tp tp' : ToolOutputRef C, MessageRef.toolOutputs msg = [tp] ∧ MessageRef.toolOutputs msg' = [tp'] ∧
        tp'.isEligible = tp.isEligible ∧ tp'.outputSize = tp.outputSize ∧
          (tp.alreadyCompacted ∨ (MessageRef.id msg, tp.callId) ∈ selected → tp'.alreadyCompacted) := by
  have houtputs := h.outputs
  obtain hnone | ⟨-, tp, hsingle⟩ := hone.cases
  · rw [hnone] at houtputs
    exact .inl ⟨hnone, List.forall₂_nil_left_iff.mp houtputs⟩
  · rw [hsingle] at houtputs
    obtain ⟨tp', l, ⟨hsame, hmarked⟩, hl, heq⟩ := List.forall₂_cons_left_iff.mp houtputs
    rw [List.forall₂_nil_left_iff.mp hl] at heq
    refine .inr ⟨tp, tp', hsingle, heq, ?_, ?_, hmarked⟩
    · rw [hsame]
      rfl
    · rw [hsame]

theorem boundary (hboundary : isBoundary msg) : isBoundary msg' := by
  rw [isBoundary] at hboundary ⊢
  rw [h.role, h.isSummary]
  obtain ⟨hnone, hnone'⟩ | ⟨tp, tp', hsingle, hsingle', heligible, -, hmarked⟩ := h.output hone
  · rw [hnone] at hboundary
    rw [hnone']
    exact hboundary
  · rw [hsingle] at hboundary
    rw [hsingle']
    simp only [List.any_cons, List.any_nil, Bool.or_false, Bool.or_eq_true, Bool.and_eq_true] at hboundary ⊢
    rw [heligible]
    exact hboundary.imp_right fun houtput => ⟨houtput.1, hmarked (.inl houtput.2)⟩

theorem candidate_size : (candidate msg').map sizeOf = (candidate msg).map sizeOf := by
  rw [candidate, candidate]
  obtain ⟨hnone, hnone'⟩ | ⟨tp, tp', hsingle, hsingle', heligible, hsize, -⟩ := h.output hone
  · rw [hnone, hnone']
    rfl
  · rw [hsingle, hsingle', List.filter_singleton, List.filter_singleton, heligible]
    cases tp.isEligible with
    | false => rfl
    | true => exact congrArg some hsize

theorem boundary_of_selected {p : M × ToolOutputRef C}
    (hp : candidate msg = some p) (hselected : keyOf p ∈ selected) : isBoundary msg' := by
  obtain ⟨hmsg, houtput, heligible⟩ := (candidate_eq_some hone).mp hp
  rw [keyOf, hmsg] at hselected
  obtain ⟨hnone, -⟩ | ⟨tp, tp', hsingle, hsingle', heligible', -, hmarked⟩ := h.output hone
  · rw [hnone] at houtput
    cases houtput
  · rw [hsingle] at houtput
    rw [List.singleton_inj.mp houtput] at hmarked heligible'
    rw [isBoundary, hsingle']
    simp [heligible', heligible, hmarked (.inr hselected)]

end Marked

variable {l l' : List M}

section

variable (h : List.Forall₂ (Marked selected) l l')
include h

theorem marked_sizes (hone : ∀ msg ∈ l, OneOutput msg) :
    (l'.filterMap candidate).map sizeOf = (l.filterMap candidate).map sizeOf := by
  induction h with
  | nil => rfl
  | cons hmsg _ ih =>
    have hsize := hmsg.candidate_size (hone _ List.mem_cons_self)
    have hrest := ih fun m hm => hone m (List.mem_cons_of_mem _ hm)
    rw [List.filterMap_cons, List.filterMap_cons]
    split <;> split <;> simp_all

theorem marked_beforeTurns (n : Nat) :
    List.Forall₂ (Marked selected) (beforeTurns n l) (beforeTurns n l') := by
  induction h generalizing n with
  | nil => cases n <;> exact .nil
  | cons hmsg hl ih =>
    cases n with
    | zero => exact .cons hmsg hl
    | succ n =>
      rw [beforeTurns, beforeTurns, hmsg.isUser]
      split
      · exact ih n
      · exact ih (n + 1)

theorem marked_window (hone : ∀ msg ∈ l, OneOutput msg) :
    ∃ newer older, (l.takeWhile fun msg => !isBoundary msg) = newer ++ older ∧
      List.Forall₂ (Marked selected) newer (l'.takeWhile fun msg => !isBoundary msg) ∧
      ∀ msg ∈ newer, ∀ p, candidate msg = some p → keyOf p ∉ selected := by
  induction h with
  | nil => exact ⟨[], [], rfl, .nil, nofun⟩
  | cons hmsg _ ih =>
    rename_i msg msg' l l' _
    obtain ⟨newer, older, heq, hmarked, hnew⟩ := ih fun m hm => hone m (List.mem_cons_of_mem _ hm)
    have hone' := hone msg List.mem_cons_self
    cases hboundary' : isBoundary msg' with
    | true =>
      have hstop : (msg' :: l').takeWhile (fun msg => !isBoundary msg) = [] :=
        List.takeWhile_cons_of_neg (by simp [hboundary'])
      rw [hstop]
      exact ⟨[], _, rfl, .nil, nofun⟩
    | false =>
      have hboundary : isBoundary msg = false := by
        rw [Bool.eq_false_iff]
        intro htrue
        rw [hmsg.boundary hone' htrue] at hboundary'
        cases hboundary'
      rw [List.takeWhile_cons_of_pos (by simp [hboundary]), List.takeWhile_cons_of_pos (by simp [hboundary']), heq]
      refine ⟨msg :: newer, older, rfl, .cons hmsg hmarked, fun m hm p hp hselected => ?_⟩
      cases List.mem_cons.mp hm with
      | inr hm => exact hnew m hm p hp hselected
      | inl heq =>
        rw [heq] at hp
        rw [hmsg.boundary_of_selected hone' hp hselected] at hboundary'
        cases hboundary'

end

theorem pruneDecisions_marked {messages messages' : List M} (h : ∀ msg ∈ messages, OneOutput msg)
    (hmarked : List.Forall₂ (Marked (pruneDecisions messages)) messages messages') :
    pruneDecisions messages' = [] := by
  have hone' : ∀ msg ∈ messages', OneOutput msg := by
    intro msg' hmsg'
    obtain ⟨i, hi, rfl⟩ := List.getElem_of_mem hmsg'
    have hlength := hmarked.length_eq
    exact (hmarked.get (by omega) hi).oneOutput (h _ (List.get_mem _ _))
  have hreverse := marked_beforeTurns (List.forall₂_reverse_iff.mpr hmarked) 2
  obtain ⟨newer, older, heq, hnewer, hnew⟩ := marked_window hreverse (oneOutput_beforeTurns h)
  have hone'' : ∀ msg ∈ newer, OneOutput msg := by
    intro msg hmsg
    have hmem : msg ∈ window messages := by
      rw [window, heq]
      exact List.mem_append_left _ hmsg
    exact oneOutput_beforeTurns h msg ((List.takeWhile_sublist _).mem hmem)
  have hsizes := marked_sizes hnewer hone''
  have hchosen : chosen messages = pastProtect sizeOf 0 (newer.filterMap candidate) ++ pastProtect sizeOf
      (0 + ((newer.filterMap candidate).map sizeOf).sum) (older.filterMap candidate) := by
    rw [chosen, window, heq, List.filterMap_append, pastProtect_append]
  have hchosen' : (chosen messages').map sizeOf = (pastProtect sizeOf 0 (newer.filterMap candidate)).map sizeOf := by
    rw [chosen, map_pastProtect, window, hsizes, map_pastProtect]
  rw [pruneDecisions_eq hone', hchosen', if_neg]
  rw [pruneDecisions_eq h] at hnew
  by_cases hmany : pruneMinimum < ((chosen messages).map sizeOf).sum
  · have hnone : pastProtect sizeOf 0 (newer.filterMap candidate) = [] := by
      rw [List.eq_nil_iff_forall_not_mem]
      intro p hp
      obtain ⟨before, after, hsplit, -⟩ := mem_pastProtect.mp hp
      obtain ⟨msg, hmsg, hcandidate⟩ := List.mem_filterMap.mp (show p ∈ newer.filterMap candidate by simp [hsplit])
      apply hnew msg hmsg p hcandidate
      rw [if_pos hmany, hchosen]
      exact List.mem_map_of_mem (List.mem_append_left _ hp)
    rw [hnone]
    exact Nat.not_lt_zero _
  · rw [hchosen, List.map_append, List.sum_append] at hmany
    omega

/-- The scan selects what is prunable, if that is more than the minimum, and after the marking nothing. -/
theorem prune_contract {messages : List M} (h : ∀ msg ∈ messages, OneOutput msg) :
    (∃ outputs : List (M × ToolOutputRef C),
      (outputs.map Prod.fst).Sublist messages.reverse ∧
      (∀ msg tp, (msg, tp) ∈ outputs ↔ ∃ before mid turn rest,
        messages = before ++ msg :: (mid ++ turn :: rest) ∧ Prunable msg mid turn rest tp) ∧
      pruneDecisions messages =
        if pruneMinimum < (outputs.map sizeOf).sum then outputs.map keyOf else []) ∧
    ∀ messages', List.Forall₂ (Marked (pruneDecisions messages)) messages messages' → pruneDecisions messages' = [] :=
  ⟨⟨chosen messages, chosen_sublist messages, fun _ _ => mem_chosen h, pruneDecisions_eq h⟩,
    fun _ hmarked => pruneDecisions_marked h hmarked⟩

end Marked

section Now

variable {P : Type} [DebugRepr P]

def markDecisions (state : CompactionState) (decisions : List (String × String)) (nowMs : Nat) : CompactionState :=
  decisions.foldl (fun state decision => state.markToolCompacted decision.1 nowMs) state

theorem oneOutput_view (view : WarpMessageView P) : OneOutput view := by
  rw [OneOutput]
  change if view.role = .tool then view.toolOutputs.length = 1 else view.toolOutputs = []
  rw [WarpMessageView.role, WarpMessageView.toolOutputs]
  split <;> simp_all

end Now

/-- A result by the length of its `Debug` text. -/
structure Blob where
  chars : Nat

instance : DebugRepr Blob := ⟨Blob.chars⟩

def skillViews : List (WarpMessageView Blob) :=
  let messages : List (Message Blob) :=
    [⟨"load", "task", "r", "", some (.toolCall "skill-call" (some (.readSkill ⟨4⟩))), ⟨0⟩⟩,
      ⟨"old", "task", "r", "", some (.toolCallResult "call" (some ⟨280000⟩) ⟨0⟩), ⟨0⟩⟩,
      ⟨"skill", "task", "r", "", some (.toolCallResult "skill-call" (some ⟨400⟩) ⟨0⟩), ⟨0⟩⟩,
      ⟨"first", "task", "r", "", some (.userQuery "go on" ⟨0⟩), ⟨0⟩⟩,
      ⟨"second", "task", "r", "", some (.userQuery "and on" ⟨0⟩), ⟨0⟩⟩]
  project messages (({} : CompactionState).markToolCompacted "skill" 1) (buildToolNameLookup messages)

theorem prune_contract_skill :
    pruneDecisions skillViews = [("old", "call")] ∧
      ∀ views, List.Forall₂ (Marked (pruneDecisions skillViews)) skillViews views → pruneDecisions views = [] :=
  ⟨by decide +kernel, (prune_contract fun view _ => oneOutput_view view).2⟩

/-- The output behind the compacted one is selected, and no newer output is eligible. -/
theorem prune_past_compacted :
    pruneDecisions skillViews = [("old", "call")] ∧
      skillViews.map isUser = [false, false, false, true, true] ∧
      skillViews.map (fun view => view.toolOutputs.map fun tp => (tp.callId, tp.alreadyCompacted)) =
        [[], [("call", false)], [("skill-call", true)], [], []] ∧
      skillViews.map eligibleSize = [0, 70000, 0, 0, 0] := by
  decide +kernel

end InfiniShell.Compaction
