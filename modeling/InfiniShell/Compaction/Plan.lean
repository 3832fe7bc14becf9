import InfiniShell.Compaction.State
import Mathlib.Algebra.GroupWithZero.Nat
import Mathlib.Algebra.Group.Nat.Defs

namespace InfiniShell.Compaction

variable {P : Type}

/-- The range of a summary request, fixed before the request is sent. -/
structure CompactionPlan (P : Type) where
  headMessageIds : List String
  tailStartId : Option String
  anchorMessageId : String
  previousSummary : Option String
  maxOutputTokens : Nat
  sourceMessages : List (Message P)
  originalMessageIds : List String
  originalTaskIds : List String
  previousSummaryId : Option String
deriving DecidableEq

/-- `Iterator::rposition`. -/
def rposition {α : Type} (p : α → Bool) : List α → Option Nat
  | [] => none
  | x :: xs =>
    match rposition p xs with
    | some i => some (i + 1)
    | none => if p x then some 0 else none

variable {α : Type} {p : α → Bool} {l : List α}

theorem rposition_of_mem {y : α} (h : y ∈ l) (hy : p y = true) : ∃ i, rposition p l = some i := by
  induction l with
  | nil => cases h
  | cons z l ih =>
    cases hr : rposition p l with
    | some i => exact ⟨i + 1, by simp [rposition, hr]⟩
    | none =>
      cases h with
      | head => exact ⟨0, by simp [rposition, hr, hy]⟩
      | tail _ h =>
        obtain ⟨i, hi⟩ := ih h
        rw [hr] at hi
        cases hi

theorem mem_take_rposition {x y : α} (h : [x, y].Sublist l)
    (hy : p y = true) : ∃ i, rposition p l = some i ∧ x ∈ l.take (i + 1) := by
  induction l with
  | nil => cases h
  | cons z l ih =>
    cases h with
    | cons _ h =>
      obtain ⟨i, hi, hx⟩ := ih h
      exact ⟨i + 1, by simp [rposition, hi], List.mem_cons_of_mem z hx⟩
    | cons_cons _ h =>
      obtain ⟨i, hi⟩ := rposition_of_mem (List.singleton_sublist.mp h) hy
      exact ⟨i + 1, by simp [rposition, hi], List.mem_cons_self⟩

namespace CompactionPlan

def covers (plan : CompactionPlan P) (m : Message P) : Bool := plan.headMessageIds.contains m.id

def headEnd [DecidableEq P] (plan : CompactionPlan P) (messages : List (Message P)) : Option Nat :=
  let count := plan.sourceMessages.length
  if messages.length ≥ count ∧ ((messages.take count).zip plan.sourceMessages).all fun (c, o) => c = o then
    some count
  else none

def isCurrent [DecidableEq P] (plan : CompactionPlan P) (messages : List (Message P))
    (state : CompactionState) : Bool :=
  if state.previousSummaryId ≠ plan.previousSummaryId ∨ state.previousSummary ≠ plan.previousSummary then
    false
  else
    let selected := messages.filter plan.covers
    if plan.headEnd selected ≠ some selected.length then false
    else
      match rposition plan.covers messages with
      | none => false
      | some lastHeadPosition =>
        -- A message put into the range meanwhile took no part in the summary.
        (messages.take (lastHeadPosition + 1)).all fun m =>
          !plan.originalTaskIds.contains m.taskId || plan.originalMessageIds.contains m.id

def isNewMessage (plan : CompactionPlan P) (messageId : String) : Bool :=
  !plan.originalMessageIds.contains messageId

theorem headEnd_eq_length [DecidableEq P] (plan : CompactionPlan P) (messages : List (Message P)) :
    plan.headEnd messages = some messages.length ↔ messages = plan.sourceMessages := by
  have hall : ∀ {l l' : List (Message P)}, l.length = l'.length →
      ((l.zip l').all (fun (c, o) => c = o) = true ↔ l = l') := by
    intro l
    induction l with
    | nil => intro l' hl; simp [List.eq_nil_of_length_eq_zero hl.symm]
    | cons m l ih =>
      intro l' hl
      cases l' with
      | nil => cases hl
      | cons m' l' => simp [← ih (Nat.succ.inj hl)]
  simp only [headEnd]
  constructor
  · intro h
    split at h
    next hc =>
      have hl := Option.some.inj h
      rw [List.take_of_length_le (Nat.le_of_eq hl.symm)] at hc
      exact (hall hl.symm).mp hc.2
    next => cases h
  · intro h
    subst h
    simp [hall rfl]

variable {plan : CompactionPlan P} {messages : List (Message P)} {state : CompactionState}

theorem isCurrent_spec [DecidableEq P] (h : plan.isCurrent messages state = true) :
    state.previousSummaryId = plan.previousSummaryId ∧ state.previousSummary = plan.previousSummary ∧
      messages.filter plan.covers = plan.sourceMessages ∧
        ∀ last, rposition plan.covers messages = some last →
          ∀ m ∈ messages.take (last + 1),
            m.taskId ∈ plan.originalTaskIds → m.id ∈ plan.originalMessageIds := by
  simp only [isCurrent] at h
  by_cases hs : state.previousSummaryId ≠ plan.previousSummaryId ∨ state.previousSummary ≠ plan.previousSummary
  · rw [if_pos hs] at h
    cases h
  · rw [if_neg hs] at h
    by_cases hh : plan.headEnd (messages.filter plan.covers) ≠ some (messages.filter plan.covers).length
    · rw [if_pos hh] at h
      cases h
    · rw [if_neg hh] at h
      have hsel := (headEnd_eq_length plan _).mp (not_not.mp hh)
      refine ⟨not_not.mp (not_or.mp hs).1, not_not.mp (not_or.mp hs).2, hsel, ?_⟩
      intro last hlast m hm htask
      simp only [hlast, List.all_eq_true, Bool.or_eq_true, Bool.not_eq_true',
        List.contains_eq_mem, decide_eq_true_eq, decide_eq_false_iff_not] at h
      exact (h m hm).resolve_left (not_not_intro htask)

theorem original_of_before_head [DecidableEq P] (h : plan.isCurrent messages state = true) {m head : Message P}
    (hm : [m, head].Sublist messages) (hhead : head.id ∈ plan.headMessageIds)
    (htask : m.taskId ∈ plan.originalTaskIds) : m.id ∈ plan.originalMessageIds := by
  obtain ⟨i, hi, hmem⟩ := mem_take_rposition (p := plan.covers) hm (by simpa [covers] using hhead)
  exact (isCurrent_spec h).2.2.2 i hi m hmem htask

end CompactionPlan

def pendingToolCalls (hidden : List String) : List (Message P) → List (String × String) → List (String × String)
  | [], pending => pending
  | m :: messages, pending =>
    if hidden.contains m.id then pendingToolCalls hidden messages pending
    else
      let pending := (m.openedToolCall.elim pending fun call => call :: pending)
      pendingToolCalls hidden messages
        (m.closedToolCall.elim pending fun call => pending.filter (· ≠ call))

def hasClosedToolGroups (messages : List (Message P)) (hidden : List String) : Bool :=
  (pendingToolCalls hidden messages []).isEmpty

def candidateEnds (headEnd length : Nat) : List Nat :=
  (List.range' 1 headEnd).reverse ++ List.range' (headEnd + 1) (length - headEnd)

def atUserBoundary (messages : List (Message P)) (hidden : List String) (stop : Nat) : Bool :=
  messages[stop]?.all fun m => m.isUserQuery && !hidden.contains m.id

def planUpTo (messages : List (Message P)) (state : CompactionState) (model : ModelLimit)
    (first : Message P) (stop : Nat) : CompactionPlan P where
  headMessageIds := (messages.take stop).map Message.id
  tailStartId := messages[stop]?.map Message.id
  anchorMessageId := first.id
  previousSummary := state.previousSummary
  maxOutputTokens := min model.maxOutput (2 ^ 32 - 1)
  sourceMessages := messages.take stop
  originalMessageIds := messages.map Message.id
  originalTaskIds := messages.map Message.taskId
  previousSummaryId := state.previousSummaryId

/-- `fits` checks the whole summary request of a candidate. -/
def preparePlan [DebugRepr P] (messages : List (Message P)) (state : CompactionState)
    (cfg : CompactionConfig) (model : ModelLimit) (fits : CompactionPlan P → Bool) :
    Option (CompactionPlan P) :=
  let hidden := state.hiddenMessageIds
  let visible := messages.filter fun m => !hidden.contains m.id
  match messages with
  | [] => none
  | first :: _ =>
    if visible.isEmpty then none
    else
      let views := project visible state (buildToolNameLookup visible)
      let selected := select views cfg model fun slice => (slice.map MessageRef.estimateSize).sum
      let headEnd :=
        (visible[selected.headEnd]?.bind fun tail => messages.findIdx? (·.id = tail.id)).getD
          messages.length
      (candidateEnds headEnd messages.length).findSome? fun stop =>
        if !atUserBoundary messages hidden stop || !hasClosedToolGroups (messages.take stop) hidden then none
        else if !(messages.take stop).any (fun m => !hidden.contains m.id && m.isSummarizable) then none
        else
          let plan := planUpTo messages state model first stop
          if fits plan then some plan else none

theorem pendingToolCalls_append (hidden : List String) (before after : List (Message P))
    (pending : List (String × String)) :
    pendingToolCalls hidden (before ++ after) pending =
      pendingToolCalls hidden after (pendingToolCalls hidden before pending) := by
  induction before generalizing pending with
  | nil => rfl
  | cons m before ih =>
    simp only [List.cons_append, pendingToolCalls]
    split
    next => exact ih _
    next => exact ih _

variable {hidden : List String} {messages : List (Message P)} {call : String × String}

theorem pendingToolCalls_of_mem {pending : List (String × String)} (hcall : call ∈ pending)
    (hopen : ∀ m ∈ messages, m.closedToolCall ≠ some call) :
    call ∈ pendingToolCalls hidden messages pending := by
  induction messages generalizing pending with
  | nil => exact hcall
  | cons m messages ih =>
    have hrest := fun r hr => hopen r (List.mem_cons_of_mem m hr)
    simp only [pendingToolCalls]
    split
    next => exact ih hcall hrest
    next =>
      have hopened : call ∈ m.openedToolCall.elim pending fun c => c :: pending := by
        cases m.openedToolCall with
        | none => exact hcall
        | some c => exact List.mem_cons_of_mem c hcall
      apply ih _ hrest
      cases hc : m.closedToolCall with
      | none => exact hopened
      | some c =>
        have hne : call ≠ c := fun he => hopen m List.mem_cons_self (by rw [hc, he])
        exact List.mem_filter.mpr ⟨hopened, decide_eq_true hne⟩

theorem result_of_closed (h : hasClosedToolGroups messages hidden = true) {m : Message P}
    (hm : m ∈ messages) (hvisible : m.id ∉ hidden) (hcall : m.openedToolCall = some call) :
    ∃ r, [m, r].Sublist messages ∧ r.closedToolCall = some call := by
  obtain ⟨before, after, rfl⟩ := List.append_of_mem hm
  by_contra hnone
  have hafter : ∀ r ∈ after, r.closedToolCall ≠ some call := by
    intro r hr hclosed
    apply hnone
    have hs : [m, r].Sublist (m :: after) := (List.singleton_sublist.mpr hr).cons_cons m
    exact ⟨r, hs.trans (List.sublist_append_right before _), hclosed⟩
  have hpending : call ∈ pendingToolCalls hidden after (call :: pendingToolCalls hidden before []) :=
    pendingToolCalls_of_mem List.mem_cons_self hafter
  simp only [hasClosedToolGroups, pendingToolCalls_append, pendingToolCalls, hcall,
    Message.not_closed_of_opened hcall, List.contains_eq_mem, hvisible, List.isEmpty_iff,
    Option.elim, decide_false, Bool.false_eq_true, if_false] at h
  rw [h] at hpending
  cases hpending

theorem pos_of_mem_candidateEnds {headEnd length stop : Nat} (h : stop ∈ candidateEnds headEnd length) :
    0 < stop := by
  simp only [candidateEnds, List.mem_append, List.mem_reverse, List.mem_range'_1] at h
  omega

theorem preparePlan_spec [DebugRepr P] {state : CompactionState}
    {cfg : CompactionConfig} {model : ModelLimit} {fits : CompactionPlan P → Bool}
    {plan : CompactionPlan P} (h : preparePlan messages state cfg model fits = some plan) :
    ∃ first stop, messages.head? = some first ∧ 0 < stop ∧ plan = planUpTo messages state model first stop ∧
      hasClosedToolGroups (messages.take stop) state.hiddenMessageIds = true := by
  unfold preparePlan at h
  cases messages with
  | nil => cases h
  | cons first rest =>
    simp only at h
    split at h
    next => cases h
    next =>
      obtain ⟨stop, hstop, h⟩ := List.exists_of_findSome?_eq_some h
      split at h
      next => cases h
      next hends =>
        split at h
        next => cases h
        next =>
          split at h
          next =>
            refine ⟨first, stop, rfl, pos_of_mem_candidateEnds hstop, (Option.some.inj h).symm, ?_⟩
            simp only [Bool.or_eq_true, Bool.not_eq_true', not_or, Bool.not_eq_false] at hends
            exact hends.2
          next => cases h

end InfiniShell.Compaction
