import InfiniShell.Compaction.Plan
import InfiniShell.Ssh.ConfigParser

namespace InfiniShell.Compaction

variable {P : Type}

structure AIConversation (P : Type) where
  /-- `all_linearized_messages`: every task, a subtask after the call that starts it. -/
  linearizedMessages : List (Message P)
  compactionState : CompactionState

/-- Of the user queries with one request id and one text only the first is kept. -/
def dropRepeatedQueries : List (String × String) → List (Message P) → List (Message P)
  | _, [] => []
  | seen, m :: messages =>
    match m.message with
    | some (.userQuery query _) =>
      if m.requestId = "" then m :: dropRepeatedQueries seen messages
      else if seen.contains (m.requestId, query) then dropRepeatedQueries seen messages
      else m :: dropRepeatedQueries ((m.requestId, query) :: seen) messages
    | _ => m :: dropRepeatedQueries seen messages

def AIConversation.requestMessages (conversation : AIConversation P) : List (Message P) :=
  dropRepeatedQueries [] conversation.linearizedMessages

def Message.summaryOutput (m : Message P) : Option (String × String) :=
  match m.message with
  | some (.agentOutput text) => if (Ssh.trim text).isEmpty then none else some (m.id, text)
  | _ => none

def CompactionPlan.produced (plan : CompactionPlan P) (requestId : String) (messages : List (Message P)) :
    List (Message P) :=
  messages.filter fun m => m.requestId = requestId && plan.isNewMessage m.id

def CompactionPlan.completed (plan : CompactionPlan P) (produced : List (Message P)) (assistantId : String)
    (overflow : Bool) : CompletedCompaction where
  userMsgId := plan.anchorMessageId
  assistantMsgId := assistantId
  summaryMessageIds := (produced.filter Message.isOutputOrReasoning).map Message.id
  headMessageIds := plan.headMessageIds
  tailStartId := plan.tailStartId
  summaryText := some ("\n\n".intercalate ((produced.filterMap Message.summaryOutput).map Prod.snd))
  auto := overflow
  overflow := overflow

def commitSummarization [DecidableEq P] (conversation : AIConversation P) (plan : CompactionPlan P)
    (requestId : String) (overflow : Bool) : Bool × AIConversation P :=
  let allMsgs := conversation.requestMessages
  if requestId = "" ∨ plan.isCurrent allMsgs conversation.compactionState = false then
    (false, conversation)
  else
    let produced := plan.produced requestId allMsgs
    if produced.any Message.isToolCallOrResult then (false, conversation)
    else
      match (produced.filterMap Message.summaryOutput).getLast? with
      | none => (false, conversation)
      | some (assistantId, _) =>
        let completed := plan.completed produced assistantId overflow
        (true, { conversation with
          compactionState := conversation.compactionState.pushCompleted completed })

theorem dropRepeatedQueries_sublist (seen : List (String × String)) (messages : List (Message P)) :
    (dropRepeatedQueries seen messages).Sublist messages := by
  induction messages generalizing seen with
  | nil => exact List.Sublist.refl []
  | cons m messages ih =>
    simp only [dropRepeatedQueries]
    split
    next query rest hm =>
      split
      next => exact (ih seen).cons_cons m
      next =>
        split
        next => exact (ih seen).cons m
        next => exact (ih _).cons_cons m
    next => exact (ih seen).cons_cons m

theorem mem_dropRepeatedQueries {messages : List (Message P)} {m : Message P} (hm : m ∈ messages)
    (hq : m.isUserQuery = false) (seen : List (String × String)) :
    m ∈ dropRepeatedQueries seen messages := by
  induction messages generalizing seen with
  | nil => cases hm
  | cons m' messages ih =>
    simp only [dropRepeatedQueries]
    cases hm with
    | head =>
      unfold Message.isUserQuery at hq
      split
      next query rest he => simp [he] at hq
      next => exact List.mem_cons_self
    | tail _ hm =>
      have hrest := ih hm
      split
      next =>
        split
        next => exact List.mem_cons_of_mem m' (hrest seen)
        next =>
          split
          next => exact hrest seen
          next => exact List.mem_cons_of_mem m' (hrest _)
      next => exact List.mem_cons_of_mem m' (hrest seen)

variable {conversation : AIConversation P} {plan : CompactionPlan P} {requestId : String} {overflow : Bool}

theorem commitSummarization_true [DecidableEq P]
    (h : (commitSummarization conversation plan requestId overflow).1 = true) :
    ∃ assistantId, plan.isCurrent conversation.requestMessages conversation.compactionState = true ∧
      (∀ m ∈ plan.produced requestId conversation.requestMessages, m.isToolCallOrResult = false) ∧
      (∃ m ∈ plan.produced requestId conversation.requestMessages,
        m.isOutputOrReasoning = true ∧ m.id = assistantId) ∧
      (commitSummarization conversation plan requestId overflow).2 = { conversation with
        compactionState := conversation.compactionState.pushCompleted
          (plan.completed (plan.produced requestId conversation.requestMessages) assistantId overflow) } := by
  unfold commitSummarization at h ⊢
  simp only at h ⊢
  split at h
  next => cases h
  next hc =>
    rw [if_neg hc]
    split at h
    next => cases h
    next ht =>
      rw [if_neg ht]
      split at h
      next => cases h
      next assistantId text hlast =>
        have hcurrent := (not_or.mp hc).2
        simp only [List.any_eq_true, not_exists, not_and, Bool.not_eq_true] at ht
        refine ⟨assistantId, by simpa using hcurrent, ht, ?_, ?_⟩
        · obtain ⟨m, hm, hout⟩ := List.mem_filterMap.mp (List.mem_of_getLast? hlast)
          unfold Message.summaryOutput at hout
          split at hout
          next he =>
            split at hout
            next => cases hout
            next => exact ⟨m, hm, by simp [Message.isOutputOrReasoning, he], by simp_all⟩
          next => cases hout
        · rfl

theorem commitSummarization_false [DecidableEq P]
    (h : (commitSummarization conversation plan requestId overflow).1 = false) :
    (commitSummarization conversation plan requestId overflow).2 = conversation := by
  unfold commitSummarization at h ⊢
  simp only at h ⊢
  split
  next => rfl
  next hc =>
    rw [if_neg hc] at h
    split
    next => rfl
    next ht =>
      rw [if_neg ht] at h
      split
      next => rfl
      next hlast => simp only [hlast] at h; cases h

/-- A commit of the plan, made from `original`, that took `before` to `after`. -/
structure HidesSummarized (original : List (Message P)) (plan : CompactionPlan P) (requestId : String)
    (before after : AIConversation P) : Prop where
  hidden : ∀ id, id ∈ after.compactionState.hiddenMessageIds ↔
    id ∈ before.compactionState.hiddenMessageIds ∨ id ∈ plan.headMessageIds ∨
      ∃ m ∈ before.requestMessages, m.id = id ∧ m.requestId = requestId ∧
        m.isOutputOrReasoning = true ∧ id ∉ original.map Message.id
  unchanged : plan.headMessageIds = plan.sourceMessages.map Message.id ∧
    plan.sourceMessages <+: original ∧ before.requestMessages.filter plan.covers = plan.sourceMessages
  nothingInserted : ∀ m head, [m, head].Sublist before.requestMessages → head.id ∈ plan.headMessageIds →
    m.taskId ∈ original.map Message.taskId → m.id ∈ original.map Message.id
  resultsHidden : ∀ m ∈ before.linearizedMessages, ∀ call, m.openedToolCall = some call →
    m.id ∉ before.compactionState.hiddenMessageIds → m.id ∈ after.compactionState.hiddenMessageIds →
      (∃ r, [m, r].Sublist before.linearizedMessages ∧ r.closedToolCall = some call ∧
        r.id ∈ after.compactionState.hiddenMessageIds) ∨
      ∃ m' ∈ before.linearizedMessages, m'.id = m.id ∧ m' ≠ m
  historyKept : after.linearizedMessages = before.linearizedMessages

section Prepared

variable [DebugRepr P] [DecidableEq P] {original : List (Message P)} {state : CompactionState}
  {cfg : CompactionConfig} {model : ModelLimit} {fits : CompactionPlan P → Bool} {plan : CompactionPlan P}

omit [DebugRepr P] [DecidableEq P] in
theorem mem_hides_completed {first : Message P} {stop : Nat} (hfirst : original.head? = some first)
    (hstop : 0 < stop) (hplan : plan = planUpTo original state model first stop)
    {produced : List (Message P)} {m : Message P} (hm : m ∈ produced) (hout : m.isOutputOrReasoning = true)
    (overflow : Bool) (id : String) :
    id ∈ (plan.completed produced m.id overflow).hides ↔
      id ∈ plan.headMessageIds ∨ ∃ m ∈ produced, m.isOutputOrReasoning = true ∧ m.id = id := by
  have hanchor : plan.anchorMessageId ∈ plan.headMessageIds := by
    cases original with
    | nil => cases hfirst
    | cons first' rest =>
      have he : first' = first := Option.some.inj hfirst
      obtain ⟨n, rfl⟩ : ∃ n, stop = n + 1 := ⟨stop - 1, by omega⟩
      simp [hplan, planUpTo, he]
  simp only [CompletedCompaction.hides, CompactionPlan.completed, List.mem_append, List.mem_cons,
    List.mem_map, List.mem_filter]
  constructor
  · intro h
    obtain h | h | h | ⟨m', ⟨hm', hout'⟩, h⟩ := h
    · exact Or.inl h
    · exact Or.inl (h ▸ hanchor)
    · exact Or.inr ⟨m, hm, hout, h.symm⟩
    · exact Or.inr ⟨m', hm', hout', h⟩
  · intro h
    obtain h | ⟨m', hm', hout', h⟩ := h
    · exact Or.inl h
    · exact Or.inr (Or.inr (Or.inr ⟨m', ⟨hm', hout'⟩, h⟩))

variable {conversation : AIConversation P} {requestId : String} {overflow : Bool}

theorem hidden_after_commit (hplan : preparePlan original state cfg model fits = some plan)
    (h : (commitSummarization conversation plan requestId overflow).1 = true) (id : String) :
    id ∈ (commitSummarization conversation plan requestId overflow).2.compactionState.hiddenMessageIds ↔
      id ∈ conversation.compactionState.hiddenMessageIds ∨ id ∈ plan.headMessageIds ∨
        ∃ m ∈ conversation.requestMessages, m.id = id ∧ m.requestId = requestId ∧
          m.isOutputOrReasoning = true ∧ id ∉ original.map Message.id := by
  obtain ⟨first, stop, hfirst, hstop, hp, -⟩ := preparePlan_spec hplan
  obtain ⟨assistantId, -, -, ⟨m, hm, hout, rfl⟩, hafter⟩ := commitSummarization_true h
  have horig : plan.originalMessageIds = original.map Message.id := by rw [hp]; rfl
  rw [hafter, CompactionState.mem_hiddenMessageIds_pushCompleted,
    mem_hides_completed hfirst hstop hp hm hout overflow id]
  apply or_congr_right
  apply or_congr_right
  constructor
  · intro hid
    obtain ⟨m', hm', hout', rfl⟩ := hid
    obtain ⟨hmem, hnew⟩ := List.mem_filter.mp hm'
    simp only [Bool.and_eq_true, decide_eq_true_eq, CompactionPlan.isNewMessage, Bool.not_eq_true',
      List.contains_eq_mem, decide_eq_false_iff_not, horig] at hnew
    exact ⟨m', hmem, rfl, hnew.1, hout', hnew.2⟩
  · intro hid
    obtain ⟨m', hmem, rfl, hreq, hout', hnew⟩ := hid
    have hm' : m' ∈ plan.produced requestId conversation.requestMessages := by
      apply List.mem_filter.mpr ⟨hmem, _⟩
      simp [CompactionPlan.isNewMessage, hreq, horig, List.mem_map.not.mp hnew]
    exact ⟨m', hm', hout', rfl⟩

theorem commit_hidesSummarized (hplan : preparePlan original state cfg model fits = some plan) (hlater : state.completed <+: conversation.compactionState.completed)
    (h : (commitSummarization conversation plan requestId overflow).1 = true) :
    HidesSummarized original plan requestId conversation
      (commitSummarization conversation plan requestId overflow).2 := by
  have hhidden := hidden_after_commit hplan h
  obtain ⟨first, stop, hfirst, hstop, hp, hclosed⟩ := preparePlan_spec hplan
  obtain ⟨assistantId, hcurrent, -, -, hafter⟩ := commitSummarization_true h
  have hsource : plan.sourceMessages = original.take stop := by rw [hp]; rfl
  have hhead : plan.headMessageIds = plan.sourceMessages.map Message.id := by rw [hp]; rfl
  have hfilter := (CompactionPlan.isCurrent_spec hcurrent).2.2.1
  constructor
  · exact hhidden
  · exact ⟨hhead, hsource ▸ List.take_prefix stop original, hfilter⟩
  · intro m head hm hmhead htask
    have horig := CompactionPlan.original_of_before_head hcurrent hm hmhead
    rw [hp] at horig
    exact horig htask
  · intro m hm call hcall hbefore hnow
    have hquery : m.isUserQuery = false := by
      unfold Message.openedToolCall at hcall
      unfold Message.isUserQuery
      split at hcall <;> simp_all
    have hmreq := mem_dropRepeatedQueries hm hquery []
    have hsub := dropRepeatedQueries_sublist [] conversation.linearizedMessages
    obtain hold | hmhead | ⟨m', hm', hid, -, hout, -⟩ := (hhidden m.id).mp hnow
    · exact absurd hold hbefore
    · -- The message is the one that the plan was made from.
      have hmsource : m ∈ plan.sourceMessages := by
        rw [← hfilter]
        exact List.mem_filter.mpr ⟨hmreq, by simpa [CompactionPlan.covers] using hmhead⟩
      have hvisible : m.id ∉ state.hiddenMessageIds :=
        fun hs => hbefore (CompactionState.hiddenMessageIds_subset hlater hs)
      obtain ⟨r, hr, hrclosed⟩ := result_of_closed hclosed (hsource ▸ hmsource) hvisible hcall
      rw [← hsource] at hr
      have hrhead : r.id ∈ plan.headMessageIds := by
        rw [hhead]
        exact List.mem_map_of_mem (hr.subset (by simp))
      rw [← hfilter] at hr
      exact Or.inl ⟨r, (hr.trans List.filter_sublist).trans hsub, hrclosed,
        (hhidden r.id).mpr (Or.inr (Or.inl hrhead))⟩
    · refine Or.inr ⟨m', hsub.subset hm', hid, ?_⟩
      intro he
      subst he
      unfold Message.openedToolCall at hcall
      unfold Message.isOutputOrReasoning at hout
      split at hcall <;> simp_all
  · rw [hafter]

omit [DebugRepr P] in
theorem commit_again_false {again : AIConversation P} {c : CompletedCompaction} (hlast : again.compactionState.completed.getLast? = some c)
    (hother : ¬ (plan.previousSummaryId = some c.assistantMsgId ∧ plan.previousSummary = c.summaryText)) :
    (commitSummarization again plan requestId overflow).1 = false := by
  by_contra h
  obtain ⟨_, hcurrent, -⟩ := commitSummarization_true (Bool.not_eq_false _ ▸ h)
  obtain ⟨hid, hsummary, -⟩ := CompactionPlan.isCurrent_spec hcurrent
  apply hother
  simpa [CompactionState.previousSummaryId, CompactionState.previousSummary, hlast, eq_comm]
    using And.intro hid hsummary

theorem commitSummarization_contract (hplan : preparePlan original state cfg model fits = some plan)
    {conversation : AIConversation P} (hlater : state.completed <+: conversation.compactionState.completed)
    (requestId : String) (overflow : Bool) :
    ((commitSummarization conversation plan requestId overflow).1 = false →
      (commitSummarization conversation plan requestId overflow).2 = conversation) ∧
    ((commitSummarization conversation plan requestId overflow).1 = true →
      HidesSummarized original plan requestId conversation
        (commitSummarization conversation plan requestId overflow).2 ∧
      (∀ (again : AIConversation P) (requestId' : String) (overflow' : Bool),
        (commitSummarization conversation plan requestId overflow).2.compactionState.completed <+:
          again.compactionState.completed →
        (∀ c ∈ again.compactionState.completed.drop conversation.compactionState.completed.length,
          ¬ (plan.previousSummaryId = some c.assistantMsgId ∧ plan.previousSummary = c.summaryText)) →
        (commitSummarization again plan requestId' overflow').1 = false) ∧
      ((∀ id ∈ state.previousSummaryId, id ∈ original.map Message.id) →
        ∀ (again : AIConversation P) (requestId' : String) (overflow' : Bool),
          again.compactionState = (commitSummarization conversation plan requestId overflow).2.compactionState →
          (commitSummarization again plan requestId' overflow').1 = false)) := by
  refine ⟨commitSummarization_false, fun h => ⟨commit_hidesSummarized hplan hlater h, ?_, ?_⟩⟩
  · intro again requestId' overflow' hagain hother
    obtain ⟨_, -, -, -, hafter⟩ := commitSummarization_true h
    obtain ⟨others, hothers⟩ := hagain
    rw [hafter, CompactionState.completed_pushCompleted, List.append_assoc] at hothers
    rw [← hothers, List.drop_left] at hother
    obtain ⟨before, c, hc⟩ := List.eq_nil_or_concat' _ |>.resolve_left (List.cons_ne_nil _ others)
    apply commit_again_false (c := c)
    · rw [← hothers, List.singleton_append, hc, ← List.append_assoc, List.getLast?_concat]
    · exact hother c (by rw [List.singleton_append, hc]; simp)
  · intro hprevious again requestId' overflow' hagain
    obtain ⟨first, stop, hfirst, hstop, hp, -⟩ := preparePlan_spec hplan
    obtain ⟨assistantId, -, -, ⟨m, hm, hout, rfl⟩, hafter⟩ := commitSummarization_true h
    apply commit_again_false
      (c := plan.completed (plan.produced requestId conversation.requestMessages) m.id overflow)
    · rw [hagain, hafter, CompactionState.completed_pushCompleted, List.getLast?_concat]
    · intro hsame
      have hnew := (List.mem_filter.mp hm).2
      have hid : plan.previousSummaryId = state.previousSummaryId := by rw [hp]; rfl
      have horig : plan.originalMessageIds = original.map Message.id := by rw [hp]; rfl
      have hold := hprevious m.id (hid ▸ hsame.1)
      simp only [Bool.and_eq_true, CompactionPlan.isNewMessage, horig, Bool.not_eq_true',
        List.contains_eq_mem, decide_eq_false_iff_not] at hnew
      exact hnew.2 hold

end Prepared

section Witness

instance : DebugRepr Unit := ⟨fun _ => 2⟩

def userMessage (id : String) : Message Unit :=
  ⟨id, "root", "request-" ++ id, "", some (.userQuery ("question-" ++ id) ()), ()⟩

def outputMessage (id requestId text : String) : Message Unit :=
  ⟨id, "root", requestId, "", some (.agentOutput text), ()⟩

def callMessage (id toolCallId : String) : Message Unit :=
  ⟨id, "root", "", "", some (.toolCall toolCallId none), ()⟩

def fallbackLimit : ModelLimit := ⟨200000, 180000, 8000⟩

def oneTurn : List (Message Unit) := [userMessage "u1", outputMessage "a1" "r1" "answer"]

def oneTurnPlan : CompactionPlan Unit := planUpTo oneTurn {} fallbackLimit (userMessage "u1") 2

theorem preparePlan_oneTurn :
    preparePlan oneTurn {} {} fallbackLimit (fun _ => true) = some oneTurnPlan := by
  decide +kernel

theorem commitSummarization_contract_oneTurn :
    ∃ after, commitSummarization ⟨oneTurn ++ [outputMessage "s" "request-s" "summary"], {}⟩ oneTurnPlan
        "request-s" true = (true, after) ∧
      HidesSummarized oneTurn oneTurnPlan "request-s"
        ⟨oneTurn ++ [outputMessage "s" "request-s" "summary"], {}⟩ after ∧
      (commitSummarization after oneTurnPlan "request-s" true).1 = false := by
  have hnone : ([] : List CompletedCompaction) <+:
      (AIConversation.mk (oneTurn ++ [outputMessage "s" "request-s" "summary"]) {}).compactionState.completed :=
    List.prefix_refl []
  have hcontract := commitSummarization_contract preparePlan_oneTurn hnone "request-s" true
  have hcommit : (commitSummarization ⟨oneTurn ++ [outputMessage "s" "request-s" "summary"], {}⟩
      oneTurnPlan "request-s" true).1 = true := by decide +kernel
  obtain ⟨hhides, -, hagain⟩ := hcontract.2 hcommit
  exact ⟨_, Prod.ext hcommit rfl, hhides,
    hagain (fun id hid => nomatch hid) _ "request-s" true rfl⟩

def summaryLost : List (Message Unit) := oneTurn ++ [userMessage "u2"]

def afterOneTurn : CompactionState :=
  (commitSummarization ⟨oneTurn ++ [outputMessage "s" "request-s" "summary"], {}⟩ oneTurnPlan
    "request-s" true).2.compactionState

def summaryLostPlan : CompactionPlan Unit :=
  planUpTo summaryLost afterOneTurn fallbackLimit (userMessage "u1") 3

/-- A summary's id may come back, a repeated query is dropped, and a tool call may bear the new summary's id. -/
theorem commitSummarization_loose :
    (preparePlan summaryLost afterOneTurn {} fallbackLimit (fun _ => true) = some summaryLostPlan ∧
      let history := summaryLost ++ [outputMessage "s" "request-t" "summary"]
      let first := commitSummarization ⟨history, afterOneTurn⟩ summaryLostPlan "request-t" true
      first.1 = true ∧ (commitSummarization first.2 summaryLostPlan "request-t" true).1 = true) ∧
    (let copied := { userMessage "u1" with id := "copy" }
      let history := [userMessage "u1", copied, outputMessage "a1" "r1" "answer",
        outputMessage "s" "request-s" "summary"]
      (commitSummarization ⟨history, {}⟩ oneTurnPlan "request-s" true).1 = true ∧
        copied.taskId ∈ oneTurn.map Message.taskId ∧ copied.id ∉ oneTurn.map Message.id ∧
          "a1" ∈ oneTurnPlan.headMessageIds) ∧
    (let history := oneTurn ++ [outputMessage "s" "request-s" "summary", callMessage "s" "call"]
      let after := commitSummarization ⟨history, {}⟩ oneTurnPlan "request-s" true
      after.1 = true ∧ "s" ∈ after.2.compactionState.hiddenMessageIds ∧
        (callMessage "s" "call").openedToolCall = some ("root", "call") ∧
          ∀ r ∈ history, r.closedToolCall ≠ some ("root", "call")) := by
  decide +kernel

end Witness

end InfiniShell.Compaction
