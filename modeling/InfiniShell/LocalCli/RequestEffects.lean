import InfiniShell.LocalCli.TaskRows
import InfiniShell.LocalCli.MessageRows

namespace InfiniShell.LocalCli

open Effects Effects.Program
open RuntimeHost (Uuid)

def Request.offered : Request → LocalCliMessage → Prop
  | .enqueueMessage message, m => m = message
  | .checkpointTaskWithMessage _ _ message, m => m = message
  | _, _ => False

/-- The end of a run spares the results that the run leaves to its parent. -/
def CancelsFor (task : LocalCliTask) (before after : LocalCliMessage) : Prop :=
  Cancels before after ∧
    ¬(before.subject = taskResultSubject ∧ before.senderTaskId = task.taskId ∧ before.recipientTaskId ≠ task.taskId)

def Request.permits (crates : Crates) : Request → LocalCliMessage → LocalCliMessage → Prop
  | .checkpointTask task _, before, after => CancelsFor task before after
  | .checkpointTaskWithMessage task _ _, before, after => CancelsFor task before after
  | .enqueueTaskResult taskId generation, before, after =>
    Cancels before after ∧ before.messageId = resultMessageId crates taskId generation
  | .claimTaskResult message _, before, after => Dispatches message.messageId before after
  | .claimParentHistoryMessage message, before, after => Dispatches message.messageId before after
  | .claimManagedMessage message _ _, before, after => Dispatches message.messageId before after
  | .acknowledgeMessage messageId _ _ state, before, after =>
    Settles messageId ⟨state, if state = .acknowledged then some .nativeProtocol else none⟩ before after
  | .acknowledgeApplicationHistory messageId _ _, before, after =>
    Settles messageId ⟨.acknowledged, some .applicationHistory⟩ before after
  | _, _, _ => False

section Cancelling

variable {crates : Crates} {db : Tables}

/-- The messages of `rest` have still to be looked at. -/
structure Cancelling (crates : Crates) (permits : LocalCliMessage → LocalCliMessage → Prop) (db : Tables)
    (rest : List LocalCliMessage) (w : Tables) : Prop where
  writes : MessageWrites crates (fun _ => False) permits db w
  nodup : (rest.map (·.messageId)).Nodup
  queued : ∀ message ∈ rest, w.readMessage message.messageId = some message ∧ message.state = .queued

theorem Cancelling.tail {permits : LocalCliMessage → LocalCliMessage → Prop} {w : Tables} {message : LocalCliMessage}
    {rest : List LocalCliMessage} (h : Cancelling crates permits db (message :: rest) w) :
    Cancelling crates permits db rest w :=
  ⟨h.writes, (List.nodup_cons.mp h.nodup).2, fun other hother => h.queued other (List.mem_cons_of_mem _ hother)⟩

theorem Cancelling.cancel {permits : LocalCliMessage → LocalCliMessage → Prop} {w w' : Tables}
    {message after : LocalCliMessage} {rest : List LocalCliMessage}
    (h : Cancelling crates permits db (message :: rest) w) (hsame : after.original = message.original)
    (hw : w' = w.mapMessages (setMessage after))
    (hwrite : MessageWrite crates (fun _ => False) permits w w') : Cancelling crates permits db rest w' := by
  obtain ⟨hstored, -⟩ := h.queued message List.mem_cons_self
  refine ⟨h.writes.tail hwrite, (List.nodup_cons.mp h.nodup).2, ?_⟩
  intro other hother
  obtain ⟨hread, hqueued⟩ := h.queued other (List.mem_cons_of_mem _ hother)
  refine ⟨?_, hqueued⟩
  rw [hw, Tables.readMessage_move hstored hsame, if_neg, hread]
  intro heq
  exact (List.nodup_cons.mp h.nodup).1 (List.mem_map.mpr ⟨other, hother, heq⟩)

def Cancellation.permits (c : Cancellation) (before after : LocalCliMessage) : Prop :=
  Cancels before after ∧ c.sparesResult before = false

theorem cancelOne_triple (c : Cancellation) (message : LocalCliMessage) (rest : List LocalCliMessage) :
    Triple (Cancelling crates c.permits db (message :: rest)) (c.cancelOne crates message)
      (fun _ => Cancelling crates c.permits db rest) (fun _ _ => True) := by
  intro w hw
  obtain ⟨hstored, hqueued⟩ := hw.queued message List.mem_cons_self
  rw [Cancellation.cancelOne]
  by_cases hspared : c.sparesResult message = true
  · rw [if_pos hspared]
    exact Triple.ret (fun _ h => h.tail) w hw
  · rw [if_neg hspared]
    refine Triple.read_then (s := w) ?_ w rfl
    by_cases hcontinues : c.continuesGrok crates w message = true
    · rw [id_eq, if_pos hcontinues]
      apply Triple.ret
      rintro _ rfl
      exact hw.tail
    · rw [id_eq, if_neg hcontinues]
      refine Triple.ofResult_then ?_ fun _ _ => trivial
      intro continues _
      cases continues with
      | true =>
        apply Triple.ret
        rintro _ rfl
        exact hw.tail
      | false =>
        have hcancels : Cancels message { message with state := .cancelled } := ⟨hqueued, rfl⟩
        refine Triple.of_imp (fun _ h => h) (writeMessageState_moves (fun _ => False) c.permits hstored
          hcancels.original.1 hcancels.original.2 ⟨hcancels, by simpa using hspared⟩) ?_ fun _ _ h => h
        rintro _ w' ⟨hw', hwrite⟩
        exact hw.cancel hcancels.original.1 hw' hwrite

theorem Cancelling.start (hposted : db.Posted) (c : Cancellation) :
    Cancelling crates c.permits db ((db.messages.filter c.concerns).map (·.data.message)) db := by
  refine ⟨.refl, ?_, ?_⟩
  · rw [List.map_map]
    have hmap : (db.messages.filter c.concerns).map ((·.messageId) ∘ (·.data.message)) =
        (db.messages.filter c.concerns).map (·.messageId) := by
      apply List.map_congr_left
      intro row hrow
      exact hposted.messageId_eq (List.mem_filter.mp hrow).1
    rw [hmap]
    exact hposted.nodup.sublist (List.filter_sublist.map _)
  · intro message hmessage
    obtain ⟨row, hrow, rfl⟩ := List.mem_map.mp hmessage
    obtain ⟨hmem, hconcerns⟩ := List.mem_filter.mp hrow
    refine ⟨hposted.readMessage_of_mem hmem, ?_⟩
    rw [Cancellation.concerns, Bool.and_eq_true, decide_eq_true_iff, hposted.columns row hmem] at hconcerns
    exact hconcerns.1

theorem cancelPendingMessages_triple (hposted : db.Posted) (c : Cancellation) :
    Triple (fun w => w = db) (cancelPendingMessages crates c)
      (fun _ w => MessageWrites crates (fun _ => False) c.permits db w) (fun _ _ => True) := by
  apply Triple.read_then
  rintro w rfl
  refine Triple.of_imp (fun _ h => h) (Triple.forEach (Cancelling crates c.permits w) ?_ _) ?_ (fun _ _ h => h) w
    (Cancelling.start hposted c)
  · exact fun message rest => cancelOne_triple c message rest
  · exact fun _ w' h => h.writes

end Cancelling

section Checkpoints

variable {crates : Crates} {db : Tables}

theorem Cancellation.permits_cancelsFor (task : LocalCliTask) (previous : Option LocalCliTask)
    (before after : LocalCliMessage) (h : (cancellation crates task previous).permits before after) :
    CancelsFor task before after := by
  refine ⟨h.1, ?_⟩
  rintro ⟨hsubject, hsender, hrecipient⟩
  have hspares := h.2
  simp [Cancellation.sparesResult, cancellation, hsubject, hsender, hrecipient] at hspares

structure Checkpointed (crates : Crates) (task : LocalCliTask) (db w : Tables) : Prop where
  write : TaskWrite crates db task
  free : db.sessionTaken task = false
  messages : MessageWrites crates (fun _ => False) (CancelsFor task) (db.putTask task) w

theorem checkpoint_triple (hposted : db.Posted) (task : LocalCliTask) (expectedGeneration : Option Int) :
    Triple (fun w => w = db) (checkpoint crates task expectedGeneration)
      (fun _ w => w = db ∨ Checkpointed crates task db w) (fun _ w => w = db) := by
  refine Triple.ofResult_then ?_ fun _ _ => rfl
  rintro ⟨⟩ hvalid
  refine transaction_triple (Triple.read_then (Triple.ensure_then ?_ fun _ => trivial))
  rintro ⟨hbridge, -⟩
  refine Triple.ofResult_then ?_ fun _ _ => trivial
  intro admitted hgate
  cases admitted with
  | false => exact Triple.ret fun w hw => .inl hw
  | true =>
    rw [if_pos rfl]
    refine Triple.ofResult_then ?_ fun _ _ => trivial
    rintro ⟨⟩ hparent
    have hwrite := TaskWrite.of_admitted hvalid hbridge hgate hparent
    have hput : (db.putTask task).Posted := ⟨hposted.columns, hposted.nodup⟩
    refine Triple.bind (writeTask_triple task) fun _ => ?_
    split
    · rintro w ⟨rfl, hfree⟩
      refine Triple.of_imp (fun _ h => h) (cancelPendingMessages_triple hput _) ?_ (fun _ _ h => h) _ rfl
      intro _ w hw
      exact .inr ⟨hwrite, hfree, hw.mono (fun _ h => h) (Cancellation.permits_cancelsFor task _)⟩
    · apply Triple.ret
      rintro w ⟨rfl, hfree⟩
      exact .inr ⟨hwrite, hfree, .refl⟩

end Checkpoints

section Enqueueing

variable {crates : Crates} {db : Tables}

theorem eq_of_present {A : Type} {value : Option A} {missing : String} {a : A}
    (h : present value missing = .ok a) : value = some a := by
  cases value with
  | none => exact absurd h nofun
  | some b => rw [Except.ok.inj h]

inductive Enqueued (crates : Crates) (db : Tables) (message : LocalCliMessage) (isTaskResult : Bool) :
    LocalCliEnqueueOutcome → Tables → Prop
  | existing (existing) (hstored : db.readMessage message.messageId = some existing)
      (hsame : existing.original = message) : Enqueued crates db message isTaskResult (.existing existing.state) db
  | created (sender recipient) (haccepted : Accepted crates db message isTaskResult sender recipient) :
      Enqueued crates db message isTaskResult .created (db.addMessage message.toData)

theorem insertMessageWithOrigin_triple (message : LocalCliMessage) (isTaskResult : Bool) :
    Triple (fun w => w = db) (insertMessageWithOrigin crates message isTaskResult)
      (Enqueued crates db message isTaskResult) (fun _ w => w = db) := by
  refine Triple.ensure_then (fun hbridge => ?_) fun _ => rfl
  refine Triple.ensure_then (fun hvalid => ?_) fun _ => rfl
  refine transaction_triple (Triple.read_then ?_)
  rw [id_eq]
  cases hread : db.readMessage message.messageId with
  | some existing =>
    refine Triple.ensure_then (fun hsame => Triple.ret ?_) fun _ => trivial
    rintro w rfl
    exact .existing existing hread hsame
  | none =>
    refine Triple.ofResult_then (fun sender hsender => ?_) fun _ _ => trivial
    refine Triple.ofResult_then (fun recipient hrecipient => ?_) fun _ _ => trivial
    refine Triple.ensure_then (fun _ => ?_) fun _ => trivial
    refine Triple.ensure_then (fun hcurrent => ?_) fun _ => trivial
    refine Triple.ensure_then (fun hrelated => ?_) fun _ => trivial
    refine Triple.bind (insertRow_triple message.toData) fun _ => Triple.ret ?_
    rintro w ⟨rfl, hnew, hsenderRun, hrecipientRun⟩
    exact .created sender recipient ⟨hnew, hvalid, hbridge, hsenderRun, hrecipientRun, eq_of_present hsender,
      eq_of_present hrecipient, hcurrent, hrelated⟩

theorem Enqueued.writes {message : LocalCliMessage} {outcome : LocalCliEnqueueOutcome} {w : Tables}
    {offered : LocalCliMessage → Prop} {permits : LocalCliMessage → LocalCliMessage → Prop}
    (h : Enqueued crates db message false outcome w) (hsubject : message.subject ≠ taskResultSubject)
    (hoffered : offered message) : MessageWrites crates offered permits db w := by
  cases h with
  | existing => exact .refl
  | created sender recipient haccepted =>
    exact .single (.enqueued message sender recipient haccepted hsubject hoffered)

theorem insertMessage_triple (message : LocalCliMessage) :
    Triple (fun w => w = db) (insertMessage crates message)
      (fun outcome w => Enqueued crates db message false outcome w ∧ message.subject ≠ taskResultSubject)
      (fun _ w => w = db) := by
  refine Triple.ensure_then (fun hsubject => ?_) fun _ => rfl
  exact Triple.of_imp (fun _ h => h) (insertMessageWithOrigin_triple message false) (fun _ _ h => ⟨h, hsubject⟩)
    fun _ _ h => h

theorem checkpointWithMessage_triple (hposted : db.Posted) (task : LocalCliTask) (expectedGeneration : Option Int)
    (message : LocalCliMessage) :
    Triple (fun w => w = db) (checkpointWithMessage crates task expectedGeneration message)
      (fun outcome w => ∃ middle, (middle = db ∨ Checkpointed crates task db middle) ∧
        Enqueued crates middle message false outcome w ∧ message.subject ≠ taskResultSubject) (fun _ w => w = db) := by
  refine Triple.ensure_then (fun _ => ?_) fun _ => rfl
  apply transaction_triple
  refine Triple.bind (Triple.of_imp (fun _ h => h) (checkpoint_triple hposted task expectedGeneration)
    (fun _ _ h => h) fun _ _ _ => trivial) fun _ => ?_
  intro middle hmiddle
  exact Triple.of_imp (fun _ h => h) (insertMessage_triple message) (fun _ w hw => ⟨middle, hmiddle, hw⟩)
    (fun _ _ _ => trivial) middle rfl

end Enqueueing

section Results

variable {crates : Crates} {db : Tables}

/-- The result of a run that is stored, or that is put into the queue now, or that is cancelled at once. -/
inductive ResultStored (crates : Crates) (db : Tables) (taskId : String) (generation : Int) :
    Option LocalCliMessage → Tables → Prop
  | root : ResultStored crates db taskId generation none db
  | existing (message) (hstored : db.readMessage (resultMessageId crates taskId generation) = some message) :
      ResultStored crates db taskId generation (some message) db
  | queued (message sender recipient parent) (haccepted : Accepted crates db message true sender recipient)
      (hcarries : CarriesResult crates db message sender parent)
      (hid : message.messageId = resultMessageId crates taskId generation) :
      ResultStored crates db taskId generation (some message) (db.addMessage message.toData)
  | cancelled (message sender recipient parent) (haccepted : Accepted crates db message true sender recipient)
      (hcarries : CarriesResult crates db message sender parent)
      (hid : message.messageId = resultMessageId crates taskId generation) :
      ResultStored crates db taskId generation (some { message with state := .cancelled })
        ((db.addMessage message.toData).mapMessages (setMessage { message with state := .cancelled }))

theorem not_grokInput_of_result {subject : String} (h : subject = taskResultSubject) :
    GrokTerminal.isInputSubject subject = false := by
  rw [h]
  rfl

theorem insertTaskResult_triple (hkeyed : db.Keyed) (taskId : String) (generation : Int) :
    Triple (fun w => w = db) (insertTaskResult crates taskId generation)
      (ResultStored crates db taskId generation) (fun _ w => w = db) := by
  refine transaction_triple (Triple.read_then ?_)
  refine Triple.ofResult_then (fun task htask => ?_) fun _ _ => trivial
  refine Triple.ensure_then ?_ fun _ => trivial
  rintro ⟨hversion, hgeneration, hterminal⟩
  cases hparent : task.parentTaskId with
  | none =>
    apply Triple.ret
    rintro w rfl
    exact .root
  | some parentId =>
    refine Triple.ofResult_then (fun parentGeneration hparentGeneration => ?_) fun _ _ => trivial
    refine Triple.ofResult_then (fun parent hrow => ?_) fun _ _ => trivial
    rw [id_eq]
    have hread := eq_of_present htask
    rw [id_eq] at hread
    have hid : task.taskId = taskId := hkeyed taskId task hread
    cases hstored : db.readMessage (resultMessageId crates taskId generation) with
    | some message =>
      apply Triple.ret
      rintro w rfl
      exact .existing message hstored
    | none =>
      have hcarries : CarriesResult crates db (resultMessage crates task parent) task parent :=
        ⟨hid ▸ hread, hterminal, hversion, ⟨parentId, hparent, parentGeneration, eq_of_present hparentGeneration,
          eq_of_present hrow⟩, rfl⟩
      have hmessageId : (resultMessage crates task parent).messageId = resultMessageId crates taskId generation := by
        rw [← hid, ← hgeneration]
        rfl
      refine Triple.bind (Triple.of_imp (fun _ h => h) (insertMessageWithOrigin_triple _ true) (fun _ _ h => h)
        fun _ _ _ => trivial) fun outcome => ?_
      intro added hadded
      cases hadded with
      | existing existing hexisting =>
        rw [hmessageId, hstored] at hexisting
        exact absurd hexisting nofun
      | created sender recipient haccepted =>
        have hsender : sender = task := by
          have hrow := haccepted.senderRow
          change db.readTask task.taskId = some sender at hrow
          rw [hcarries.row] at hrow
          exact (Option.some.inj hrow).symm
        rw [hsender] at haccepted
        refine Triple.read_then (s := db.addMessage _) ?_ _ rfl
        refine Triple.ofResult_then (fun isDisqualified _ => ?_) fun _ _ => trivial
        cases isDisqualified with
        | false =>
          apply Triple.ret
          rintro w rfl
          exact .queued _ task recipient parent haccepted hcarries hmessageId
        | true =>
          refine Triple.bind (writeMessageState_triple _) fun _ => Triple.ret ?_
          rintro w ⟨rfl, -⟩
          exact .cancelled _ task recipient parent haccepted hcarries hmessageId

theorem ResultStored.writes {taskId : String} {generation : Int} {answer : Option LocalCliMessage} {w : Tables}
    {offered : LocalCliMessage → Prop} (h : ResultStored crates db taskId generation answer w) :
    MessageWrites crates offered
      (fun before after => Cancels before after ∧ before.messageId = resultMessageId crates taskId generation) db w := by
  cases h with
  | root => exact .refl
  | existing => exact .refl
  | queued message sender recipient parent haccepted hcarries =>
    exact .single (.result message sender recipient parent haccepted hcarries)
  | cancelled message sender recipient parent haccepted hcarries hid =>
    have hqueued : message.state = .queued := by
      rw [hcarries.carried]
      rfl
    have hcancels : Cancels message { message with state := .cancelled } := ⟨hqueued, rfl⟩
    have hstored : (db.addMessage message.toData).readMessage message.messageId = some message := by
      rw [Tables.readMessage_addMessage, Tables.readMessage_eq_none.mpr haccepted.new, Option.none_or, if_pos rfl]
    refine Relation.ReflTransGen.tail (.single (.result message sender recipient parent haccepted hcarries)) ?_
    refine .moved message _ hstored hcancels.original.1 hcancels.original.2 ?_ ⟨hcancels, hid⟩
    intro hgrok
    have hsubject : message.subject = taskResultSubject := by
      rw [hcarries.carried]
      rfl
    exact absurd hgrok (by rw [not_grokInput_of_result hsubject]; nofun)

end Results

section Reports

variable {crates : Crates} {db : Tables}

structure Reported (crates : Crates) (db : Tables) (taskId : String) (generation : Int) (o : Outcome)
    (before : LocalCliMessage) (sender recipient : LocalCliTask) (sameQueue : Bool) : Prop where
  stored : db.readMessage before.messageId = some before
  plain : GrokTerminal.isInputSubject before.subject = false ∧ NativeBridge.isInputSubject before.subject = false
  recipientRow : db.readTask taskId = some recipient
  senderRow : (if o.isDelivery then db.readTaskGeneration before.senderTaskId before.senderGeneration
    else db.readTask before.senderTaskId) = some sender
  earlier : earlierRunGoesOn crates db before sender recipient o = .ok sameQueue
  current : receiptOutdated before taskId generation sender recipient sameQueue = false

/-- What a report does: nothing to a message that is in that state, and otherwise one move. -/
inductive ReportEffect (crates : Crates) (db : Tables) (messageId taskId : String) (generation : Int) (o : Outcome) :
    Tables → Prop
  | repeated (before sender recipient sameQueue) (hid : before.messageId = messageId)
      (hreported : Reported crates db taskId generation o before sender recipient sameQueue)
      (hstate : before.state = o.state) : ReportEffect crates db messageId taskId generation o db
  | moved (before sender recipient sameQueue) (hid : before.messageId = messageId)
      (hreported : Reported crates db taskId generation o before sender recipient sameQueue)
      (hhistory : checkHistory crates before sender recipient o = .ok ())
      (hrunning : ¬((recipient.state.isTerminal ∧ ¬(o.isDelivery ∧ before.state = .sent)) ∨
        recipient.state = .unknown))
      (hallowed : allowed before.state o.state = true) :
      ReportEffect crates db messageId taskId generation o
        (db.mapMessages (setMessage { before with state := o.state, receiptKind := o.receipt }))

theorem updateMessageStateWithReceipt_triple (hposted : db.Posted) (messageId taskId : String) (generation : Int)
    (o : Outcome) :
    Triple (fun w => w = db) (updateMessageStateWithReceipt crates messageId taskId generation o)
      (fun _ w => ReportEffect crates db messageId taskId generation o w) (fun _ w => w = db) := by
  refine transaction_triple (Triple.read_then ?_)
  refine Triple.ofResult_then (fun before hread => ?_) fun _ _ => trivial
  refine Triple.ensure_then (fun hplain => ?_) fun _ => trivial
  refine Triple.ofResult_then (fun recipient hrecipient => ?_) fun _ _ => trivial
  refine Triple.ofResult_then (fun sender hsender => ?_) fun _ _ => trivial
  refine Triple.ofResult_then (fun sameQueue hearlier => ?_) fun _ _ => trivial
  refine Triple.ensure_then (fun hcurrent => ?_) fun _ => trivial
  have hid : before.messageId = messageId := hposted.messageId_of_readMessage (eq_of_present hread)
  have hreported : Reported crates db taskId generation o before sender recipient sameQueue :=
    ⟨hid.symm ▸ eq_of_present hread, hplain, eq_of_present hrecipient, eq_of_present hsender, hearlier, hcurrent⟩
  by_cases hstate : before.state = o.state
  · rw [if_pos hstate]
    refine Triple.ensure ?_ fun _ _ _ => trivial
    rintro w rfl -
    exact .repeated before sender recipient sameQueue hid hreported hstate
  · rw [if_neg hstate]
    refine Triple.ofResult_then (fun _ hhistory => ?_) fun _ _ => trivial
    refine Triple.ensure_then (fun hrunning => ?_) fun _ => trivial
    refine Triple.ensure_then (fun hallowed => ?_) fun _ => trivial
    refine Triple.of_imp (fun _ h => h) (writeMessageState_triple _) ?_ fun _ _ h => h
    rintro _ w ⟨rfl, -⟩
    exact .moved before sender recipient sameQueue hid hreported hhistory hrunning hallowed

theorem ReportEffect.writes {messageId taskId : String} {generation : Int} {o : Outcome} {w : Tables}
    {offered : LocalCliMessage → Prop} (h : ReportEffect crates db messageId taskId generation o w) :
    MessageWrites crates offered (Settles messageId o) db w := by
  cases h with
  | repeated => exact .refl
  | moved before sender recipient sameQueue hid hreported hhistory hrunning hallowed =>
    refine .single (.moved before _ hreported.stored rfl hallowed ?_ ⟨hid, rfl⟩)
    intro hgrok
    rw [hreported.plain.1] at hgrok
    exact absurd hgrok nofun

end Reports

section Claims

variable {crates : Crates} {db : Tables}

theorem eq_of_claimable {message stored : LocalCliMessage} {missing changed : String}
    (h : claimable db message missing changed = .ok stored) :
    db.readMessage message.messageId = some stored ∧ stored.original = message := by
  rw [claimable] at h
  cases hread : db.readMessage message.messageId with
  | none =>
    rw [hread] at h
    exact absurd h nofun
  | some found =>
    rw [hread] at h
    change (if found.original ≠ message then _ else _) = _ at h
    split at h
    · exact absurd h nofun
    · rename_i hsame
      obtain rfl := Except.ok.inj h
      exact ⟨rfl, not_not.mp hsame⟩

/-- A queued message with the text of the claim is handed out, or the claim is answered with nothing. -/
inductive Claimed (crates : Crates) (db : Tables) (message : LocalCliMessage) (reason : LocalCliMessage → Prop) :
    Option LocalCliMessage → Tables → Prop
  | refused : Claimed crates db message reason none db
  | granted (stored) (hstored : db.readMessage message.messageId = some stored) (hsame : stored.original = message)
      (hid : stored.messageId = message.messageId) (hqueued : stored.state = .queued) (hreason : reason stored)
      (hgrok : GrokTerminal.isInputSubject stored.subject = false) :
      Claimed crates db message reason (some { stored.original with state := .sent })
        (db.mapMessages (setMessage { stored.original with state := .sent }))

theorem Claimed.writes {message : LocalCliMessage} {reason : LocalCliMessage → Prop} {answer : Option LocalCliMessage}
    {w : Tables} {offered : LocalCliMessage → Prop} (h : Claimed crates db message reason answer w) :
    MessageWrites crates offered (Dispatches message.messageId) db w := by
  cases h with
  | refused => exact .refl
  | granted stored hstored hsame hid hqueued hreason hgrok =>
    refine .single (.moved stored _ (hid.symm ▸ hstored) rfl ?_ ?_ ⟨hid, hqueued, rfl⟩)
    · rw [hqueued]
      rfl
    · intro hsubject
      exact absurd (hgrok.symm.trans hsubject) nofun

theorem grant_triple (hposted : db.Posted) {message stored : LocalCliMessage} {reason : LocalCliMessage → Prop}
    (hstored : db.readMessage message.messageId = some stored ∧ stored.original = message)
    (hqueued : stored.state = .queued) (hreason : reason stored) :
    Triple (fun w => w = db) (do
        writeMessageState crates { stored.original with state := .sent }
        return some { stored.original with state := .sent })
      (Claimed crates db message reason) (fun _ _ => True) := by
  refine Triple.bind (writeMessageState_triple _) fun _ => Triple.ret ?_
  rintro w ⟨rfl, hgrok⟩
  refine .granted stored hstored.1 hstored.2 (hposted.messageId_of_readMessage hstored.1) hqueued hreason ?_
  cases hsubject : GrokTerminal.isInputSubject stored.subject with
  | false => rfl
  | true =>
    -- the mailbox only cancels the inputs of owned terminals
    obtain ⟨_, _, _, -, -, -, -, hcancelled⟩ :=
      GrokTerminal.validateUnclaimedCancellation_eq_ok.mp (hgrok hsubject)
    exact absurd (congrArg LocalCliMessage.state hcancelled) nofun

theorem dispatchUnless_triple (hposted : db.Posted) {message stored : LocalCliMessage}
    {reason : LocalCliMessage → Prop} {slotTaken : Bool}
    (hstored : db.readMessage message.messageId = some stored ∧ stored.original = message)
    (hqueued : stored.state = .queued) (hreason : slotTaken = false → reason stored) :
    Triple (fun w => w = db) (dispatchUnless crates stored slotTaken) (Claimed crates db message reason)
      (fun _ _ => True) := by
  cases slotTaken with
  | true =>
    apply Triple.ret
    rintro w rfl
    exact .refused
  | false => exact grant_triple hposted hstored hqueued (hreason rfl)

inductive ResultCurrent (crates : Crates) (db : Tables) (message : LocalCliMessage) : Prop
  | grok (recipient) (hrow : db.readTask message.recipientTaskId = some recipient) (hharness : recipient.harness = "grok")
      (hcompleted : recipient.state = .completed) (horigin : grokOriginMatches crates db message recipient = .ok ())
      (hslot : grokSlotTaken crates db recipient (sentTo db recipient.taskId) = .ok false) :
      ResultCurrent crates db message
  | claude (recipient) (hrow : db.readTask message.recipientTaskId = some recipient)
      (hharness : recipient.harness = "claude") (hcompleted : recipient.state = .completed)
      (hhistory : claudeResultHistoryMatches crates db message recipient = .ok true)
      (hslot : claudeSlotTaken crates db recipient (sentTo db recipient.taskId) = .ok false) :
      ResultCurrent crates db message
  | active (recipient) (hrow : db.readTask message.recipientTaskId = some recipient)
      (hharness : recipient.harness ≠ "grok") (hgeneration : recipient.generation = message.recipientGeneration)
      (hactive : recipient.state.isActive = true) : ResultCurrent crates db message

theorem updateMessageState_grants (hposted : db.Posted) {message stored : LocalCliMessage}
    {reason : LocalCliMessage → Prop}
    (hstored : db.readMessage message.messageId = some stored ∧ stored.original = message)
    (hqueued : stored.state = .queued) (hreason : reason stored) :
    Triple (fun w => w = db) (do
        updateMessageState crates message.messageId message.recipientTaskId message.recipientGeneration .sent
        return some { stored.original with state := .sent })
      (Claimed crates db message reason) (fun _ _ => True) := by
  refine Triple.bind (Triple.of_imp (fun _ h => h) (updateMessageStateWithReceipt_triple hposted _ _ _ _)
    (fun _ _ h => h) fun _ _ _ => trivial) fun _ => Triple.ret ?_
  intro w hw
  have hid := hposted.messageId_of_readMessage hstored.1
  cases hw with
  | repeated before _ _ _ hbefore hreported hstate =>
    have hread := hreported.stored
    rw [hbefore, hstored.1] at hread
    rw [← Option.some.inj hread, hqueued] at hstate
    exact absurd hstate nofun
  | moved before _ _ _ hbefore hreported =>
    have hread := hreported.stored
    rw [hbefore, hstored.1] at hread
    obtain rfl := Option.some.inj hread
    exact .granted stored hstored.1 hstored.2 hid hqueued hreason hreported.plain.1

theorem claimResultIfCurrent_triple (hposted : db.Posted) (message : LocalCliMessage)
    (expectedRecipient : Option LocalCliTask) :
    Triple (fun w => w = db) (claimResultIfCurrent crates message expectedRecipient)
      (Claimed crates db message fun stored => stored.subject = taskResultSubject ∧ ResultCurrent crates db message)
      (fun _ w => w = db) := by
  refine transaction_triple (Triple.ensure_then ?_ fun _ => trivial)
  rintro ⟨hsubject, -⟩
  refine Triple.read_then (Triple.ofResult_then (fun stored hclaimable => ?_) fun _ _ => trivial)
  have hstored := eq_of_claimable hclaimable
  have hresult : stored.subject = taskResultSubject := by
    rw [← hsubject, ← hstored.2]
    rfl
  by_cases hqueued : stored.state = .queued
  · rw [if_neg (not_not.mpr hqueued)]
    refine Triple.ofResult_then (fun recipient hrecipient => ?_) fun _ _ => trivial
    refine Triple.ensure_then (fun _ => ?_) fun _ => trivial
    have hrow := eq_of_present hrecipient
    by_cases hgrok : recipient.harness = "grok"
    · rw [if_pos hgrok]
      refine Triple.ofResult_then (fun config _ => ?_) fun _ _ => trivial
      by_cases hbusy : (recipient.state ≠ .completed || grokInputsPending config) = true
      · rw [if_pos hbusy]
        apply Triple.ret
        rintro w rfl
        exact .refused
      · rw [if_neg hbusy]
        simp only [ne_eq, Bool.or_eq_true, decide_eq_true_eq, not_or, not_not] at hbusy
        refine Triple.ofResult_then (fun _ horigin => ?_) fun _ _ => trivial
        refine Triple.ofResult_then (fun taken htaken => ?_) fun _ _ => trivial
        refine dispatchUnless_triple hposted hstored hqueued fun hfree => ?_
        exact ⟨hresult, .grok recipient hrow hgrok hbusy.1 horigin (hfree ▸ htaken)⟩
    · rw [if_neg hgrok]
      by_cases hclaude : (recipient.harness = "claude" && recipient.state = .completed) = true
      · rw [if_pos hclaude]
        rw [Bool.and_eq_true, decide_eq_true_iff, decide_eq_true_iff] at hclaude
        refine Triple.ofResult_then (fun config _ => ?_) fun _ _ => trivial
        refine Triple.ensure_then (fun _ => ?_) fun _ => trivial
        refine Triple.ofResult_then (fun continues hcontinues => ?_) fun _ _ => trivial
        refine Triple.ensure_then (fun hyes => ?_) fun _ => trivial
        refine Triple.ofResult_then (fun taken htaken => ?_) fun _ _ => trivial
        refine dispatchUnless_triple hposted hstored hqueued fun hfree => ?_
        exact ⟨hresult, .claude recipient hrow hclaude.1 hclaude.2 (hyes ▸ hcontinues) (hfree ▸ htaken)⟩
      · rw [if_neg hclaude]
        refine Triple.ensure_then (fun hcurrent => ?_) fun _ => trivial
        exact updateMessageState_grants hposted hstored hqueued
          ⟨hresult, .active recipient hrow hgrok hcurrent.1 hcurrent.2⟩
  · rw [if_pos hqueued]
    apply Triple.ret
    rintro w rfl
    exact .refused

theorem subject_of_validateParentMessage {message : LocalCliMessage} {source parent : LocalCliTask}
    (h : validateParentMessage crates message source parent = .ok ()) : message.subject ≠ taskResultSubject := by
  rw [validateParentMessage] at h
  obtain ⟨permissions, -, h⟩ := Results.bind_eq_ok.mp h
  obtain ⟨config, -, h⟩ := Results.bind_eq_ok.mp h
  intro hsubject
  rw [if_pos (by simp [hsubject])] at h
  exact absurd h nofun

theorem claimParentMessage_triple (hposted : db.Posted) (message : LocalCliMessage) :
    Triple (fun w => w = db) (claimParentMessage crates message)
      (Claimed crates db message fun stored => stored.subject ≠ taskResultSubject) (fun _ w => w = db) := by
  refine transaction_triple (Triple.ensure_then (fun _ => ?_) fun _ => trivial)
  refine Triple.read_then (Triple.ofResult_then (fun stored hclaimable => ?_) fun _ _ => trivial)
  have hstored := eq_of_claimable hclaimable
  by_cases hqueued : stored.state = .queued
  · rw [if_neg (not_not.mpr hqueued)]
    refine Triple.ofResult_then (fun source _ => ?_) fun _ _ => trivial
    refine Triple.ofResult_then (fun parent _ => ?_) fun _ _ => trivial
    refine Triple.ofResult_then (fun _ hvalid => ?_) fun _ _ => trivial
    refine Triple.ensure_then (fun _ => ?_) fun _ => trivial
    refine updateMessageState_grants hposted hstored hqueued ?_
    have hsubject := subject_of_validateParentMessage hvalid
    rw [← hstored.2] at hsubject
    exact hsubject
  · rw [if_pos hqueued]
    apply Triple.ret
    rintro w rfl
    exact .refused

theorem claimManagedMessage_triple (hposted : db.Posted) (message : LocalCliMessage)
    (expectedSender expectedRecipient : LocalCliTask) :
    Triple (fun w => w = db) (claimManagedMessage crates message expectedSender expectedRecipient)
      (Claimed crates db message fun stored => stored.subject ≠ taskResultSubject) (fun _ w => w = db) := by
  refine transaction_triple (Triple.ensure_then ?_ fun _ => trivial)
  rintro ⟨-, -, -, hsubject, -⟩
  refine Triple.read_then (Triple.ofResult_then (fun stored hclaimable => ?_) fun _ _ => trivial)
  have hstored := eq_of_claimable hclaimable
  by_cases hqueued : stored.state = .queued
  · rw [if_neg (not_not.mpr hqueued)]
    refine Triple.ofResult_then (fun sender _ => ?_) fun _ _ => trivial
    refine Triple.ofResult_then (fun recipient _ => ?_) fun _ _ => trivial
    refine Triple.ofResult_then (fun permissions _ => ?_) fun _ _ => trivial
    refine Triple.ensure_then (fun _ => ?_) fun _ => trivial
    refine grant_triple hposted hstored hqueued ?_
    rw [← hstored.2] at hsubject
    exact hsubject
  · rw [if_pos hqueued]
    apply Triple.ret
    rintro w rfl
    exact .refused

end Claims

structure Effect (crates : Crates) (request : Request) (db w : Tables) : Prop where
  tasks : TasksWritten crates db w
  messages : ∃ middle : Tables, middle.messages = db.messages ∧
    MessageWrites crates request.offered (request.permits crates) middle w

theorem Effect.of_writes {crates : Crates} {request : Request} {db w : Tables}
    (h : MessageWrites crates request.offered (request.permits crates) db w) : Effect crates request db w :=
  ⟨TasksWritten.of_eq crates h.tasks.1 h.tasks.2, db, rfl, h⟩

theorem Effect.refl (crates : Crates) (request : Request) (db : Tables) : Effect crates request db db :=
  Effect.of_writes .refl

structure HandedOut (crates : Crates) (db w : Tables) (handed : LocalCliMessage) : Prop where
  before : ∃ stored, db.readMessage handed.messageId = some stored ∧ stored.state = .queued ∧
    stored.original = handed.original
  sent : handed.state = .sent
  after : w.readMessage handed.messageId = some handed
  result : handed.subject = taskResultSubject → ResultCurrent crates db handed.original

section Requests

variable {crates : Crates} {db : Tables}

theorem Claimed.handedOut {message handed : LocalCliMessage} {reason : LocalCliMessage → Prop} {w : Tables}
    (h : Claimed crates db message reason (some handed) w)
    (hreason : ∀ stored, reason stored → stored.subject = taskResultSubject → ResultCurrent crates db message) :
    HandedOut crates db w handed := by
  cases h with
  | granted stored hstored hsame hid hqueued hholds hgrok =>
    refine ⟨⟨stored, hid.symm ▸ hstored, hqueued, rfl⟩, rfl, ?_, ?_⟩
    · have hread : db.readMessage stored.messageId = some stored := hid.symm ▸ hstored
      have hsent : ({ stored.original with state := .sent } : LocalCliMessage).original = stored.original := rfl
      exact (Tables.readMessage_move hread hsent _).trans (if_pos rfl)
    · intro hsubject
      rw [← hsame] at hreason
      exact hreason stored hholds hsubject

/-- Whatever is asked, a request that fails leaves the tables as they were. -/
theorem handleRequest_triple (crates : Crates) (hkeyed : db.Keyed) (hposted : db.Posted) (request : Request) :
    Triple (fun w => w = db) (handleRequest crates request)
      (fun answer w => Effect crates request db w ∧
        ∀ handed, answer = .claimed (some handed) → HandedOut crates db w handed) (fun _ w => w = db) := by
  cases request with
  | checkpointTask task expectedGeneration =>
    refine Triple.bind (checkpoint_triple hposted task expectedGeneration) fun _ => Triple.ret ?_
    rintro w (rfl | hdone)
    · exact ⟨Effect.refl _ _ _, nofun⟩
    · refine ⟨⟨?_, db.putTask task, rfl, ?_⟩, nofun⟩
      · exact (TasksWritten.putTask hdone.write).messages hdone.messages.tasks.1 hdone.messages.tasks.2
      · exact hdone.messages.mono (fun _ h => h.elim) fun _ _ h => h
  | checkpointTaskWithMessage task expectedGeneration message =>
    refine Triple.bind (checkpointWithMessage_triple hposted task expectedGeneration message) fun _ => Triple.ret ?_
    rintro w ⟨middle, hmiddle, henqueued, hsubject⟩
    have hwrites : MessageWrites crates (Request.checkpointTaskWithMessage task expectedGeneration message).offered
        ((Request.checkpointTaskWithMessage task expectedGeneration message).permits crates) middle w :=
      henqueued.writes hsubject rfl
    cases hmiddle with
    | inl hmiddle =>
      obtain rfl := hmiddle
      exact ⟨Effect.of_writes hwrites, nofun⟩
    | inr hdone =>
      refine ⟨⟨?_, db.putTask task, rfl, ?_⟩, nofun⟩
      · refine ((TasksWritten.putTask hdone.write).messages hdone.messages.tasks.1 hdone.messages.tasks.2).messages ?_ ?_
        · exact hwrites.tasks.1
        · exact hwrites.tasks.2
      · exact (hdone.messages.mono (fun _ h => h.elim) fun _ _ h => h).trans hwrites
  | enqueueTaskResult taskId generation =>
    refine Triple.bind (insertTaskResult_triple hkeyed taskId generation) fun _ => Triple.ret ?_
    intro w hw
    exact ⟨Effect.of_writes hw.writes, nofun⟩
  | claimTaskResult message expectedRecipient =>
    refine Triple.bind (claimResultIfCurrent_triple hposted message expectedRecipient) fun _ => Triple.ret ?_
    intro w hw
    refine ⟨Effect.of_writes hw.writes, ?_⟩
    rintro handed heq
    obtain rfl := Answer.claimed.inj heq
    exact hw.handedOut fun _ hreason _ => hreason.2
  | claimParentHistoryMessage message =>
    refine Triple.bind (claimParentMessage_triple hposted message) fun _ => Triple.ret ?_
    intro w hw
    refine ⟨Effect.of_writes hw.writes, ?_⟩
    rintro handed heq
    obtain rfl := Answer.claimed.inj heq
    exact hw.handedOut fun _ hreason hsubject => absurd hsubject hreason
  | claimManagedMessage message expectedSender expectedRecipient =>
    refine Triple.bind (claimManagedMessage_triple hposted message expectedSender expectedRecipient) fun _ =>
      Triple.ret ?_
    intro w hw
    refine ⟨Effect.of_writes hw.writes, ?_⟩
    rintro handed heq
    obtain rfl := Answer.claimed.inj heq
    exact hw.handedOut fun _ hreason hsubject => absurd hsubject hreason
  | enqueueMessage message =>
    refine Triple.bind (insertMessage_triple message) fun _ => Triple.ret ?_
    rintro w ⟨henqueued, hsubject⟩
    exact ⟨Effect.of_writes (henqueued.writes hsubject rfl), nofun⟩
  | acknowledgeMessage messageId taskId generation state =>
    refine Triple.bind (updateMessageStateWithReceipt_triple hposted messageId taskId generation _) fun _ =>
      Triple.ret ?_
    intro w hw
    exact ⟨Effect.of_writes hw.writes, nofun⟩
  | acknowledgeApplicationHistory messageId taskId generation =>
    refine Triple.bind (updateMessageStateWithReceipt_triple hposted messageId taskId generation _) fun _ =>
      Triple.ret ?_
    intro w hw
    exact ⟨Effect.of_writes hw.writes, nofun⟩
  | loadTasks recoverInterrupted =>
    refine Triple.bind (readTasks_triple hkeyed recoverInterrupted) fun _ => Triple.ret ?_
    rintro w ⟨hwritten, hmessages⟩
    exact ⟨⟨hwritten, w, hmessages, .refl⟩, nofun⟩
  | loadTaskGenerations taskId =>
    refine Triple.read_then (Triple.ret ?_)
    rintro w rfl
    exact ⟨Effect.refl _ _ _, nofun⟩
  | loadMessages taskId generation =>
    refine Triple.read_then (Triple.ret ?_)
    rintro w rfl
    exact ⟨Effect.refl _ _ _, nofun⟩
  | loadTaskMessages taskId =>
    refine Triple.read_then (Triple.ret ?_)
    rintro w rfl
    exact ⟨Effect.refl _ _ _, nofun⟩

end Requests

end InfiniShell.LocalCli
