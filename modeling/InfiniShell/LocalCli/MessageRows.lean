import InfiniShell.LocalCli.Requests
import Mathlib.Logic.Relation

namespace InfiniShell.LocalCli

open Effects Effects.Program
open RuntimeHost (Uuid)

section Rows

variable {db : Tables} {message : LocalCliMessage} {messageId : String} {row : MessageRow}

theorem Tables.mem_of_messageRow (h : db.messageRow messageId = some row) :
    row ∈ db.messages ∧ row.messageId = messageId :=
  ⟨List.mem_of_find?_eq_some h, by simpa using List.find?_some h⟩

theorem Tables.messageRow_addMessage (db : Tables) (data : MessageData) (messageId : String) :
    (db.addMessage data).messageRow messageId =
      (db.messageRow messageId).or (if data.message.messageId = messageId then some data.toRow else none) := by
  rw [messageRow, addMessage, List.find?_append, List.find?_singleton]
  congr 1
  exact if_congr (by rw [MessageData.toRow, decide_eq_true_iff]) rfl rfl

theorem Tables.messageRow_mapMessages (db : Tables) {f : MessageRow → MessageRow}
    (hf : ∀ row, (f row).messageId = row.messageId) (messageId : String) :
    (db.mapMessages f).messageRow messageId = (db.messageRow messageId).map f := by
  rw [messageRow, mapMessages, List.find?_map]
  apply congrArg
  apply congrArg (fun p => db.messages.find? p)
  funext row
  rw [Function.comp_apply, hf]

theorem setMessage_messageId (message : LocalCliMessage) (row : MessageRow) :
    (setMessage message row).messageId = row.messageId := by
  rw [setMessage]
  split
  · rfl
  · rfl

/-- The columns of a row are those of its message, and no two rows are of one message. -/
structure Tables.Posted (db : Tables) : Prop where
  columns : ∀ row ∈ db.messages, row = row.data.toRow
  nodup : (db.messages.map (·.messageId)).Nodup

theorem Tables.Posted.messageId_eq (h : db.Posted) (hrow : row ∈ db.messages) :
    row.data.message.messageId = row.messageId :=
  (congrArg MessageRow.messageId (h.columns row hrow)).symm

theorem Tables.Posted.messageRow_of_mem (h : db.Posted) (hrow : row ∈ db.messages) :
    db.messageRow row.messageId = some row := by
  cases hfound : db.messageRow row.messageId with
  | none =>
    have hnot := List.find?_eq_none.mp hfound row hrow
    exact absurd (decide_eq_true rfl) hnot
  | some found =>
    obtain ⟨hmem, hid⟩ := Tables.mem_of_messageRow hfound
    rw [List.inj_on_of_nodup_map h.nodup hmem hrow hid]

theorem Tables.Posted.readMessage_of_mem (h : db.Posted) (hrow : row ∈ db.messages) :
    db.readMessage row.data.message.messageId = some row.data.message := by
  rw [readMessage, h.messageId_eq hrow, h.messageRow_of_mem hrow]
  rfl

theorem Tables.exists_row_of_readMessage (h : db.readMessage messageId = some message) :
    ∃ row, db.messageRow messageId = some row ∧ row.data.message = message :=
  Option.map_eq_some_iff.mp h

theorem Tables.Posted.messageId_of_readMessage (h : db.Posted)
    (hread : db.readMessage messageId = some message) : message.messageId = messageId := by
  obtain ⟨row, hrow, rfl⟩ := Tables.exists_row_of_readMessage hread
  obtain ⟨hmem, hid⟩ := Tables.mem_of_messageRow hrow
  rw [h.messageId_eq hmem, hid]

theorem Tables.readMessage_eq_none : db.readMessage messageId = none ↔ db.messageRow messageId = none :=
  Option.map_eq_none_iff

theorem Tables.Posted.empty : Tables.empty.Posted :=
  ⟨fun _ h => absurd h List.not_mem_nil, List.nodup_nil⟩

theorem Tables.Posted.add (h : db.Posted) {data : MessageData} (hnew : db.messageRow data.message.messageId = none) :
    (db.addMessage data).Posted := by
  constructor
  · intro row hrow
    cases List.mem_append.mp hrow with
    | inl hrow => exact h.columns row hrow
    | inr hrow =>
      rw [List.mem_singleton.mp hrow]
      rfl
  · rw [addMessage, List.map_append]
    refine List.nodup_append_comm.mp (List.nodup_cons.mpr ⟨?_, h.nodup⟩)
    intro hmem
    obtain ⟨row, hrow, hid⟩ := List.mem_map.mp hmem
    have hfound := h.messageRow_of_mem hrow
    rw [hid] at hfound
    exact absurd (hfound.symm.trans hnew) nofun

theorem messageId_of_original {a b : LocalCliMessage} (h : a.original = b.original) : a.messageId = b.messageId := by
  have hid := congrArg LocalCliMessage.messageId h
  exact hid

theorem setMessage_toRow (message : LocalCliMessage) (data : MessageData)
    (hsame : data.message.messageId = message.messageId → message.original = data.message.original) :
    (setMessage message data.toRow) =
      if data.message.messageId = message.messageId then message.toData.toRow else data.toRow := by
  rw [setMessage, MessageData.toRow]
  by_cases heq : data.message.messageId = message.messageId
  · rw [if_pos heq, if_pos heq]
    have hcolumns := hsame heq
    simp only [LocalCliMessage.original, LocalCliMessage.mk.injEq] at hcolumns
    simp only [MessageRow.set, MessageData.toRow, LocalCliMessage.toData, MessageRow.mk.injEq]
    exact ⟨heq, hcolumns.2.2.1.symm, hcolumns.2.2.2.1.symm, hcolumns.2.2.2.2.1.symm, hcolumns.2.2.2.2.2.1.symm, trivial, trivial⟩
  · rw [if_neg heq, if_neg heq]

variable {before after : LocalCliMessage}

theorem Tables.Posted.move (h : db.Posted)
    (hstored : db.readMessage before.messageId = some before) (hsame : after.original = before.original) :
    (db.mapMessages (setMessage after)).Posted := by
  have hid : after.messageId = before.messageId := messageId_of_original hsame
  constructor
  · intro row hrow
    obtain ⟨old, hold, rfl⟩ := List.mem_map.mp hrow
    have hset := setMessage_toRow after old.data (fun heq => by
      have hread := h.readMessage_of_mem hold
      rw [heq, hid, hstored] at hread
      rw [← Option.some.inj hread]
      exact hsame)
    rw [← h.columns old hold] at hset
    rw [hset]
    split
    · rfl
    · exact h.columns old hold
  · rw [mapMessages, List.map_map]
    have hcomp : (fun row : MessageRow => row.messageId) ∘ setMessage after = fun row => row.messageId := by
      funext row
      exact setMessage_messageId after row
    rw [hcomp]
    exact h.nodup

theorem Tables.readMessage_move
    (hstored : db.readMessage before.messageId = some before) (hsame : after.original = before.original)
    (messageId : String) :
    (db.mapMessages (setMessage after)).readMessage messageId =
      if messageId = before.messageId then some after else db.readMessage messageId := by
  have hid : after.messageId = before.messageId := messageId_of_original hsame
  rw [readMessage, Tables.messageRow_mapMessages db (setMessage_messageId after)]
  split
  · rename_i heq
    obtain ⟨row, hrow, -⟩ := Tables.exists_row_of_readMessage hstored
    rw [heq, hrow, Option.map_some, Option.map_some, setMessage, if_pos ((mem_of_messageRow hrow).2.trans hid.symm)]
    rfl
  · rename_i hne
    cases hrow : db.messageRow messageId with
    | none => rw [readMessage, hrow]; rfl
    | some row =>
      have hother : row.messageId ≠ after.messageId := by
        rw [(mem_of_messageRow hrow).2, hid]
        exact hne
      rw [Option.map_some, setMessage, if_neg hother, readMessage, hrow]

theorem Tables.readMessage_addMessage (db : Tables) (message : LocalCliMessage) (messageId : String) :
    (db.addMessage message.toData).readMessage messageId =
      (db.readMessage messageId).or (if message.messageId = messageId then some message else none) := by
  rw [readMessage, messageRow_addMessage, readMessage]
  cases db.messageRow messageId with
  | some row => rfl
  | none =>
    rw [Option.none_or, Option.map_none, Option.none_or]
    change Option.map _ (if message.messageId = messageId then _ else _) = _
    split
    · rfl
    · rfl

end Rows

/-- A message that its queue takes in, with the runs that it names. -/
structure Accepted (crates : Crates) (db : Tables) (message : LocalCliMessage) (isTaskResult : Bool)
    (sender recipient : LocalCliTask) : Prop where
  new : db.messageRow message.messageId = none
  valid : messageInvalid message = false
  bridge : NativeBridge.isInputSubject message.subject = false
  senderRun : 0 < message.senderGeneration
  recipientRun : 0 < message.recipientGeneration
  senderRow : db.readTask message.senderTaskId = some sender
  recipientRow : (if isTaskResult then db.readTaskGeneration message.recipientTaskId message.recipientGeneration
    else db.readTask message.recipientTaskId) = some recipient
  current : runsOutdated message sender recipient isTaskResult = false
  related : unrelated sender recipient = false

/-- The message carries the result of a run that has ended to the run that created it. -/
structure CarriesResult (crates : Crates) (db : Tables) (message : LocalCliMessage)
    (task parent : LocalCliTask) : Prop where
  row : db.readTask task.taskId = some task
  terminal : task.state.isTerminal = true
  version : task.version = 1
  parentId : ∃ parentId, task.parentTaskId = some parentId ∧
    ∃ generation, task.parentGeneration = some generation ∧ db.readTaskGeneration parentId generation = some parent
  carried : message = resultMessage crates task parent

/-- What the mailbox writes. A request offers some messages, and permits some moves. -/
inductive MessageWrite (crates : Crates) (offered : LocalCliMessage → Prop)
    (permits : LocalCliMessage → LocalCliMessage → Prop) (db : Tables) : Tables → Prop
  | enqueued (message sender recipient) (haccepted : Accepted crates db message false sender recipient)
      (hsubject : message.subject ≠ taskResultSubject) (hoffered : offered message) :
      MessageWrite crates offered permits db (db.addMessage message.toData)
  | result (message sender recipient parent) (haccepted : Accepted crates db message true sender recipient)
      (hcarries : CarriesResult crates db message sender parent) :
      MessageWrite crates offered permits db (db.addMessage message.toData)
  | moved (before after) (hstored : db.readMessage before.messageId = some before)
      (hsame : after.original = before.original) (hallowed : allowed before.state after.state = true)
      (hgrok : GrokTerminal.isInputSubject after.subject = true →
        GrokTerminal.validateUnclaimedCancellation crates db after = .ok ())
      (hpermits : permits before after) :
      MessageWrite crates offered permits db (db.mapMessages (setMessage after))

abbrev MessageWrites (crates : Crates) (offered : LocalCliMessage → Prop)
    (permits : LocalCliMessage → LocalCliMessage → Prop) : Tables → Tables → Prop :=
  Relation.ReflTransGen (MessageWrite crates offered permits)

section Writes

variable {crates : Crates} {offered offered' : LocalCliMessage → Prop}
  {permits permits' : LocalCliMessage → LocalCliMessage → Prop} {db w : Tables}

theorem MessageWrite.mono (h : MessageWrite crates offered permits db w) (hoffered : ∀ m, offered m → offered' m)
    (hpermits : ∀ before after, permits before after → permits' before after) :
    MessageWrite crates offered' permits' db w := by
  cases h with
  | enqueued message sender recipient haccepted hsubject hmessage =>
    exact .enqueued message sender recipient haccepted hsubject (hoffered _ hmessage)
  | result message sender recipient parent haccepted hcarries =>
    exact .result message sender recipient parent haccepted hcarries
  | moved before after hstored hsame hallowed hgrok hmove =>
    exact .moved before after hstored hsame hallowed hgrok (hpermits _ _ hmove)

theorem MessageWrites.mono (h : MessageWrites crates offered permits db w) (hoffered : ∀ m, offered m → offered' m)
    (hpermits : ∀ before after, permits before after → permits' before after) :
    MessageWrites crates offered' permits' db w := by
  induction h with
  | refl => exact .refl
  | tail _ hwrite ih => exact ih.tail (hwrite.mono hoffered hpermits)

theorem MessageWrite.tasks (h : MessageWrite crates offered permits db w) :
    w.tasks = db.tasks ∧ w.generations = db.generations := by
  cases h with
  | enqueued => exact ⟨rfl, rfl⟩
  | result => exact ⟨rfl, rfl⟩
  | moved => exact ⟨rfl, rfl⟩

theorem MessageWrites.tasks (h : MessageWrites crates offered permits db w) :
    w.tasks = db.tasks ∧ w.generations = db.generations := by
  induction h with
  | refl => exact ⟨rfl, rfl⟩
  | tail _ hwrite ih => exact ⟨hwrite.tasks.1.trans ih.1, hwrite.tasks.2.trans ih.2⟩

theorem MessageWrite.posted (h : MessageWrite crates offered permits db w) (hposted : db.Posted) : w.Posted := by
  cases h with
  | enqueued message sender recipient haccepted => exact hposted.add haccepted.new
  | result message sender recipient parent haccepted => exact hposted.add haccepted.new
  | moved before after hstored hsame => exact hposted.move hstored hsame

theorem MessageWrites.posted (h : MessageWrites crates offered permits db w) (hposted : db.Posted) : w.Posted := by
  induction h with
  | refl => exact hposted
  | tail _ hwrite ih => exact hwrite.posted ih

end Writes

section Moving

variable {crates : Crates} {db : Tables} {R : String → Tables → Prop}

theorem writeMessageState_triple (message : LocalCliMessage) :
    Triple (fun w => w = db) (writeMessageState crates message)
      (fun _ w => w = db.mapMessages (setMessage message) ∧ (GrokTerminal.isInputSubject message.subject = true →
        GrokTerminal.validateUnclaimedCancellation crates db message = .ok ())) (fun _ _ => True) := by
  refine Triple.ensure_then (fun _ => Triple.read_then (Triple.ofResult_then ?_ fun _ _ => trivial)) fun _ => trivial
  rintro ⟨⟩ hchecked
  apply Triple.modify
  rintro w rfl
  refine ⟨rfl, fun hgrok => ?_⟩
  rw [if_pos hgrok] at hchecked
  exact hchecked

theorem writeMessageState_moves (offered : LocalCliMessage → Prop)
    (permits : LocalCliMessage → LocalCliMessage → Prop) {before after : LocalCliMessage}
    (hstored : db.readMessage before.messageId = some before) (hsame : after.original = before.original)
    (hallowed : allowed before.state after.state = true) (hpermits : permits before after) :
    Triple (fun w => w = db) (writeMessageState crates after)
      (fun _ w => w = db.mapMessages (setMessage after) ∧ MessageWrite crates offered permits db w)
      (fun _ _ => True) := by
  refine Triple.of_imp (fun _ hw => hw) (writeMessageState_triple after) ?_ fun _ _ h => h
  rintro _ w ⟨rfl, hgrok⟩
  exact ⟨rfl, .moved before after hstored hsame hallowed hgrok hpermits⟩

end Moving

def Cancels (before after : LocalCliMessage) : Prop :=
  before.state = .queued ∧ after = { before with state := .cancelled }

def Dispatches (messageId : String) (before after : LocalCliMessage) : Prop :=
  before.messageId = messageId ∧ before.state = .queued ∧ after = { before.original with state := .sent }

def Settles (messageId : String) (o : Outcome) (before after : LocalCliMessage) : Prop :=
  before.messageId = messageId ∧ after = { before with state := o.state, receiptKind := o.receipt }

theorem Cancels.original {before after : LocalCliMessage} (h : Cancels before after) :
    after.original = before.original ∧ allowed before.state after.state = true := by
  obtain ⟨hqueued, rfl⟩ := h
  rw [hqueued]
  exact ⟨rfl, rfl⟩

end InfiniShell.LocalCli
