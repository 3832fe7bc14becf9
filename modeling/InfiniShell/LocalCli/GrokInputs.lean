import InfiniShell.LocalCli.RequestEffects

namespace InfiniShell.LocalCli.GrokTerminal

open Collections Effects Effects.Program
open RuntimeHost (Uuid)

/-- What the checks of `read_record` leave of a row. -/
structure Checked (id : Uuid) (row : MessageRow) : Prop where
  subject : isInputSubject row.data.message.subject = true
  named : row.data.message.messageId = id.toText
  claimed : ∀ d, row.data.grokTerminalDelivery = some d →
    (row.data.message.state = if d.status = .unknown then .sent else .acknowledged) ∧
      d.messageId = id ∧ d.taskId = row.data.message.recipientTaskId

theorem readRecord_checked {crates : Crates} {db : Tables} {id : Uuid} {data : MessageData}
    {record : GrokTerminalInputRecord} (h : readRecord crates db id = .ok (some (data, record))) :
    ∃ row, db.messageRow id.toText = some row ∧ row.data = data ∧ data.grokRecord = record ∧ Checked id row := by
  rw [readRecord] at h
  cases hrow : db.messageRow id.toText with
  | none => simp [hrow] at h
  | some row =>
    rw [hrow] at h
    dsimp only at h
    have hread : some (row.data, row.data.grokRecord) = some (data, record) ∧
        identityInvalid id row.state row.data.message = false ∧
        ∀ d, row.data.grokTerminalDelivery = some d → deliveryInvalid crates id row.data.message d = false ∧
          statusConsistent row.data.message d.status = true := by
      simp only [MessageData.grokRecord] at h ⊢
      grind [Results.bind_throw_ne_ok, Results.pure_eq_ok]
    obtain ⟨heq, hidentity, hdelivery⟩ := hread
    obtain ⟨rfl, rfl⟩ := Prod.mk.inj (Option.some.inj heq)
    refine ⟨row, rfl, rfl, rfl, ?_, ?_, fun d hd => ?_⟩
    · grind [identityInvalid]
    · grind [identityInvalid]
    · obtain ⟨hvalid, hstatus⟩ := hdelivery d hd
      cases hs : d.status with
      | unknown => grind [deliveryInvalid, statusConsistent]
      | finished => grind [deliveryInvalid, statusConsistent]

/-- What is kept of an input stays, but for a status that is still open. -/
structure Advances (old new : MessageData) : Prop where
  input : new.message.original = old.message.original
  delivery : ∀ d, old.grokTerminalDelivery = some d → ∃ status,
    new.grokTerminalDelivery = some { d with status := status } ∧ (d.status ≠ .unknown → status = d.status)
  result : ∀ v, old.grokTerminalResult = some v → new.grokTerminalResult = some v

theorem Advances.refl (data : MessageData) : Advances data data :=
  ⟨rfl, fun d h => ⟨d.status, h, fun _ => rfl⟩, fun _ h => h⟩

theorem Advances.trans {a b c : MessageData} (h : Advances a b) (h' : Advances b c) : Advances a c := by
  refine ⟨h'.input.trans h.input, fun d hd => ?_, fun v hv => h'.result v (h.result v hv)⟩
  obtain ⟨status, hb, hfinal⟩ := h.delivery d hd
  obtain ⟨status', hc, hfinal'⟩ := h'.delivery _ hb
  grind

/-- The deliveries are of different tasks, or of different drafts and turns. -/
def Apart (d d' : GrokTerminalDelivery) : Prop :=
  d.taskId = d'.taskId → (d.bindingId = d'.bindingId → d.rpcId ≠ d'.rpcId ∧ d.inputRevision ≠ d'.inputRevision) ∧
    (d.sessionId = d'.sessionId → samePrompt d.status d'.status = false)

theorem samePrompt_comm (a b : GrokTerminalDeliveryStatus) : samePrompt a b = samePrompt b a := by
  cases a <;> cases b <;> grind [samePrompt]

theorem Apart.symm {d d' : GrokTerminalDelivery} (h : Apart d d') : Apart d' d := by
  grind [Apart, samePrompt_comm]

/-- The row of a claimed input. -/
structure ClaimedRow (crates : Crates) (row : MessageRow) (d : GrokTerminalDelivery) : Prop where
  delivery : row.data.grokTerminalDelivery = some d
  parsed : crates.parseUuid row.data.message.messageId = .ok d.messageId
  checked : Checked d.messageId row

/-- What holds of the inputs at every moment. -/
structure Inputs (crates : Crates) (db : Tables) : Prop where
  keyed : db.Keyed
  posted : db.Posted
  kept : ∀ row ∈ db.messages, row.data = row.data.message.toData ∨ ∃ d, ClaimedRow crates row d
  apart : ∀ row ∈ db.messages, ∀ other ∈ db.messages, row ≠ other → ∀ d d',
    row.data.grokTerminalDelivery = some d → other.data.grokTerminalDelivery = some d' → Apart d d'

theorem Inputs.claimed {crates : Crates} {db : Tables} {row : MessageRow} {d : GrokTerminalDelivery}
    (h : Inputs crates db) (hrow : row ∈ db.messages) (hd : row.data.grokTerminalDelivery = some d) :
    ClaimedRow crates row d := by
  obtain hplain | ⟨d', hkept⟩ := h.kept row hrow
  · rw [hplain] at hd
    exact absurd hd (by simp [LocalCliMessage.toData])
  · rwa [Option.some.inj (hd.symm.trans hkept.delivery)]

theorem Inputs.messageId_ne {crates : Crates} {db : Tables} {row other : MessageRow} {d d' : GrokTerminalDelivery}
    (h : Inputs crates db) (hrow : row ∈ db.messages) (hother : other ∈ db.messages) (hne : row ≠ other)
    (hd : row.data.grokTerminalDelivery = some d) (hd' : other.data.grokTerminalDelivery = some d') :
    d.messageId ≠ d'.messageId := by
  intro heq
  refine hne (List.inj_on_of_nodup_map h.posted.nodup hrow hother ?_)
  rw [← h.posted.messageId_eq hrow, ← h.posted.messageId_eq hother, (h.claimed hrow hd).checked.named,
    (h.claimed hother hd').checked.named, heq]

/-- The ledger replaces the record of an input. -/
structure Turn (crates : Crates) (db : Tables) (row : MessageRow) (next : GrokTerminalInputRecord) : Prop where
  mem : row ∈ db.messages
  advances : Advances row.data next.toData
  claimed : ∃ d, ClaimedRow crates (row.set next.toData) d ∧ ∀ other ∈ db.messages, other ≠ row → ∀ d',
    other.data.grokTerminalDelivery = some d' → Apart d d'

def turned (db : Tables) (row : MessageRow) (next : GrokTerminalInputRecord) : Tables :=
  db.mapMessages fun other => if other = row then row.set next.toData else other

inductive Move (crates : Crates) (db : Tables) : Tables → Prop
  | mailbox (offered permits w) (h : MessageWrite crates offered permits db w) : Move crates db w
  | tasks (w) (hkeyed : w.Keyed) (hmessages : w.messages = db.messages) : Move crates db w
  | turn (row next) (h : Turn crates db row next) : Move crates db (turned db row next)

abbrev Moves (crates : Crates) : Tables → Tables → Prop := Relation.ReflTransGen (Move crates)

section Moving

variable {crates : Crates} {db w : Tables} {row : MessageRow}

theorem set_eq_toRow {data : MessageData} (hrow : row = row.data.toRow)
    (hsame : data.message.original = row.data.message.original) : row.set data = data.toRow := by
  simp only [LocalCliMessage.original, LocalCliMessage.mk.injEq] at hsame
  rw [hrow]
  simp only [MessageRow.set, MessageData.toRow, hsame]

theorem Turn.posted {next : GrokTerminalInputRecord} (h : Turn crates db row next) (hposted : db.Posted) :
    (turned db row next).Posted := by
  constructor
  · intro new hnew
    obtain ⟨other, hother, rfl⟩ := List.mem_map.mp hnew
    split
    · exact set_eq_toRow (hposted.columns row h.mem) h.advances.input
    · exact hposted.columns other hother
  · have hids : (turned db row next).messages.map (·.messageId) = db.messages.map (·.messageId) := by
      rw [turned, Tables.mapMessages, List.map_map]
      apply List.map_congr_left
      intro other hother
      rw [Function.comp_apply]
      split
      · rename_i heq
        rw [heq, MessageRow.set]
      · rfl
    rw [hids]
    exact hposted.nodup

theorem row_of_write {offered : LocalCliMessage → Prop} {permits : LocalCliMessage → LocalCliMessage → Prop}
    (h : MessageWrite crates offered permits db w) (hrow : row ∈ w.messages) :
    row ∈ db.messages ∨ row.data = row.data.message.toData := by
  cases h with
  | enqueued => exact (List.mem_append.mp hrow).imp_right fun hnew => by rw [List.mem_singleton.mp hnew]; rfl
  | result => exact (List.mem_append.mp hrow).imp_right fun hnew => by rw [List.mem_singleton.mp hnew]; rfl
  | moved before after =>
    obtain ⟨other, hother, rfl⟩ := List.mem_map.mp hrow
    rw [setMessage]
    split
    · exact .inr rfl
    · exact .inl hother

theorem Move.inputs (h : Move crates db w) (hinputs : Inputs crates db) : Inputs crates w := by
  obtain ⟨hkeyed, hposted, hkept, hapart⟩ := hinputs
  cases h with
  | mailbox offered permits w hwrite =>
    have hrows : ∀ row ∈ w.messages, row ∈ db.messages ∨ row.data = row.data.message.toData :=
      fun row hrow => row_of_write hwrite hrow
    refine ⟨?_, hwrite.posted hposted, by grind, by grind [LocalCliMessage.toData]⟩
    intro taskId task htask
    rw [Tables.readTask, hwrite.tasks.1] at htask
    exact hkeyed taskId task htask
  | tasks w hkeyed' hmessages =>
    refine ⟨hkeyed', ⟨?_, ?_⟩, ?_, ?_⟩
    · exact hmessages ▸ hposted.columns
    · exact hmessages ▸ hposted.nodup
    · exact hmessages ▸ hkept
    · exact hmessages ▸ hapart
  | turn row next hturn =>
    obtain ⟨d, hclaimed, hothers⟩ := hturn.claimed
    have hrows : ∀ new ∈ (turned db row next).messages,
        new = row.set next.toData ∨ new ∈ db.messages ∧ new ≠ row := by
      intro new hnew
      obtain ⟨other, hother, rfl⟩ := List.mem_map.mp hnew
      grind
    refine ⟨hkeyed, hturn.posted hposted, by grind, ?_⟩
    intro new hnew new' hnew' hne e e' he he'
    have hd := hclaimed.delivery
    have := hrows new hnew
    have := hrows new' hnew'
    grind [Apart.symm]

theorem Move.advances (h : Move crates db w) (hinputs : Inputs crates db) (hrow : row ∈ db.messages) :
    ∃ row' ∈ w.messages, row'.messageId = row.messageId ∧ Advances row.data row'.data := by
  cases h with
  | tasks w hkeyed hmessages => exact ⟨row, hmessages ▸ hrow, rfl, .refl _⟩
  | turn turned next hturn =>
    refine ⟨_, List.mem_map_of_mem hrow, ?_⟩
    split
    · rename_i heq
      rw [heq]
      exact ⟨rfl, hturn.advances⟩
    · exact ⟨rfl, .refl _⟩
  | mailbox offered permits w hwrite =>
    cases hwrite with
    | enqueued => exact ⟨row, List.mem_append_left _ hrow, rfl, .refl _⟩
    | result => exact ⟨row, List.mem_append_left _ hrow, rfl, .refl _⟩
    | moved before after hstored hsame hallowed hgrok =>
      refine ⟨_, List.mem_map_of_mem hrow, setMessage_messageId after row, ?_⟩
      rw [setMessage]
      split
      · rename_i heq
        have hid : after.messageId = before.messageId := messageId_of_original hsame
        have hfound := hinputs.posted.messageRow_of_mem hrow
        obtain ⟨found, hfound', rfl⟩ := Tables.exists_row_of_readMessage hstored
        rw [← hid, ← heq, hfound] at hfound'
        obtain rfl := Option.some.inj hfound'
        obtain hplain | ⟨d, hclaimed⟩ := hinputs.kept row hrow
        · rw [hplain]
          exact ⟨hsame, fun d hd => absurd hd (by simp [LocalCliMessage.toData]),
            fun v hv => absurd hv (by simp [LocalCliMessage.toData])⟩
        · have hsubject : after.subject = row.data.message.subject := by
            have := congrArg LocalCliMessage.subject hsame
            exact this
          obtain ⟨id, data, record, -, hread, -, hnone, hafter⟩ :=
            validateUnclaimedCancellation_eq_ok.mp (hgrok (hsubject ▸ hclaimed.checked.subject))
          obtain ⟨found, hfound', rfl, rfl, hchecked⟩ := readRecord_checked hread
          have hrecord : after.messageId = id.toText := by
            rw [hafter]
            exact hchecked.named
          rw [← hrecord, ← heq, hfound] at hfound'
          obtain rfl := Option.some.inj hfound'
          exact absurd (hclaimed.delivery.symm.trans hnone) (by simp)
      · exact .refl _
end Moving

end InfiniShell.LocalCli.GrokTerminal
