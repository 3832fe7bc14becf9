import InfiniShell.LocalCli.BridgeLedger

namespace InfiniShell.LocalCli.NativeBridge

open Collections Collections.LinkedChain Effects Effects.Program
open RuntimeHost (Uuid)

structure Consistent (records : List NativeBridgeInputRecord) : Prop where
  chains : ∀ sessionId body, AttemptChain (attempts sessionId body records)
  revisions : ∀ a ∈ records, ∀ b ∈ records, a.delivery.sessionId = b.delivery.sessionId →
    a.delivery.inputRevision = b.delivery.inputRevision → a.message.body = b.message.body

inductive Moves (records : List NativeBridgeInputRecord) : Answer → List NativeBridgeInputRecord → Prop
  | existing (record) : Moves records (.claim (.existing record)) records
  | quiet (answer) : Moves records (.record answer) records
  | claim (record) (hnew : attemptId record ∉ records.map attemptId) (hunknown : record.delivery.state = .unknown)
      (hreplaces : record.delivery.replaces =
        (attempts record.delivery.sessionId record.message.body records).getLast?.map attemptId)
      (hsettled : ∀ last ∈ (attempts record.delivery.sessionId record.message.body records).getLast?, Settled last)
      (hrevision : ∀ other ∈ records, other.delivery.sessionId = record.delivery.sessionId →
        other.delivery.inputRevision = record.delivery.inputRevision → other.message.body = record.message.body) :
      Moves records (.claim (.claimed record)) (records ++ [record])
  | settle (record next answer) (hrecord : record ∈ records) (hunknown : record.delivery.state = .unknown)
      (hnext : next ≠ .unknown) :
      Moves records (.record answer) (records.map fun other => if other = record then settle record next else other)

section Updates

variable {crates : Crates} {db : Tables} {record : NativeBridgeInputRecord} {records : List NativeBridgeInputRecord}

theorem attemptId_settle (record : NativeBridgeInputRecord) (next : NativeBridgeDeliveryState) :
    attemptId (settle record next) = attemptId record := rfl

theorem Sound.settle (h : Sound crates db record) (next : NativeBridgeDeliveryState) :
    Sound crates db (settle record next) where
  binding := h.binding
  input := h.input
  text := h.text
  payload := h.payload
  identity := by
    have hidentity := h.identity
    simp only [identityInvalid, Bool.or_eq_false_iff, decide_eq_false_iff_not, ne_eq, not_not] at hidentity ⊢
    exact ⟨hidentity.1, trivial⟩
  receipt := rfl
  task := h.task

variable {db' : Tables}

theorem Sound.of_readTask (h : Sound crates db record)
    (hread : ∀ taskId task, db.readTask taskId = some task → db'.readTask taskId = some task) :
    Sound crates db' record := by
  obtain ⟨workingDirectory, htask, hvalid⟩ := h.task
  exact ⟨h.binding, h.input, h.text, h.payload, h.identity, h.receipt, workingDirectory, hread _ _ htask, hvalid⟩

theorem Ledger.of_readTask (h : Ledger crates db records) (hmessages : db'.messages = db.messages)
    (hread : ∀ taskId task, db.readTask taskId = some task → db'.readTask taskId = some task) :
    Ledger crates db' records :=
  ⟨hmessages.trans h.rows, fun record hrecord => (h.sound record hrecord).of_readTask hread, h.nodup⟩

theorem Ledger.add (h : Ledger crates db records) (hsound : Sound crates db record)
    (hnew : attemptId record ∉ records.map attemptId) :
    Ledger crates (db.addMessage record.toData) (records ++ [record]) := by
  refine ⟨?_, ?_, ?_⟩
  · rw [Tables.addMessage, h.rows, List.map_append, List.map_singleton]
  · intro other hother
    cases List.mem_append.mp hother with
    | inl hother => exact (h.sound other hother).of_readTask fun _ _ htask => htask
    | inr hother =>
      rw [List.mem_singleton.mp hother]
      exact hsound.of_readTask fun _ _ htask => htask
  · rw [List.map_append, List.map_singleton]
    exact List.nodup_append_comm.mp (List.nodup_cons.mpr ⟨hnew, h.nodup⟩)

theorem toData_injective : Function.Injective NativeBridgeInputRecord.toData := by
  intro a b hab
  cases a
  cases b
  simp only [NativeBridgeInputRecord.toData, MessageData.mk.injEq, Option.some.injEq, true_and] at hab
  exact congrArg₂ _ hab.1 hab.2

theorem isAt_toRow (hrecord : Sound crates db record) {other : NativeBridgeInputRecord}
    (hunknown : record.delivery.state = .unknown) (next : NativeBridgeDeliveryState) :
    other.toData.toRow.isAt (settle record next).message.messageId .unknown record.toData = true ↔ other = record := by
  have hreceipt := hrecord.receipt
  rw [hunknown] at hreceipt
  have hstate : record.message.state = .unknown := (Prod.mk.inj hreceipt).1
  rw [MessageRow.isAt, Bool.and_eq_true, Bool.and_eq_true, decide_eq_true_iff, decide_eq_true_iff, decide_eq_true_iff]
  constructor
  · intro h
    exact toData_injective h.2
  · intro h
    rw [h]
    exact ⟨⟨rfl, hstate⟩, rfl⟩

theorem updateRow_triple (h : Ledger crates db records) (hrecord : record ∈ records)
    (hunknown : record.delivery.state = .unknown) (next : NativeBridgeDeliveryState) (superseded : String) :
    Triple (fun w => w = db) (updateRow .unknown record.toData (settle record next).toData superseded)
      (fun _ w => Ledger crates w (records.map fun other => if other = record then settle record next else other))
      (fun _ _ => True) := by
  have hsound := h.sound record hrecord
  refine Triple.read_then (Triple.modify_then (Triple.ensure ?_ fun _ _ _ => trivial))
  rintro w rfl hcount
  refine ⟨?_, ?_, ?_⟩
  · change db.messages.map _ = _
    rw [h.rows, List.map_map, List.map_map]
    apply List.map_congr_left
    intro other hother
    rw [Function.comp_apply, Function.comp_apply]
    have hat : other.toData.toRow.isAt (settle record next).message.messageId .unknown record.toData = true ↔ _ :=
      isAt_toRow hsound hunknown next
    by_cases heq : other = record
    · rw [if_pos heq]
      change (if other.toData.toRow.isAt (settle record next).message.messageId .unknown record.toData then _ else _) = _
      rw [if_pos (hat.mpr heq), heq]
      rfl
    · rw [if_neg heq]
      change (if other.toData.toRow.isAt (settle record next).message.messageId .unknown record.toData then _ else _) = _
      rw [if_neg fun hyes => heq (hat.mp hyes)]
  · intro other hother
    obtain ⟨before, hbefore, rfl⟩ := List.mem_map.mp hother
    have hbase : Sound crates db (if before = record then settle record next else before) := by
      split
      · exact hsound.settle next
      · exact h.sound before hbefore
    exact hbase.of_readTask fun _ _ htask => htask
  · have hids : (records.map fun other => if other = record then settle record next else other).map attemptId =
        records.map attemptId := by
      rw [List.map_map]
      apply List.map_congr_left
      intro other hother
      rw [Function.comp_apply]
      split
      · rename_i heq
        rw [attemptId_settle, heq]
      · rfl
    rw [hids]
    exact h.nodup

end Updates

section Handlers

variable {crates : Crates} {db : Tables} {records : List NativeBridgeInputRecord}

theorem bindTask_triple (task : LocalCliTask) :
    Triple (fun w => w = db) (bindTask task)
      (fun _ w => w.messages = db.messages ∧ (∀ taskId task, db.readTask taskId = some task →
        w.readTask taskId = some task) ∧ w.readTask task.taskId = some task) (fun _ _ => True) := by
  apply Triple.read_then
  dsimp only [id]
  cases hread : db.readTask task.taskId with
  | none =>
    refine Triple.of_imp (fun _ hw => hw) (writeTask_triple task) ?_ fun _ _ _ => trivial
    rintro u w ⟨rfl, -⟩
    refine ⟨rfl, ?_, ?_⟩
    · intro taskId other hother
      have hne : taskId ≠ task.taskId := by
        intro heq
        rw [heq, hread] at hother
        exact absurd hother nofun
      rw [Tables.readTask_putTask, if_neg hne, hother]
    · rw [Tables.readTask_putTask, if_pos rfl]
  | some previous =>
    refine Triple.ensure ?_ fun _ _ _ => trivial
    rintro w rfl heq
    exact ⟨rfl, fun _ _ hother => hother, heq ▸ hread⟩

/-- What the checks before the transaction leave of an input that is no rich one. -/
structure Admitted (crates : Crates) (binding : NativeBridgeBindingSnapshot) (digest : String) (task : LocalCliTask)
    (input : NativeBridgeInput) : Prop where
  bindingValid : binding.validate crates = .ok ()
  inputValid : validateInput input.sessionId input.subject input.body = .ok ()
  text : input.subject = inputSubject
  digestOf : digest = blakeText crates input.body
  ids : input.messageId ≠ 0 ∧ input.inputRevision ≠ 0
  taskOf : task = bindingTaskRecord crates binding input.sessionId input.workingDirectory
  taskValid : validateTask crates (bindingTaskRecord crates binding input.sessionId input.workingDirectory) = .ok ()

variable {input : NativeBridgeInput}

theorem Admitted.sound {binding : NativeBridgeBindingSnapshot} {digest : String} {task : LocalCliTask} (h : Admitted crates binding digest task input) (htask : db.readTask task.taskId = some task) :
    Sound crates db (claimRecord crates task binding digest input) := by
  have hrich : ¬input.subject = richInputSubject := by
    rw [h.text]
    decide
  have hid : task.taskId = taskId crates binding input.sessionId := by
    rw [h.taskOf]
    rfl
  refine ⟨h.bindingValid, h.inputValid, h.text, ?_, ?_, rfl, input.workingDirectory, ?_, h.taskValid⟩
  · have htext : (claimRecord crates task binding digest input).message.subject = inputSubject := h.text
    have hversion : (claimRecord crates task binding digest input).delivery.version = 1 := if_neg hrich
    have hsha : (claimRecord crates task binding digest input).delivery.bodySha256 = none := if_neg hrich
    have hdigest : (claimRecord crates task binding digest input).delivery.payloadDigest =
      blakeText crates (claimRecord crates task binding digest input).message.body := h.digestOf
    rw [validateStoredPayload, if_pos htext]
    simp only [hversion, hsha, hdigest, ne_eq, not_true_eq_false, decide_false, Option.isSome_none, Bool.or_self,
      Bool.false_eq_true, ↓reduceIte]
    rfl
  · simp [identityInvalid, claimRecord, h.text, isInputSubject, hid]
    exact h.ids
  · simp only [claimRecord]
    rw [htask, h.taskOf]

theorem subject_of_validateBody {subject body : String} (h : validateBody subject body = .ok ())
    (hrich : subject ≠ richInputSubject) : subject = inputSubject := by
  rw [validateBody] at h
  split at h
  · rename_i hvalid
    rw [bodyValid] at hvalid
    split at hvalid
    · assumption
    · exact absurd hvalid Bool.false_ne_true
  · exact absurd h nofun

theorem claimOnce_triple (hlawful : crates.Lawful) (hledger : Ledger crates db records)
    (hconsistent : Consistent records) {outside inside : Attachments}
    (hrich : input.subject ≠ richInputSubject) :
    Triple (fun w => w = db) (claimOnce crates outside inside input)
      (fun outcome w => ∃ records', Ledger crates w records' ∧ Moves records (.claim outcome) records')
      (fun _ w => w = db) := by
  refine Triple.ofResult_then (fun binding hbinding => Triple.ofResult_then (fun u hinput =>
    Triple.ofResult_then (fun digest hdigest => Triple.ensure_then (fun hids =>
      Triple.ofResult_then (fun task htask => transaction_triple (Triple.read_then ?_)) fun _ _ => rfl) fun _ => rfl)
      fun _ _ => rfl) fun _ _ => rfl) fun _ _ => rfl
  have hadmitted : Admitted crates binding digest task input := by
    obtain ⟨snapshot, hsnapshot, hrest⟩ := Results.bind_eq_ok.mp hbinding
    obtain ⟨u', hvalid, hsame⟩ := Results.bind_eq_ok.mp hrest
    rw [Results.pure_eq_ok] at hsame
    obtain ⟨v, htaskValid, hsameTask⟩ := Results.bind_eq_ok.mp htask
    rw [Results.pure_eq_ok] at hsameTask
    obtain ⟨v', hbody, hdigestRest⟩ := Results.bind_eq_ok.mp hdigest
    have htext := subject_of_validateBody hbody hrich
    rw [if_pos htext, Results.pure_eq_ok] at hdigestRest
    exact ⟨hsame ▸ hvalid, hinput, htext, hdigestRest.symm, ⟨hids.1, hids.2.1⟩, hsameTask.symm, htaskValid⟩
  dsimp only [id]
  rw [hledger.readRecord_eq hlawful]
  refine Triple.ofResult_then (fun found hfound => ?_) fun _ _ => trivial
  cases hfind : records.find? (attemptId · = input.messageId) with
  | some record =>
    rw [hfind] at hfound
    obtain rfl := Except.ok.inj hfound
    refine Triple.ensure_then (fun _ => Triple.ret ?_) fun _ => trivial
    rintro w rfl
    exact ⟨records, hledger, .existing record⟩
  | none =>
    rw [hfind] at hfound
    obtain rfl := Except.ok.inj hfound
    refine Triple.ofResult_then (fun latest hlatest => Triple.ensure_then (fun _ => ?_) fun _ => trivial)
      fun _ _ => trivial
    rw [hadmitted.text] at hlatest
    rw [hledger.latestInputs_eq_ok hlawful (hconsistent.chains _ _) hlatest]
    refine Triple.ofResult_then (fun followed hfollowed => ?_) fun _ _ => trivial
    cases followed with
    | some record =>
      refine Triple.ret ?_
      rintro w rfl
      exact ⟨records, hledger, .existing record⟩
    | none =>
      rw [hledger.nativeRecords_eq hlawful]
      refine Triple.ofResult_then (fun all hall => Triple.ensure_then (fun hrevision => ?_) fun _ => trivial)
        fun _ _ => trivial
      obtain rfl := Except.ok.inj hall
      refine Triple.bind (bindTask_triple task) fun u => ?_
      rintro bound ⟨hmessages, hread, hbound⟩
      refine Triple.bind (insertRow_triple _) (fun u' => Triple.ret ?_) bound rfl
      rintro w ⟨rfl, -⟩
      have hnew : attemptId (claimRecord crates task binding digest input) ∉ records.map attemptId := by
        intro hmem
        obtain ⟨other, hother, hid⟩ := List.mem_map.mp hmem
        have hnot := List.find?_eq_none.mp hfind other hother
        exact hnot (decide_eq_true hid)
      refine ⟨_, (hledger.of_readTask hmessages hread).add (hadmitted.sound hbound) hnew, .claim _ hnew rfl ?_ ?_ ?_⟩
      · change input.replaces = (attempts input.sessionId input.body records).getLast?.map attemptId
        cases hlast : (attempts input.sessionId input.body records).getLast? with
        | none =>
          rw [hlast] at hfollowed
          cases hreplaces : input.replaces with
          | none => rfl
          | some replaced =>
            rw [hreplaces, followedBy] at hfollowed
            exact absurd hfollowed nofun
        | some last =>
          rw [hlast] at hfollowed
          cases hreplaces : input.replaces with
          | none =>
            rw [hreplaces, followedBy] at hfollowed
            exact absurd hfollowed nofun
          | some replaced =>
            rw [hreplaces, followedBy] at hfollowed
            split at hfollowed
            · rename_i heq
              rw [← heq]
              rfl
            · exact absurd hfollowed nofun
      · change ∀ last ∈ (attempts input.sessionId input.body records).getLast?, Settled last
        intro last hlast hunknown
        rw [Option.mem_def] at hlast
        rw [hlast] at hfollowed
        cases hreplaces : input.replaces with
        | none =>
          rw [hreplaces, followedBy] at hfollowed
          exact absurd hfollowed nofun
        | some replaced =>
          rw [hreplaces, followedBy] at hfollowed
          rw [if_pos hunknown] at hfollowed
          split at hfollowed
          · exact absurd hfollowed nofun
          · exact absurd hfollowed nofun
      · exact fun other hother hsession hsame => (hrevision other hother hsession hsame).2

theorem found_of_readRecord (hlawful : crates.Lawful) (hledger : Ledger crates db records) {id : Uuid} {raw : MessageData}
    {record : NativeBridgeInputRecord} (h : readRecord crates db id = .ok (some (raw, record))) :
    record ∈ records ∧ raw = record.toData := by
  rw [hledger.readRecord_eq hlawful] at h
  obtain ⟨found, hfound, heq⟩ := Option.map_eq_some_iff.mp (Except.ok.inj h)
  obtain ⟨rfl, rfl⟩ := Prod.mk.inj heq
  exact ⟨List.mem_of_find?_eq_some hfound, rfl⟩

theorem receiptState_settles {stored : NativeBridgeDelivery} {response : BridgeResponse}
    {next : NativeBridgeDeliveryState} (h : receiptState stored response = .ok (some next)) : next ≠ .unknown := by
  cases response with
  | receipt receipt =>
    rw [receiptState] at h
    split at h
    · exact absurd h nofun
    · split at h
      · exact absurd h nofun
      · exact absurd h nofun
      · exact absurd h nofun
      · cases h
        exact nofun
      · cases h
        exact nofun
  | unknown messageId =>
    rw [receiptState] at h
    split at h
    · exact absurd h nofun
    · exact absurd h nofun
  | rejected reason =>
    rw [receiptState] at h
    split at h
    · exact absurd h nofun
    · exact absurd h nofun

theorem acknowledgeExact_triple (hlawful : crates.Lawful) (hledger : Ledger crates db records)
    (expected : NativeBridgeDelivery) (currentBinding response : Json) :
    Triple (fun w => w = db) (acknowledgeExact crates expected currentBinding response)
      (fun answer w => ∃ records', Ledger crates w records' ∧ Moves records (.record answer) records')
      (fun _ w => w = db) := by
  refine Triple.ofResult_then (fun binding _ => Triple.ofResult_then (fun response _ =>
    transaction_triple (Triple.read_then ?_)) fun _ _ => rfl) fun _ _ => rfl
  refine Triple.ofResult_then (fun found hfound => ?_) fun _ _ => trivial
  cases found with
  | none => exact Triple.fail fun _ _ => trivial
  | some found =>
    obtain ⟨raw, record⟩ := found
    obtain ⟨hrecord, rfl⟩ := found_of_readRecord hlawful hledger hfound
    refine Triple.ensure_then (fun _ => Triple.ofResult_then (fun next hnext => ?_) fun _ _ => trivial) fun _ => trivial
    cases next with
    | none =>
      apply Triple.ret
      rintro w rfl
      exact ⟨records, hledger, .quiet none⟩
    | some next =>
      refine Triple.ensure_then (fun _ => ?_) fun _ => trivial
      by_cases hunknown : record.delivery.state = .unknown
      · simp only [hunknown, ↓reduceIte]
        refine Triple.bind (updateRow_triple hledger hrecord hunknown next _) fun u => Triple.ret ?_
        intro w hw
        exact ⟨_, hw, .settle record next _ hrecord hunknown (receiptState_settles hnext)⟩
      · simp only [hunknown, ↓reduceIte]
        apply Triple.ret
        rintro w rfl
        exact ⟨records, hledger, .quiet _⟩

theorem markNotSentExact_triple (hlawful : crates.Lawful) (hledger : Ledger crates db records)
    (expected : NativeBridgeDelivery) :
    Triple (fun w => w = db) (markNotSentExact crates expected)
      (fun answer w => ∃ records', Ledger crates w records' ∧ Moves records (.record answer) records')
      (fun _ w => w = db) := by
  refine Triple.ensure_then (fun hexpected => transaction_triple (Triple.read_then ?_)) fun _ => rfl
  refine Triple.ofResult_then (fun found hfound => ?_) fun _ _ => trivial
  cases found with
  | none => exact Triple.fail fun _ _ => trivial
  | some found =>
    obtain ⟨raw, record⟩ := found
    obtain ⟨hrecord, rfl⟩ := found_of_readRecord hlawful hledger hfound
    refine Triple.ensure_then (fun hsame => ?_) fun _ => trivial
    have hunknown : record.delivery.state = .unknown := by
      rw [hsame]
      exact hexpected
    have hreceipt := (hledger.sound record hrecord).receipt
    rw [hunknown] at hreceipt
    have hkind : record.message.receiptKind = none := (Prod.mk.inj hreceipt).2
    have hsettle : (⟨{ record.message with state := .failed }, { record.delivery with state := .notSent }⟩ :
        NativeBridgeInputRecord) = settle record .notSent := by
      simp only [settle, settledAs, NativeBridgeInputRecord.mk.injEq, and_true]
      rw [← hkind]
    simp only [hsettle]
    refine Triple.bind (updateRow_triple hledger hrecord hunknown .notSent _) fun u => Triple.ret ?_
    intro w hw
    exact ⟨_, hw, .settle record .notSent _ hrecord hunknown nofun⟩

theorem lookupExact_triple (attachments : Attachments) (bindingValue : Json) (sessionId : Option Uuid)
    (subject body : String) :
    Triple (fun w => w = db) (lookupExact crates attachments bindingValue sessionId subject body)
      (fun _ w => w = db) (fun _ w => w = db) := by
  refine Triple.ofResult_then (fun binding _ => Triple.ofResult_then (fun u _ => Triple.ensure_then (fun _ =>
    Triple.read_then (Triple.ofResult_then (fun latest _ => ?_) fun _ _ => rfl)) fun _ => rfl) fun _ _ => rfl)
    fun _ _ => rfl
  exact Triple.of_imp (fun _ hw => hw) (Triple.ofResult fun _ hw => hw) (fun _ _ hq => hq.1) fun _ _ hr => hr

def Request.IsText : Request → Prop
  | .claim input _ _ => input.subject ≠ richInputSubject
  | _ => True

theorem handleRequest_triple (hlawful : crates.Lawful) (hledger : Ledger crates db records)
    (hconsistent : Consistent records) {request : Request} (htext : request.IsText) :
    Triple (fun w => w = db) (handleRequest crates request)
      (fun answer w => ∃ records', Ledger crates w records' ∧ Moves records answer records')
      (fun _ w => w = db) := by
  cases request with
  | claim input outside inside =>
    exact Triple.bind (claimOnce_triple hlawful hledger hconsistent htext) fun _ => Triple.ret fun _ hw => hw
  | lookup binding sessionId subject body attachments =>
    refine Triple.bind (lookupExact_triple attachments binding sessionId subject body) fun answer => Triple.ret ?_
    rintro w rfl
    exact ⟨records, hledger, .quiet answer⟩
  | acknowledge expected currentBinding response =>
    exact Triple.bind (acknowledgeExact_triple hlawful hledger expected currentBinding response) fun _ =>
      Triple.ret fun _ hw => hw
  | markNotSent expected =>
    exact Triple.bind (markNotSentExact_triple hlawful hledger expected) fun _ => Triple.ret fun _ hw => hw

end Handlers

end InfiniShell.LocalCli.NativeBridge
