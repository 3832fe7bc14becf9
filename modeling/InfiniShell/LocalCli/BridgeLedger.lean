import Mathlib.Data.List.Find
import InfiniShell.LocalCli.BridgeChain

namespace InfiniShell.LocalCli.NativeBridge

open Collections Collections.LinkedChain Effects Effects.Program
open RuntimeHost (Uuid)

/-- A stored attempt that `read_record` reads back. -/
structure Sound (crates : Crates) (db : Tables) (record : NativeBridgeInputRecord) : Prop where
  binding : record.delivery.binding.validate crates = .ok ()
  input : validateInput record.delivery.sessionId record.message.subject record.message.body = .ok ()
  text : record.message.subject = inputSubject
  payload : validateStoredPayload crates record = .ok ()
  identity : identityInvalid crates record.delivery.messageId record.message.state record = false
  receipt : (record.message.state, record.message.receiptKind) = settledAs record.delivery.state
  task : ∃ workingDirectory, db.readTask record.delivery.taskId =
      some (bindingTaskRecord crates record.delivery.binding record.delivery.sessionId workingDirectory) ∧
    validateTask crates (bindingTaskRecord crates record.delivery.binding record.delivery.sessionId workingDirectory) =
      .ok ()

/-- The messages are these attempts, in the order of their claims. -/
structure Ledger (crates : Crates) (db : Tables) (records : List NativeBridgeInputRecord) : Prop where
  rows : db.messages = records.map (·.toData.toRow)
  sound : ∀ record ∈ records, Sound crates db record
  nodup : (records.map attemptId).Nodup

def attempts (sessionId : Uuid) (body : String) (records : List NativeBridgeInputRecord) :
    List NativeBridgeInputRecord :=
  records.filter fun record => record.delivery.sessionId = sessionId ∧ record.message.body = body

section Identity

variable {crates : Crates} {db : Tables} {record : NativeBridgeInputRecord}

variable {id : Uuid} {state : LocalCliMessageState}

theorem messageId_of_identity
    (h : identityInvalid crates id state record = false) : record.message.messageId = id.toText := by
  simp only [identityInvalid, Bool.or_eq_false_iff, decide_eq_false_iff_not, ne_eq, not_not] at h
  exact h.1.1.1.1.1.1.1.1.1.2

theorem Sound.messageId (h : Sound crates db record) : record.message.messageId = (attemptId record).toText :=
  messageId_of_identity h.identity

theorem recipient_of_identity (h : identityInvalid crates id state record = false) :
    record.message.recipientTaskId = taskId crates record.delivery.binding record.delivery.sessionId := by
  simp only [identityInvalid, Bool.or_eq_false_iff, decide_eq_false_iff_not, ne_eq, not_not] at h
  exact h.1.1.1.2.trans h.1.1.1.1.1.2

end Identity

section Reading

variable {crates : Crates} {db : Tables} {record : NativeBridgeInputRecord} {records : List NativeBridgeInputRecord}

theorem toText_injective (hlawful : crates.Lawful) : Function.Injective Uuid.toText := by
  intro a b hab
  have ha := hlawful.parseUuid_toText a
  rw [hab, hlawful.parseUuid_toText b] at ha
  exact (Except.ok.inj ha).symm

theorem bindingTask_eq {binding : NativeBridgeBindingSnapshot} {sessionId : Uuid} {workingDirectory : String}
    (h : validateTask crates (bindingTaskRecord crates binding sessionId workingDirectory) = .ok ()) :
    bindingTask crates binding sessionId workingDirectory =
      .ok (bindingTaskRecord crates binding sessionId workingDirectory) := by
  rw [bindingTask, h]
  rfl

theorem Sound.readRecord (h : Sound crates db record)
    (hrow : db.messageRow (attemptId record).toText = some record.toData.toRow) :
    readRecord crates db (attemptId record) = .ok (some (record.toData, record)) := by
  obtain ⟨workingDirectory, htask, hvalid⟩ := h.task
  have hrecord : record.toData.bridgeRecord = .ok record := rfl
  have hidentity : identityInvalid crates (attemptId record) record.toData.toRow.state record = false := h.identity
  have hbinding := bindingTask_eq hvalid
  have hdirectory : (bindingTaskRecord crates record.delivery.binding record.delivery.sessionId
      workingDirectory).workingDirectory = workingDirectory := rfl
  rw [NativeBridge.readRecord, hrow]
  change (record.toData.bridgeRecord >>= _) = _
  rw [hrecord, Results.ok_bind, h.binding, Results.ok_bind, h.input, Results.ok_bind, h.payload, Results.ok_bind,
    hidentity, if_neg Bool.false_ne_true, if_neg (fun hne => hne h.receipt), htask]
  simp only
  rw [hdirectory, hbinding, Results.ok_bind, if_neg (fun hne => hne rfl)]
  rfl

theorem Ledger.messageRow_eq (hlawful : crates.Lawful) (h : Ledger crates db records) (id : Uuid) :
    db.messageRow id.toText = (records.find? (attemptId · = id)).map (·.toData.toRow) := by
  rw [Tables.messageRow, h.rows, List.find?_map]
  apply congrArg
  refine List.find?_congr ?_
  intro record hrecord
  have hid : record.toData.toRow.messageId = (attemptId record).toText := (h.sound record hrecord).messageId
  simp only [Function.comp_apply, hid]
  exact decide_eq_decide.mpr (toText_injective hlawful).eq_iff

theorem find?_attemptId (hnodup : (records.map attemptId).Nodup) (hrecord : record ∈ records) :
    records.find? (attemptId · = attemptId record) = some record := by
  cases hfind : records.find? (attemptId · = attemptId record) with
  | none =>
    have hne : ¬(attemptId record = attemptId record) := by simpa using List.find?_eq_none.mp hfind record hrecord
    exact absurd rfl hne
  | some other =>
    have hid : attemptId other = attemptId record := by simpa using List.find?_some hfind
    exact congrArg some (List.inj_on_of_nodup_map hnodup (List.mem_of_find?_eq_some hfind) hrecord hid)

theorem Ledger.readRecord_eq (hlawful : crates.Lawful) (h : Ledger crates db records) (id : Uuid) :
    readRecord crates db id = .ok ((records.find? (attemptId · = id)).map fun record => (record.toData, record)) := by
  have hrow := h.messageRow_eq hlawful id
  cases hfind : records.find? (attemptId · = id) with
  | none =>
    rw [hfind] at hrow
    rw [readRecord, hrow]
    rfl
  | some record =>
    rw [hfind] at hrow
    obtain rfl : attemptId record = id := by simpa using List.find?_some hfind
    exact (h.sound record (List.mem_of_find?_eq_some hfind)).readRecord hrow

theorem likeTaskId_taskId (binding : NativeBridgeBindingSnapshot) (sessionId : Uuid) :
    likeTaskId (taskId crates binding sessionId) = true := by
  have happend : bytes (taskId crates binding sessionId) = bytes taskIdStart ++
      bytes (hex (crates.blake3 (crates.bridgeIdentity binding sessionId))) := by
    simp [bytes, taskId]
  rw [likeTaskId, happend, List.take_left]
  decide +kernel

theorem Ledger.nativeRecords_eq (hlawful : crates.Lawful) (h : Ledger crates db records) :
    nativeRecords crates db = .ok records := by
  have hall : (db.messages.filter fun row => likeTaskId row.recipientTaskId) = db.messages := by
    rw [List.filter_eq_self, h.rows]
    intro row hrow
    obtain ⟨record, hrecord, rfl⟩ := List.mem_map.mp hrow
    have hrecipient : record.toData.toRow.recipientTaskId =
        taskId crates record.delivery.binding record.delivery.sessionId :=
      recipient_of_identity (h.sound record hrecord).identity
    rw [hrecipient]
    exact likeTaskId_taskId _ _
  rw [nativeRecords, hall, h.rows, List.map_map, Results.mapM_eq_ok, List.forall₂_map_left_iff, List.forall₂_same]
  intro record hrecord
  have hid : record.toData.toRow.messageId = (attemptId record).toText := (h.sound record hrecord).messageId
  rw [Function.comp_apply, hid, nativeRecord, hlawful.parseUuid_toText, Results.ok_bind, h.readRecord_eq hlawful,
    find?_attemptId h.nodup hrecord]
  rfl

end Reading

section Latest

variable {crates : Crates} {db : Tables} {records : List NativeBridgeInputRecord} {sessionId : Uuid} {body : String}

def single (sessionId : Uuid) (group : List NativeBridgeInputRecord) : BTreeMap Uuid (List NativeBridgeInputRecord) :=
  if group = [] then .empty else BTreeMap.empty.insert sessionId group

theorem insert_single (sessionId : Uuid) (group : List NativeBridgeInputRecord) (record : NativeBridgeInputRecord) :
    (single sessionId group).insert sessionId (((single sessionId group).get sessionId).getD [] ++ [record]) =
      single sessionId (group ++ [record]) := by
  apply BTreeMap.ext_get
  intro key
  have hne : group ++ [record] ≠ [] := List.append_ne_nil_of_right_ne_nil _ (List.cons_ne_nil _ _)
  rw [single, single, if_neg hne]
  by_cases hnil : group = []
  · simp [hnil]
  · by_cases hkey : key = sessionId
    · simp [hnil, hkey]
    · simp [hnil, hkey]

theorem values_single (sessionId : Uuid) (group : List NativeBridgeInputRecord) :
    (single sessionId group).values = if group = [] then [] else [group] := by
  rw [single]
  split <;> rfl

theorem Sound.payloadDigest_eq {record : NativeBridgeInputRecord} (h : Sound crates db record) :
    record.delivery.payloadDigest = blakeText crates record.message.body := by
  have hpayload := h.payload
  rw [validateStoredPayload, if_pos h.text] at hpayload
  split at hpayload
  · exact absurd hpayload nofun
  · rename_i hvalid
    simp only [Bool.or_eq_true, decide_eq_true_eq, not_or, ne_eq, not_not] at hvalid
    exact hvalid.2

theorem groupBySession_eq_ok {group : List NativeBridgeInputRecord}
    {sessions : BTreeMap Uuid (List NativeBridgeInputRecord)} (hsound : ∀ record ∈ records, Sound crates db record)
    (h : groupBySession (some sessionId) inputSubject body (blakeText crates body) (single sessionId group) records =
      .ok sessions) : sessions = single sessionId (group ++ attempts sessionId body records) := by
  induction records generalizing group with
  | nil =>
    rw [groupBySession] at h
    rw [attempts, List.filter_nil, List.append_nil]
    exact (Except.ok.inj h).symm
  | cons record records ih =>
    have hrecord := hsound record List.mem_cons_self
    have ih := fun group => @ih group fun other hother => hsound other (List.mem_cons_of_mem _ hother)
    rw [groupBySession] at h
    by_cases hsession : record.delivery.sessionId = sessionId
    · by_cases hbody : record.message.body = body
      · have hdigest := hrecord.payloadDigest_eq
        rw [hbody] at hdigest
        rw [if_neg (by simp [hsession, hrecord.text, hdigest]), if_neg (fun hne => hne hbody), hsession,
          insert_single] at h
        rw [ih _ h, attempts, attempts, List.filter_cons_of_pos (by simp [hsession, hbody]), List.append_assoc]
        rfl
      · have hskip : attempts sessionId body (record :: records) = attempts sessionId body records :=
          List.filter_cons_of_neg (by simp [hbody])
        rw [hskip]
        split at h
        · exact ih _ h
        · exact absurd h nofun
    · have hskip : attempts sessionId body (record :: records) = attempts sessionId body records :=
        List.filter_cons_of_neg (by simp [hsession])
      rw [if_pos (by simp [Ne.symm hsession])] at h
      rw [hskip]
      exact ih _ h

theorem Ledger.latestInputs_eq_ok (hlawful : crates.Lawful) (hledger : Ledger crates db records)
    (hchain : AttemptChain (attempts sessionId body records)) {attachments : Attachments}
    {latest : List NativeBridgeInputRecord}
    (h : latestInputs crates attachments db (some sessionId) inputSubject body = .ok latest) :
    latest.getLast? = (attempts sessionId body records).getLast? := by
  rw [latestInputs, hledger.nativeRecords_eq hlawful, Results.ok_bind] at h
  have hstored : (records.find? fun record => inputSubject = richInputSubject && record.message.subject = inputSubject &&
      record.message.body = body && (some sessionId).all (· = record.delivery.sessionId)) = none := by
    rw [List.find?_eq_none]
    intro record hrecord
    simp [show (inputSubject = richInputSubject) = False by decide]
  simp only at h
  rw [hstored] at h
  obtain ⟨digest, hdigest, h⟩ := Results.bind_eq_ok.mp h
  obtain ⟨sessions, hsessions, h⟩ := Results.bind_eq_ok.mp h
  have hpayload : digest = blakeText crates body := by
    change payloadDigest crates attachments inputSubject body = _ at hdigest
    rw [payloadDigest] at hdigest
    obtain ⟨u, hvalid, hdigest⟩ := Results.bind_eq_ok.mp hdigest
    rw [if_pos rfl, Results.pure_eq_ok] at hdigest
    exact hdigest.symm
  rw [hpayload] at hsessions
  have heq : sessions = single sessionId ([] ++ attempts sessionId body records) :=
    groupBySession_eq_ok hledger.sound hsessions
  rw [heq, List.nil_append, values_single] at h
  split at h
  · rename_i hnil
    rw [hnil]
    rw [List.mapM_nil, Results.pure_eq_ok] at h
    rw [← h]
  · rename_i hne
    obtain ⟨before, last, hsplit⟩ := (List.eq_nil_or_concat (attempts sessionId body records)).resolve_left hne
    rw [List.concat_eq_append] at hsplit
    rw [hsplit] at hchain h ⊢
    rw [Results.mapM_eq_ok, List.forall₂_cons_left_iff] at h
    obtain ⟨head, rest, hhead, hrest, rfl⟩ := h
    rw [List.forall₂_nil_left_iff] at hrest
    rw [chainHead_eq hchain] at hhead
    rw [hrest, ← Except.ok.inj hhead, List.getLast?_concat]
    rfl

end Latest

end InfiniShell.LocalCli.NativeBridge
