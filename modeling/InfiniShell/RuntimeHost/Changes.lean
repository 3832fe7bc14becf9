import Mathlib.Logic.Relation
import InfiniShell.RuntimeHost.Runs

namespace InfiniShell.RuntimeHost

open Effects Effects.Program Relation

namespace RuntimeHostState

def line (codec : Codec) (payload : JournalPayload) (s : RuntimeHostState) : Bytes :=
  codec.encodeRecord ⟨s.nextJournalSequence, s.journalSha256, payload⟩

structure Fits (codec : Codec) (payload : JournalPayload) (s : RuntimeHostState) : Prop where
  unsealed : s.journalSealed = false
  record : (s.line codec payload).length ≤ maxJournalRecordBytes
  journal : saturatingAdd s.journalBytes ((s.line codec payload).length + 1) ≤ maxJournalBytes

def write (written : Bytes) (s : RuntimeHostState) : RuntimeHostState := { s with journal := s.journal ++ written }

def appended (codec : Codec) (payload : JournalPayload) (s : RuntimeHostState) : RuntimeHostState :=
  { s with
    journal := s.journal ++ (s.line codec payload ++ [newline])
    nextJournalSequence := s.nextJournalSequence + 1
    journalBytes := s.journalBytes + ((s.line codec payload).length + 1)
    journalSha256 := codec.sha256 (s.line codec payload) }

def setCommand (messageId : Uuid) (status : HostCommandStatus) (s : RuntimeHostState) : RuntimeHostState :=
  { s with commands := Function.update s.commands messageId (some status) }

end RuntimeHostState

def DigestOf (codec : Codec) (command : RuntimeCommand) (digest : String) : Prop :=
  ∃ bytes, codec.encodeCommand command = some bytes ∧ digest = codec.sha256 bytes

def RecordedAs (trace : List Effect) (messageId : Uuid) (digest : String) : Prop :=
  ∃ ownerEpoch clientId command, .commandRecorded ownerEpoch clientId command digest ∈ trace ∧
    command.messageId = messageId

abbrev Past := RuntimeHostState × List Effect

/-- Everything that a handler can do to the host. Where `torn` is false, a write that fails
leaves nothing in the file. -/
inductive Change (codec : Codec) (torn : Bool) : Past → Past → Prop where
  | failed (s : RuntimeHostState) (trace : List Effect) (written : Bytes) (hwritten : torn = false → written = []) :
    Change codec torn (s, trace) (s.write written, trace)
  | exhausted (s : RuntimeHostState) (trace : List Effect) (payload : JournalPayload) (hfits : s.Fits codec payload)
      (hsequence : maxU64 < s.nextJournalSequence + 1) :
    Change codec torn (s, trace) (s.write (s.line codec payload ++ [newline]), trace)
  | claim (s : RuntimeHostState) (trace : List Effect) (clientId : Uuid)
      (hfits : s.Fits codec (.ownerClaimed (s.ownerEpoch + 1) clientId)) :
    Change codec torn (s, trace)
      ({ s.appended codec (.ownerClaimed (s.ownerEpoch + 1) clientId) with
        ownerEpoch := s.ownerEpoch + 1, owner := some clientId },
        trace ++ [.ownerClaimed s.ownerEpoch (s.ownerEpoch + 1) clientId])
  | record (s : RuntimeHostState) (trace : List Effect) (clientId : Uuid) (command : RuntimeCommand) (digest : String)
      (delivered : List Effect) (howner : s.owner = some clientId) (hdigest : DigestOf codec command digest)
      (hnew : s.commands command.messageId = none)
      (hfits : s.Fits codec (.commandRecorded ⟨command.messageId, digest, .recorded, none⟩))
      (hdelivered : delivered = [] ∨ delivered = [.delivered s.ownerEpoch clientId command]) :
    Change codec torn (s, trace)
      ((s.appended codec (.commandRecorded ⟨command.messageId, digest, .recorded, none⟩)).setCommand
        command.messageId ⟨command.messageId, digest, .recorded, none⟩,
        trace ++ .commandRecorded s.ownerEpoch clientId command digest :: delivered)
  | event (s : RuntimeHostState) (trace : List Effect) (hosted : HostedEvent)
      (hsequence : hosted.sequence = (s.events.getLast?.map fun event => saturatingAdd event.sequence 1).getD 1)
      (hle : hosted.sequence ≤ maxJournalEvents)
      (hdigest : hosted.digest = codec.sha256 (codec.encodeEvent hosted.event))
      (hfits : s.Fits codec (.event hosted)) :
    Change codec torn (s, trace) (pushEvent hosted (s.appended codec (.event hosted)), trace)
  | settle (s : RuntimeHostState) (trace : List Effect) (messageId : Uuid) (status status' : HostCommandStatus)
      (hstatus : s.commands messageId = some status) (hdigest : status'.digest = status.digest)
      (hsettled : status'.disposition = .nativeAccepted ∨ status'.disposition = .failed)
      (hfits : s.Fits codec (.commandUpdated status')) :
    Change codec torn (s, trace) ((s.appended codec (.commandUpdated status')).setCommand messageId status', trace)
  | report (s : RuntimeHostState) (trace : List Effect) (status : HostCommandStatus)
      (hrecorded : RecordedAs trace status.messageId status.digest)
      (hcurrent : ∀ current, s.commands status.messageId = some current → current.disposition = .recorded)
      (hfits : s.Fits codec (.commandUpdated { status with disposition := .deliveredToAdapter })) :
    Change codec torn (s, trace)
      ((s.appended codec (.commandUpdated { status with disposition := .deliveredToAdapter })).setCommand
        status.messageId { status with disposition := .deliveredToAdapter }, trace)
  | acknowledge (s : RuntimeHostState) (trace : List Effect) (ownerEpoch throughSequence : Nat)
      (hgt : s.acknowledgedSequence < throughSequence) (hle : throughSequence ≤ s.lastEventSequence)
      (hfits : s.Fits codec (.eventsAcknowledged ownerEpoch throughSequence)) :
    Change codec torn (s, trace)
      ({ s.appended codec (.eventsAcknowledged ownerEpoch throughSequence) with
        acknowledgedSequence := throughSequence }, trace)
  | closed (s : RuntimeHostState) (trace : List Effect) :
    Change codec torn (s, trace) ({ s with journalSealed := true }, trace)

abbrev Changes (codec : Codec) (torn : Bool) : Past → Past → Prop := ReflTransGen (Change codec torn)

/-- No write that fails leaves anything in the file. -/
def Clean (faults : List WriteFault) : Prop := ∀ fault ∈ faults, fault = none ∨ fault = some 0

def Host.past (host : Host) : Past := (host.state, host.trace)

structure Reaches (codec : Codec) (torn : Bool) (h host : Host) : Prop where
  changes : Changes codec torn h.past host.past
  clean : torn = false → Clean host.faults

section Append

variable {codec : Codec} {torn : Bool} {payload : JournalPayload} {h host : Host}

theorem writeLine_triple (bytes : Bytes) (hclean : torn = false → Clean h.faults) :
    Triple (fun host => host = h) (writeLine bytes)
      (fun _ host => ∃ faults, host = { h with state := h.state.write (bytes ++ [newline]), faults := faults } ∧
        (torn = false → Clean faults))
      (fun _ host => ∃ written faults, host = { h with state := h.state.write written, faults := faults } ∧
        (torn = false → written = []) ∧ (torn = false → Clean faults)) := by
  rintro host rfl
  cases hfaults : host.faults with
  | nil =>
    rw [writeLine, hfaults]
    refine ⟨?_, ?_⟩
    · intro u host' hhost
      cases hhost
      exact ⟨[], rfl, fun _ => by simp [Clean]⟩
    · intro e host' hhost
      cases hhost
  | cons fault faults =>
    have htail : torn = false → Clean faults := fun ht => fun fault hf =>
      hclean ht fault (hfaults ▸ List.mem_cons_of_mem _ hf)
    cases fault with
    | none =>
      rw [writeLine, hfaults]
      refine ⟨?_, ?_⟩
      · intro u host' hhost
        cases hhost
        exact ⟨faults, rfl, htail⟩
      · intro e host' hhost
        cases hhost
    | some written =>
      rw [writeLine, hfaults]
      refine ⟨?_, ?_⟩
      · intro u host' hhost
        cases hhost
      · intro e host' hhost
        cases hhost
        refine ⟨_, faults, rfl, fun ht => ?_, htail⟩
        have hzero := hclean ht (some written) (hfaults ▸ List.mem_cons_self)
        simp only [reduceCtorEq, Option.some.injEq, false_or] at hzero
        rw [hzero, List.take_zero]

theorem append_triple (hreach : Reaches codec torn h host) :
    Triple (fun host' => host' = host) (append codec payload)
      (fun _ host' => ∃ faults, host' = { host with state := host.state.appended codec payload, faults := faults } ∧
        host.state.Fits codec payload ∧ (torn = false → Clean faults))
      (fun _ host' => Reaches codec torn h host') := by
  refine Triple.read_bind fun s => ?_
  rintro host' ⟨rfl, rfl⟩
  refine Triple.bind (Q := fun _ w => w = host' ∧ host'.state.journalSealed = false)
    (Triple.ensure (fun w hw hsealed => ⟨hw, hsealed⟩) fun w hw _ => hw ▸ hreach) (fun _ => ?_) host' rfl
  refine Triple.bind (Triple.ofResult fun w hw => hw.1 ▸ hreach) fun bytes => ?_
  rintro w ⟨⟨rfl, hsealed⟩, hbytes⟩
  have hline : bytes = w.state.line codec payload := by
    rw [toVec] at hbytes
    split at hbytes
    · exact (Except.ok.inj hbytes).symm
    · cases hbytes
  subst hline
  refine Triple.bind (Q := fun _ host' => host' = w ∧ w.state.Fits codec payload)
    (Triple.ensure (fun w' hw' hfits => ⟨hw', hsealed, hfits.1, hfits.2⟩) fun w' hw' _ => hw' ▸ hreach)
    (fun _ => ?_) w rfl
  rintro w' ⟨rfl, hfits⟩
  refine Triple.bind (Triple.of_imp (fun _ h => h) (writeLine_triple _ hreach.clean) (fun _ _ h => h) ?_)
    (fun _ => ?_) w' rfl
  · rintro e w' ⟨written, faults, rfl, hwritten, hclean⟩
    exact ⟨hreach.changes.tail (.failed _ _ written hwritten), hclean⟩
  · rintro w' ⟨faults, rfl, hclean⟩
    refine Triple.bind (Triple.ofResult_cases (Q := fun next w => next = w'.state.nextJournalSequence + 1 ∧
      w = { w' with state := w'.state.write (w'.state.line codec payload ++ [newline]), faults := faults }) ?_ ?_)
      (fun next => ?_) _ rfl
    · rintro next w rfl hnext
      exact ⟨(addOr_eq_ok.mp hnext).2, rfl⟩
    · rintro e w rfl hnext
      exact ⟨hreach.changes.tail (.exhausted _ _ payload hfits (addOr_eq_error.mp hnext).1), hclean⟩
    · refine Triple.modify ?_
      rintro w ⟨rfl, rfl⟩
      exact ⟨faults, rfl, hfits, hclean⟩

theorem appendOr_triple {stop : Stop} (hreach : Reaches codec torn h host) :
    Triple (fun host' => host' = host) (mapError (fun _ => stop) (append codec payload))
      (fun _ host' => ∃ faults, host' = { host with state := host.state.appended codec payload, faults := faults } ∧
        host.state.Fits codec payload ∧ (torn = false → Clean faults))
      (fun _ host' => Reaches codec torn h host') :=
  Triple.mapError (S := fun _ => Reaches codec torn h) (append_triple hreach)

end Append

section Handlers

variable {codec : Codec} {torn : Bool} {h host : Host}

theorem Reaches.refl (hclean : torn = false → Clean h.faults) : Reaches codec torn h h :=
  ⟨ReflTransGen.refl, hclean⟩

variable {messageId : Uuid}

theorem updateCommand_triple {disposition : HostCommandDisposition} {turnId : Option String}
    (hsettled : disposition = .nativeAccepted ∨ disposition = .failed) :
    Triple (Reaches codec torn h) (updateCommand codec messageId disposition turnId)
      (fun _ => Reaches codec torn h) (fun _ => Reaches codec torn h) := by
  refine Triple.read_bind fun s => ?_
  rintro host ⟨hreach, rfl⟩
  cases hstatus : host.state.commands messageId with
  | none => exact Triple.ret (fun _ hw => hw) host hreach
  | some status =>
    refine Triple.bind (append_triple hreach) (fun _ => Triple.modify ?_) host rfl
    rintro w ⟨faults, rfl, hfits, hclean⟩
    exact ⟨hreach.changes.tail (.settle _ _ messageId status _ hstatus rfl hsettled hfits), hclean⟩

theorem recordEvent_triple {event : RuntimeEvent} :
    Triple (Reaches codec torn h) (recordEvent codec event) (fun _ => Reaches codec torn h)
      (fun _ => Reaches codec torn h) := by
  refine Triple.read_bind fun s => ?_
  rintro host ⟨hreach, rfl⟩
  refine Triple.bind (Q := fun _ w => w = host ∧
    (host.state.events.getLast?.map fun event => saturatingAdd event.sequence 1).getD 1 ≤ maxJournalEvents)
    (Triple.ensure (fun w hw hle => ⟨hw, hle⟩) fun w hw _ => hw ▸ hreach) (fun _ => ?_) host rfl
  refine Triple.bind (Triple.ofResult_cases (Q := fun encoded w => w = host ∧ encoded = codec.encodeEvent event ∧
    (host.state.events.getLast?.map fun event => saturatingAdd event.sequence 1).getD 1 ≤ maxJournalEvents)
    ?_ fun _ w hw _ => hw.1 ▸ hreach) fun encoded => ?_
  · rintro encoded w ⟨hw, hle⟩ hencoded
    rw [toVec] at hencoded
    split at hencoded
    · exact ⟨hw, (Except.ok.inj hencoded).symm, hle⟩
    · cases hencoded
  rintro w ⟨rfl, rfl, hle⟩
  refine Triple.bind (append_triple hreach) (fun _ => ?_) w rfl
  rintro w' ⟨faults, rfl, hfits, hclean⟩
  refine Triple.bind (Q := fun _ => Reaches codec torn h) (Triple.modify ?_) (fun _ => ?_) _ rfl
  · rintro w' rfl
    exact ⟨hreach.changes.tail (.event _ _ _ rfl hle rfl hfits), hclean⟩
  · split
    · exact updateCommand_triple (.inl rfl)
    · exact updateCommand_triple (.inr rfl)
    · exact Triple.ret fun _ hw => hw

variable {P : Host → Prop}

theorem authenticate_triple {credentials : Credentials} :
    Triple P (authenticate credentials) (fun _ w => P w ∧ w.state.authenticate credentials.token credentials.taskId
      credentials.runtimeGeneration = true) (fun _ => P) := by
  refine Triple.read_bind fun s => Triple.ensure ?_ fun w hw _ => hw.1
  rintro w ⟨hw, rfl⟩ hauth
  exact ⟨hw, hauth⟩

variable {credentials : OwnerCredentials}

theorem authorizeOwner_triple :
    Triple P (authorizeOwner credentials) (fun _ w => P w ∧ w.state.ownerEpoch = credentials.ownerEpoch ∧
      w.state.owner = some credentials.clientId) (fun _ => P) := by
  refine Triple.bind (Triple.of_imp (fun _ h => h) authenticate_triple (fun _ _ h => h.1) fun _ _ h => h) fun _ => ?_
  refine Triple.read_bind fun s => Triple.ensure ?_ fun w hw _ => hw.1
  rintro w ⟨hw, rfl⟩ howns
  simp only [RuntimeHostState.owns, Bool.and_eq_true, decide_eq_true_eq] at howns
  exact ⟨hw, howns⟩

theorem claimOwner_triple {credentials : Credentials} {observedEpoch : Nat} {clientId : Uuid} :
    Triple (Reaches codec torn h) (claimOwner codec credentials observedEpoch clientId)
      (fun _ => Reaches codec torn h) (fun _ => Reaches codec torn h) := by
  refine Triple.bind (Triple.of_imp (fun _ h => h) authenticate_triple (fun _ _ h => h.1) fun _ _ h => h) fun _ => ?_
  refine Triple.read_bind fun s => ?_
  rintro host ⟨hreach, rfl⟩
  refine Triple.bind (Q := fun _ w => w = host ∧ observedEpoch = host.state.ownerEpoch)
    (Triple.ensure (fun w hw hle => ⟨hw, hle⟩) fun w hw _ => hw ▸ hreach) (fun _ => ?_) host rfl
  refine Triple.bind (Triple.ofResult_cases (Q := fun ownerEpoch w => w = host ∧
    observedEpoch = host.state.ownerEpoch ∧ ownerEpoch = host.state.ownerEpoch + 1) ?_
    fun _ w hw _ => hw.1 ▸ hreach) fun ownerEpoch => ?_
  · rintro ownerEpoch w ⟨hw, hobserved⟩ hepoch
    exact ⟨hw, hobserved, (addOr_eq_ok.mp hepoch).2⟩
  rintro w ⟨rfl, rfl, rfl⟩
  refine Triple.bind (appendOr_triple hreach) (fun _ => ?_) w rfl
  refine Triple.bind (Q := fun _ w' => Reaches codec torn h
    (w'.note (.ownerClaimed w.state.ownerEpoch (w.state.ownerEpoch + 1) clientId))) (Triple.modify ?_) fun _ => ?_
  · rintro w' ⟨faults, rfl, hfits, hclean⟩
    exact ⟨hreach.changes.tail (.claim _ _ clientId hfits), hclean⟩
  · refine Triple.bind (Q := fun _ => Reaches codec torn h) (Triple.modify fun _ hw => hw) fun _ => ?_
    exact Triple.read_bind fun s => Triple.ret fun _ hw => hw.1

theorem ackEvents_triple {throughSequence : Nat} :
    Triple (Reaches codec torn h) (ackEvents codec credentials throughSequence)
      (fun _ => Reaches codec torn h) (fun _ => Reaches codec torn h) := by
  refine Triple.bind (Triple.of_imp (fun _ h => h) authorizeOwner_triple (fun _ _ h => h.1) fun _ _ h => h) fun _ => ?_
  refine Triple.read_bind fun s => ?_
  rintro host ⟨hreach, rfl⟩
  refine Triple.bind (Q := fun _ w => w = host ∧ throughSequence ≤ host.state.lastEventSequence)
    (Triple.ensure (fun w hw hle => ⟨hw, by omega⟩) fun w hw _ => hw ▸ hreach) (fun _ => ?_) host rfl
  split
  · rename_i hgt
    rintro w ⟨rfl, hle⟩
    refine Triple.bind (appendOr_triple hreach) (fun _ => ?_) w rfl
    refine Triple.bind (Q := fun _ => Reaches codec torn h) (Triple.modify ?_) fun _ => Triple.ret fun _ hw => hw
    rintro w' ⟨faults, rfl, hfits, hclean⟩
    exact ⟨hreach.changes.tail (.acknowledge _ _ _ _ hgt hle hfits), hclean⟩
  · exact Triple.ret fun w hw => hw.1 ▸ hreach

theorem handleRequest_triple {request : RuntimeHostRequest} :
    Triple (Reaches codec torn h) (handleRequest codec request)
      (fun _ => Reaches codec torn h) (fun _ => Reaches codec torn h) := by
  cases request with
  | inspect credentials =>
    refine Triple.bind (Triple.of_imp (fun _ h => h) authenticate_triple (fun _ _ h => h.1) fun _ _ h => h) fun _ => ?_
    exact Triple.read_bind fun s => Triple.ret fun _ hw => hw.1
  | claimOwner credentials observedEpoch clientId => exact claimOwner_triple
  | pullEvents credentials afterSequence =>
    refine Triple.bind (Triple.of_imp (fun _ h => h) authorizeOwner_triple (fun _ _ h => h.1) fun _ _ h => h) fun _ => ?_
    exact Triple.read_bind fun s => Triple.ret fun _ hw => hw.1
  | ackEvents credentials throughSequence => exact ackEvents_triple
  | inspectCommands credentials messageIds =>
    refine Triple.bind (Triple.of_imp (fun _ h => h) authorizeOwner_triple (fun _ _ h => h.1) fun _ _ h => h) fun _ => ?_
    exact Triple.read_bind fun s => Triple.ret fun _ hw => hw.1

variable {request : CommandRequest} {digest : String}

theorem admitCommand_triple :
    Triple P (admitCommand request digest) (fun _ w => P w ∧ w.state.ownerEpoch = request.ownerEpoch ∧
      w.state.owner = some request.clientId ∧ w.state.commands request.command.messageId = none) (fun _ => P) := by
  refine Triple.bind authorizeOwner_triple fun _ => Triple.read_bind fun s => ?_
  refine Triple.bind (Q := fun _ w => (P w ∧ w.state.ownerEpoch = request.ownerEpoch ∧
    w.state.owner = some request.clientId) ∧ w.state = s) (Triple.ensure (fun w hw _ => hw) fun w hw _ => hw.1.1)
    fun _ => ?_
  cases hprevious : s.commands request.command.messageId with
  | none =>
    refine Triple.ret ?_
    rintro w ⟨⟨hw, hepoch, howner⟩, rfl⟩
    exact ⟨hw, hepoch, howner, hprevious⟩
  | some previous =>
    dsimp only
    split
    · exact Triple.fail fun w hw => hw.1.1
    · exact Triple.fail fun w hw => hw.1.1

theorem checkCommand_triple :
    Triple P (checkCommand codec request) (fun digest w => P w ∧ DigestOf codec request.command digest) (fun _ => P) := by
  rw [checkCommand]
  cases hbytes : codec.encodeCommand request.command with
  | none => exact Triple.fail fun w hw => hw
  | some bytes =>
    refine Triple.bind admitCommand_triple fun _ => Triple.ret fun w hw => ⟨hw.1, bytes, hbytes, rfl⟩

theorem expectStatus_triple : Triple P (expectStatus messageId) (fun _ => P) (fun _ => P) := by
  refine Triple.read_bind fun s => ?_
  cases s.commands messageId with
  | none => exact Triple.fail fun w hw => hw.1
  | some status => exact Triple.ret fun w hw => hw.1

theorem recordCommand_triple {permit : Bool} (hdigest : DigestOf codec request.command digest) :
    Triple (Reaches codec torn h) (recordCommand codec request digest permit)
      (fun status w => Reaches codec torn h w ∧ RecordedAs w.trace status.messageId status.digest)
      (fun _ => Reaches codec torn h) := by
  refine Triple.bind admitCommand_triple fun _ => ?_
  rintro host ⟨hreach, hepoch, howner, hnew⟩
  have hrecord := fun hfits delivered => @Change.record codec torn host.state host.trace
    request.clientId request.command digest delivered howner hdigest hnew hfits
  rw [hepoch] at hrecord
  refine Triple.bind (appendOr_triple hreach) (fun _ => ?_) host rfl
  refine Triple.bind (Q := fun _ w => Changes codec torn h.past (w.note (.commandRecorded request.ownerEpoch
    request.clientId request.command digest)).past ∧ Changes codec torn h.past ((w.note (.commandRecorded
    request.ownerEpoch request.clientId request.command digest)).note (.delivered request.ownerEpoch request.clientId
    request.command)).past ∧ (torn = false → Clean w.faults)) (Triple.modify ?_) fun _ => ?_
  · rintro w ⟨faults, rfl, hfits, hclean⟩
    refine ⟨hreach.changes.tail (hrecord hfits [] (.inl rfl)), ?_, hclean⟩
    have hdelivered := hreach.changes.tail (hrecord hfits _ (.inr rfl))
    have htrace := List.append_assoc host.trace [.commandRecorded request.ownerEpoch request.clientId request.command
      digest] [.delivered request.ownerEpoch request.clientId request.command]
    rw [List.singleton_append] at htrace
    rw [← htrace] at hdelivered
    exact hdelivered
  refine Triple.bind (Q := fun _ w => Reaches codec torn h w ∧ Changes codec torn h.past (w.note (.delivered
    request.ownerEpoch request.clientId request.command)).past ∧ RecordedAs w.trace request.command.messageId digest)
    (Triple.modify ?_) fun _ => ?_
  · rintro w ⟨hrecorded, hdelivered, hclean⟩
    exact ⟨⟨hrecorded, hclean⟩, hdelivered, _, _, _, List.mem_append_right _ List.mem_cons_self, rfl⟩
  split
  · refine Triple.bind (Triple.modify ?_) fun _ => Triple.ret fun _ hw => hw
    rintro w ⟨hrecorded, hdelivered, epoch, client, command, hmem, hid⟩
    exact ⟨⟨hdelivered, hrecorded.clean⟩, epoch, client, command, List.mem_append_left _ hmem, hid⟩
  · refine Triple.read_bind fun s => Triple.bind (Triple.of_imp (fun _ h => h.1.1) (Triple.attempt
      (S := fun _ => Reaches codec torn h) recordEvent_triple) (fun _ _ h => h) fun _ _ h => h) fun result => ?_
    cases result with
    | ok u => exact Triple.bind expectStatus_triple fun status => Triple.fail fun _ hw => hw
    | error e => exact Triple.fail fun _ hw => hw

theorem reportDelivery_triple {status : HostCommandStatus}
    (hrecorded : RecordedAs h.trace status.messageId status.digest) :
    Triple (fun w => w = h ∧ (torn = false → Clean h.faults)) (reportDelivery codec status)
      (fun _ => Reaches codec torn h) (fun _ => Reaches codec torn h) := by
  refine Triple.read_bind fun s => ?_
  rintro host ⟨⟨rfl, hclean⟩, rfl⟩
  have hreach : Reaches codec torn host host := Reaches.refl hclean
  cases hcurrent : (host.state.commands status.messageId).filter (·.disposition ≠ .recorded) with
  | some current => exact Triple.ret (fun w hw => hw ▸ hreach) host rfl
  | none =>
    refine Triple.bind (Triple.attempt (append_triple hreach)) (fun result => ?_) host rfl
    cases result with
    | error e => exact expectStatus_triple
    | ok u =>
      refine Triple.bind (Q := fun _ => Reaches codec torn host) (Triple.modify ?_) fun _ => Triple.ret fun _ hw => hw
      rintro w ⟨faults, rfl, hfits, hclean⟩
      refine ⟨hreach.changes.tail (.report _ _ status hrecorded ?_ hfits), hclean⟩
      intro current hstatus
      by_contra hne
      rw [hstatus, Option.filter_some, if_pos (by simpa using hne)] at hcurrent
      cases hcurrent

end Handlers

section Steps

variable {codec : Codec} {torn : Bool} {w : World} {move : Move}

def World.past (w : World) : Past := (w.state, w.trace)

def CommandCall.Sound (codec : Codec) (trace : List Effect) : CommandCall → Prop
  | .waiting request digest | .reserved request digest _ => DigestOf codec request.command digest
  | .sent status => RecordedAs trace status.messageId status.digest

def World.CallsSound (codec : Codec) (w : World) : Prop := ∀ call ∈ w.calls, call.Sound codec w.trace

variable {p p' : Past}

theorem Change.trace_extends (h : Change codec torn p p') : p.2 <+: p'.2 := by
  cases h with
  | claim => exact List.prefix_append _ _
  | record => exact List.prefix_append _ _
  | _ => exact List.prefix_rfl

theorem Changes.trace_extends (h : Changes codec torn p p') : p.2 <+: p'.2 := by
  induction h with
  | refl => exact List.prefix_rfl
  | tail _ h ih => exact ih.trans h.trace_extends

variable {call : CommandCall}

theorem CommandCall.Sound.mono {trace trace' : List Effect} (h : call.Sound codec trace)
    (hextends : trace <+: trace') : call.Sound codec trace' := by
  cases call with
  | sent status =>
    obtain ⟨epoch, client, command, hmem, hid⟩ := h
    exact ⟨epoch, client, command, hextends.subset hmem, hid⟩
  | _ => exact h

section

variable (hcalls : w.CallsSound codec)
include hcalls

theorem World.CallsSound.withHost {faults : List WriteFault} {host : Host}
    (hreach : Reaches codec torn (w.host faults) host) :
    Changes codec torn w.past (w.withHost host).past ∧ (w.withHost host).CallsSound codec :=
  ⟨hreach.changes, fun call hcall => (hcalls call hcall).mono hreach.changes.trace_extends⟩

theorem World.CallsSound.setCall {i : Nat}
    (hcall : call.Sound codec w.trace) : (w.setCall i call).CallsSound codec := by
  intro other hother
  cases List.mem_or_eq_of_mem_set hother with
  | inl hother => exact hcalls other hother
  | inr hother => exact hother ▸ hcall

theorem World.CallsSound.dropCall (i : Nat) : (w.dropCall i).CallsSound codec :=
  fun call hcall => hcalls call (List.mem_of_mem_eraseIdx hcall)

/-- Whatever happens next, the host changes as its handlers may change it. -/
theorem World.step_changes (hclean : torn = false → Clean move.faults) :
    Changes codec torn w.past (w.step codec move).1.past ∧ (w.step codec move).1.CallsSound codec := by
  have hrefl : Reaches codec torn (w.host move.faults) (w.host move.faults) := Reaches.refl hclean
  rw [World.step]
  cases move.action with
  | request request => exact hcalls.withHost (handleRequest_triple.world hrefl)
  | command request =>
    dsimp only
    have hcheck : Triple (Reaches codec torn (w.host move.faults)) (checkCommand codec request) _ _ := checkCommand_triple
    obtain ⟨hok, herror⟩ := hcheck _ hrefl
    split
    · rename_i digest host hchecked
      obtain ⟨hreach, hdigest⟩ := hok _ _ hchecked
      obtain ⟨hchanges, hsound⟩ := hcalls.withHost hreach
      refine ⟨hchanges, ?_⟩
      intro call hcall
      cases List.mem_append.mp hcall with
      | inl hcall => exact hsound call hcall
      | inr hcall =>
        obtain rfl := List.mem_singleton.mp hcall
        exact hdigest
    · rename_i stop host hstopped
      exact hcalls.withHost (herror _ _ hstopped)
  | reserve call permit =>
    dsimp only
    split
    · rename_i request digest hcall
      have hdigest := hcalls _ (List.mem_of_getElem? hcall)
      split
      · exact ⟨ReflTransGen.refl, hcalls.dropCall call⟩
      · exact ⟨ReflTransGen.refl, hcalls.setCall hdigest⟩
    · exact ⟨ReflTransGen.refl, hcalls⟩
  | record call =>
    dsimp only
    split
    · rename_i request digest permit hcall
      have hdigest : DigestOf codec request.command digest := hcalls _ (List.mem_of_getElem? hcall)
      have htriple : Triple (Reaches codec torn (w.host move.faults)) (recordCommand codec request digest permit) _ _ :=
        recordCommand_triple hdigest
      obtain ⟨hok, herror⟩ := htriple _ hrefl
      split
      · rename_i status host hrecord
        obtain ⟨hreach, hrecorded⟩ := hok _ _ hrecord
        obtain ⟨hchanges, hsound⟩ := hcalls.withHost hreach
        exact ⟨hchanges, hsound.setCall hrecorded⟩
      · rename_i stop host hrecord
        obtain ⟨hchanges, hsound⟩ := hcalls.withHost (herror _ _ hrecord)
        exact ⟨hchanges, hsound.dropCall call⟩
    · exact ⟨ReflTransGen.refl, hcalls⟩
  | report call =>
    dsimp only
    split
    · rename_i status hcall
      have hrecorded : RecordedAs w.trace status.messageId status.digest := hcalls _ (List.mem_of_getElem? hcall)
      have hreport : Reaches codec torn (w.host move.faults) (reportDelivery codec status (w.host move.faults)).2 :=
        (reportDelivery_triple hrecorded).world ⟨rfl, hclean⟩
      obtain ⟨hchanges, hsound⟩ := hcalls.withHost hreport
      exact ⟨hchanges, hsound.dropCall call⟩
    · exact ⟨ReflTransGen.refl, hcalls⟩
  | adapterEvent event => exact hcalls.withHost (recordEvent_triple.world hrefl)
  | exit evidence => exact ⟨ReflTransGen.single (.closed w.state w.trace), hcalls⟩

theorem World.run_changes {moves : List Move} (hclean : torn = false → ∀ move ∈ moves, Clean move.faults) :
    Changes codec torn w.past (w.run codec moves).past ∧ (w.run codec moves).CallsSound codec := by
  induction moves generalizing w with
  | nil => exact ⟨ReflTransGen.refl, hcalls⟩
  | cons move moves ih =>
    obtain ⟨hstep, hsound⟩ := World.step_changes hcalls fun ht => hclean ht move List.mem_cons_self
    obtain ⟨hrun, hfinal⟩ := ih hsound fun ht move hmove => hclean ht move (List.mem_cons_of_mem _ hmove)
    exact ⟨hstep.trans hrun, hfinal⟩

end

theorem World.callsSound_new (record : RuntimeHostRecord) (generation : Uuid) :
    (World.new record generation).CallsSound codec := by
  intro call hcall
  cases hcall

end Steps

end InfiniShell.RuntimeHost
