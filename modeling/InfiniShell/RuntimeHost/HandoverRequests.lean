import InfiniShell.RuntimeHost.Changes
import InfiniShell.RuntimeHost.Handover

namespace InfiniShell.RuntimeHost

open Effects Effects.Program Relation

section Frame

variable {E F A B : Type} (codec : Codec)

def KeepsWatermark (p : Program Host E A) : Prop :=
  ∀ host, (p host).2.state.acknowledgedSequence = host.state.acknowledgedSequence

variable {p : Program Host E A} {f : A → Program Host E B}

theorem KeepsWatermark.bind (hp : KeepsWatermark p) (hf : ∀ a, KeepsWatermark (f a)) : KeepsWatermark (p >>= f) := by
  intro host
  have hfirst := hp host
  rw [bind_apply]
  cases hrun : p host with
  | mk result next =>
    rw [hrun] at hfirst
    cases result with
    | ok a => exact (hf a next).trans hfirst
    | error e => exact hfirst

theorem keepsWatermark_pure (a : A) : KeepsWatermark (pure a : Program Host E A) := fun _ => rfl

theorem keepsWatermark_throw (e : E) : KeepsWatermark (throw e : Program Host E A) := fun _ => rfl

theorem keepsWatermark_read (g : Host → A) : KeepsWatermark (Program.read g : Program Host E A) := fun _ => rfl

theorem keepsWatermark_ofResult (r : Except E A) : KeepsWatermark (ofResult r : Program Host E A) := fun _ => rfl

theorem keepsWatermark_modify {g : Host → Host}
    (h : ∀ host, (g host).state.acknowledgedSequence = host.state.acknowledgedSequence) :
    KeepsWatermark (modify g : Program Host E Unit) := h

theorem keepsWatermark_ensure (q : Prop) [Decidable q] (e : E) : KeepsWatermark (ensure q e : Program Host E Unit) := by
  intro host
  rw [ensure]
  split
  · rfl
  · rfl

theorem KeepsWatermark.attempt (hp : KeepsWatermark p) :
    KeepsWatermark (Program.attempt p : Program Host F (Except E A)) := hp

theorem KeepsWatermark.mapError {g : E → F} (hp : KeepsWatermark p) : KeepsWatermark (Program.mapError g p) := by
  intro host
  have hfirst := hp host
  rw [Program.mapError]
  cases hrun : p host with
  | mk result next =>
    rw [hrun] at hfirst
    cases result with
    | ok a => exact hfirst
    | error e => exact hfirst

theorem keepsWatermark_writeLine (bytes : Bytes) : KeepsWatermark (writeLine bytes) := by
  intro host
  rw [writeLine]
  cases host.faults with
  | nil => rfl
  | cons fault faults =>
    cases fault with
    | none => rfl
    | some written => rfl

theorem keepsWatermark_append (payload : JournalPayload) : KeepsWatermark (append codec payload) := by
  apply (keepsWatermark_read _).bind fun state => ?_
  apply (keepsWatermark_ensure _ _).bind fun _ => ?_
  apply (keepsWatermark_ofResult _).bind fun bytes => ?_
  apply (keepsWatermark_ensure _ _).bind fun _ => ?_
  apply (keepsWatermark_writeLine bytes).bind fun _ => ?_
  exact (keepsWatermark_ofResult _).bind fun _ => keepsWatermark_modify fun _ => rfl

theorem keepsWatermark_updateCommand (messageId : Uuid) (disposition : HostCommandDisposition) (turnId : Option String) :
    KeepsWatermark (updateCommand codec messageId disposition turnId) := by
  apply (keepsWatermark_read _).bind fun state => ?_
  cases state.commands messageId with
  | none => exact keepsWatermark_pure ()
  | some status => exact (keepsWatermark_append codec _).bind fun _ => keepsWatermark_modify fun _ => rfl

theorem keepsWatermark_recordEvent (event : RuntimeEvent) : KeepsWatermark (recordEvent codec event) := by
  apply (keepsWatermark_read _).bind fun state => ?_
  apply (keepsWatermark_ensure _ _).bind fun _ => ?_
  apply (keepsWatermark_ofResult _).bind fun encoded => ?_
  apply (keepsWatermark_append codec _).bind fun _ => ?_
  refine KeepsWatermark.bind (keepsWatermark_modify fun _ => rfl) fun _ => ?_
  split
  · exact keepsWatermark_updateCommand codec _ _ _
  · exact keepsWatermark_updateCommand codec _ _ _
  · exact keepsWatermark_pure ()

theorem keepsWatermark_authenticate (credentials : Credentials) : KeepsWatermark (authenticate credentials) :=
  (keepsWatermark_read _).bind fun _ => keepsWatermark_ensure _ _

theorem keepsWatermark_authorizeOwner (credentials : OwnerCredentials) : KeepsWatermark (authorizeOwner credentials) :=
  (keepsWatermark_authenticate _).bind fun _ => (keepsWatermark_read _).bind fun _ => keepsWatermark_ensure _ _

theorem keepsWatermark_claimOwner (credentials : Credentials) (observedEpoch : Nat) (clientId : Uuid) :
    KeepsWatermark (claimOwner codec credentials observedEpoch clientId) := by
  apply (keepsWatermark_authenticate _).bind fun _ => ?_
  apply (keepsWatermark_read _).bind fun state => ?_
  apply (keepsWatermark_ensure _ _).bind fun _ => ?_
  apply (keepsWatermark_ofResult _).bind fun ownerEpoch => ?_
  apply (keepsWatermark_append codec _).mapError.bind fun _ => ?_
  refine KeepsWatermark.bind (keepsWatermark_modify fun _ => rfl) fun _ => ?_
  refine KeepsWatermark.bind (keepsWatermark_modify fun _ => rfl) fun _ => ?_
  exact (keepsWatermark_read _).bind fun _ => keepsWatermark_pure _

theorem keepsWatermark_handleRequest {request : RuntimeHostRequest}
    (h : ∀ credentials throughSequence, request ≠ .ackEvents credentials throughSequence) :
    KeepsWatermark (handleRequest codec request) := by
  cases request with
  | inspect credentials =>
    exact (keepsWatermark_authenticate _).bind fun _ => (keepsWatermark_read _).bind fun _ => keepsWatermark_pure _
  | claimOwner credentials observedEpoch clientId => exact keepsWatermark_claimOwner codec _ _ _
  | pullEvents credentials afterSequence =>
    exact (keepsWatermark_authorizeOwner _).bind fun _ => (keepsWatermark_read _).bind fun _ => keepsWatermark_pure _
  | ackEvents credentials throughSequence => exact absurd rfl (h credentials throughSequence)
  | inspectCommands credentials messageIds =>
    exact (keepsWatermark_authorizeOwner _).bind fun _ => (keepsWatermark_read _).bind fun _ => keepsWatermark_pure _

theorem keepsWatermark_admitCommand (request : CommandRequest) (digest : String) :
    KeepsWatermark (admitCommand request digest) := by
  apply (keepsWatermark_authorizeOwner _).bind fun _ => ?_
  apply (keepsWatermark_read _).bind fun state => ?_
  apply (keepsWatermark_ensure _ _).bind fun _ => ?_
  split
  · exact keepsWatermark_pure ()
  · split
    · exact keepsWatermark_throw _
    · exact keepsWatermark_throw _

theorem keepsWatermark_checkCommand (request : CommandRequest) : KeepsWatermark (checkCommand codec request) := by
  rw [checkCommand]
  split
  · exact keepsWatermark_throw _
  · exact (keepsWatermark_admitCommand _ _).bind fun _ => keepsWatermark_pure _

theorem keepsWatermark_expectStatus (messageId : Uuid) : KeepsWatermark (expectStatus messageId) := by
  apply (keepsWatermark_read _).bind fun state => ?_
  split
  · exact keepsWatermark_pure _
  · exact keepsWatermark_throw _

theorem keepsWatermark_recordCommand (request : CommandRequest) (digest : String) (permit : Bool) :
    KeepsWatermark (recordCommand codec request digest permit) := by
  apply (keepsWatermark_admitCommand _ _).bind fun _ => ?_
  apply (keepsWatermark_append codec _).mapError.bind fun _ => ?_
  refine KeepsWatermark.bind (keepsWatermark_modify fun _ => rfl) fun _ => ?_
  refine KeepsWatermark.bind (keepsWatermark_modify fun _ => rfl) fun _ => ?_
  split
  · exact KeepsWatermark.bind (keepsWatermark_modify fun _ => rfl) fun _ => keepsWatermark_pure _
  · apply (keepsWatermark_read _).bind fun state => ?_
    apply (keepsWatermark_recordEvent codec _).attempt.bind fun result => ?_
    split
    · exact (keepsWatermark_expectStatus _).bind fun _ => keepsWatermark_throw _
    · exact keepsWatermark_throw _

theorem keepsWatermark_reportDelivery (status : HostCommandStatus) : KeepsWatermark (reportDelivery codec status) := by
  apply (keepsWatermark_read _).bind fun state => ?_
  split
  · exact keepsWatermark_pure _
  · apply (keepsWatermark_append codec _).attempt.bind fun result => ?_
    split
    · exact keepsWatermark_expectStatus _
    · exact KeepsWatermark.bind (keepsWatermark_modify fun _ => rfl) fun _ => keepsWatermark_pure _

theorem World.step_watermark {w : World} {move : Move}
    (h : ∀ credentials throughSequence, move.action ≠ .request (.ackEvents credentials throughSequence)) :
    (w.step codec move).1.state.acknowledgedSequence = w.state.acknowledgedSequence := by
  rw [World.step]
  cases haction : move.action with
  | request request =>
    refine keepsWatermark_handleRequest codec (fun credentials throughSequence heq => ?_) (w.host move.faults)
    exact h credentials throughSequence (haction.trans (congrArg Action.request heq))
  | command request =>
    have hkeeps := keepsWatermark_checkCommand codec request (w.host move.faults)
    dsimp only
    split
    · rename_i digest host hrun
      rw [hrun] at hkeeps
      exact hkeeps
    · rename_i stop host hrun
      rw [hrun] at hkeeps
      exact hkeeps
  | reserve call permit =>
    dsimp only
    split
    · split
      · rfl
      · rfl
    · rfl
  | record call =>
    dsimp only
    split
    · rename_i request digest permit hcall
      have hkeeps := keepsWatermark_recordCommand codec request digest permit (w.host move.faults)
      split
      · rename_i status host hrun
        rw [hrun] at hkeeps
        exact hkeeps
      · rename_i stop host hrun
        rw [hrun] at hkeeps
        exact hkeeps
    · rfl
  | report call =>
    dsimp only
    split
    · rename_i status hcall
      exact keepsWatermark_reportDelivery codec status (w.host move.faults)
    · rfl
  | adapterEvent event => exact keepsWatermark_recordEvent codec event (w.host move.faults)
  | exit evidence => rfl

end Frame

section Answers

variable {codec : Codec} {w : World} {faults : List WriteFault}

def Refused (stop : Stop) : Prop := ∀ response, stop = .reply response → ∃ code, response = .rejected code

theorem refused_reject (code : RuntimeHostRejection) : Refused (.reply (.rejected code)) := by
  intro response h
  exact ⟨code, (Stop.reply.inj h).symm⟩

theorem World.step_answer {request : RuntimeHostRequest} {response : RuntimeHostResponse}
    {P : RuntimeHostResponse → World → Prop}
    (h : Triple (fun host => host = w.host faults) (handleRequest codec request)
      (fun answer host => P answer (w.withHost host)) fun stop _ => Refused stop)
    (hresponse : (w.step codec ⟨.request request, faults⟩).2 = .response response)
    (haccepted : ∀ code, response ≠ .rejected code) : P response (w.step codec ⟨.request request, faults⟩).1 := by
  obtain ⟨hok, herror⟩ := h (w.host faults) rfl
  rw [World.step] at hresponse ⊢
  dsimp only at hresponse ⊢
  cases hrun : handleRequest codec request (w.host faults) with
  | mk result host =>
    rw [hrun] at hresponse
    cases result with
    | ok answer =>
      obtain rfl := Outcome.response.inj hresponse
      exact hok answer host hrun
    | error stop =>
      cases stop with
      | panicked => cases hresponse
      | reply answer =>
        obtain rfl := Outcome.response.inj hresponse
        obtain ⟨code, rfl⟩ := herror _ host hrun answer rfl
        exact absurd rfl (haccepted code)

variable {P : Host → Prop}

theorem authenticate_refuses {credentials : Credentials} :
    Triple P (authenticate credentials) (fun _ => P) fun stop _ => Refused stop := by
  refine Triple.read_bind fun _ => Triple.ensure (fun _ h _ => h.1) fun _ _ _ => ?_
  exact refused_reject _

variable {credentials : OwnerCredentials}

theorem authorizeOwner_refuses : Triple P (authorizeOwner credentials)
      (fun _ host => P host ∧ host.state.ownerEpoch = credentials.ownerEpoch ∧
        host.state.owner = some credentials.clientId) fun stop _ => Refused stop := by
  refine Triple.bind authenticate_refuses fun _ => Triple.read_bind fun state => Triple.ensure ?_ ?_
  · rintro host ⟨hhost, rfl⟩ howns
    rw [RuntimeHostState.owns, Bool.and_eq_true, decide_eq_true_iff, decide_eq_true_iff] at howns
    exact ⟨hhost, howns⟩
  · exact fun _ _ _ => refused_reject _

theorem World.step_pull {after : Nat} {hosted : List HostedEvent}
    (h : (w.step codec ⟨.request (.pullEvents credentials after), faults⟩).2 = .response (.events hosted)) :
    hosted = (((w.step codec ⟨.request (.pullEvents credentials after), faults⟩).1.state.events.filter
      fun event => event.sequence > after).take maxPullEvents) := by
  refine World.step_answer (P := fun answer v => ∀ events, answer = .events events →
    events = (v.state.events.filter fun event => event.sequence > after).take maxPullEvents) ?_ h nofun hosted rfl
  refine Triple.bind authorizeOwner_refuses fun _ => Triple.read_bind fun state => Triple.ret ?_
  rintro host ⟨-, rfl⟩ events hevents
  exact (RuntimeHostResponse.events.inj hevents).symm

theorem World.step_claim {credentials : Credentials} {observedEpoch ownerEpoch last acknowledged : Nat} {clientId : Uuid}
    {snapshot : RuntimeHostSnapshot}
    (h : (w.step codec ⟨.request (.claimOwner credentials observedEpoch clientId), faults⟩).2 =
      .response (.ownerClaimed ownerEpoch last acknowledged snapshot)) :
    last = (w.step codec ⟨.request (.claimOwner credentials observedEpoch clientId), faults⟩).1.state.lastEventSequence ∧
      acknowledged =
        (w.step codec ⟨.request (.claimOwner credentials observedEpoch clientId), faults⟩).1.state.acknowledgedSequence := by
  refine World.step_answer (P := fun answer v => ∀ e l a s, answer = .ownerClaimed e l a s →
    l = v.state.lastEventSequence ∧ a = v.state.acknowledgedSequence) ?_ h nofun _ _ _ _ rfl
  refine Triple.bind authenticate_refuses fun _ => Triple.read_bind fun state => ?_
  refine Triple.bind (Q := fun _ _ => True) (Triple.ensure (fun _ _ _ => trivial) fun _ _ _ => refused_reject _) fun _ => ?_
  refine Triple.bind (Q := fun _ _ => True) (Triple.ofResult_cases (fun _ _ _ _ => trivial) ?_) fun epoch => ?_
  · intro stop _ _ hstop
    obtain ⟨-, rfl⟩ := addOr_eq_error.mp hstop
    exact refused_reject _
  · have happend : Triple (fun _ => True) (mapError (fun _ => Stop.reply (.rejected .ownerJournalFailed))
        (append codec (.ownerClaimed epoch clientId))) (fun _ _ => True) fun stop _ => Refused stop := by
      refine Triple.mapError (Triple.of_imp (fun _ _ => trivial) (Triple.any _) (fun _ _ _ => trivial) fun _ _ _ => ?_)
      exact refused_reject _
    refine Triple.bind happend fun _ => Triple.bind (Q := fun _ _ => True) (Triple.modify fun _ _ => trivial) fun _ => ?_
    refine Triple.bind (Q := fun _ _ => True) (Triple.modify fun _ _ => trivial) fun _ => Triple.read_bind fun state => ?_
    refine Triple.ret ?_
    rintro host ⟨-, rfl⟩ e l a s heq
    obtain ⟨-, rfl, rfl, -⟩ := RuntimeHostResponse.ownerClaimed.inj heq
    exact ⟨rfl, rfl⟩

theorem World.step_acknowledge (codec : Codec) (w : World) (credentials : OwnerCredentials) (sequence : Nat)
    (faults : List WriteFault) :
    let w' := (w.step codec ⟨.request (.ackEvents credentials sequence), faults⟩).1
    w'.state.acknowledgedSequence = w.state.acknowledgedSequence ∨
      w'.state.acknowledgedSequence = sequence ∧ w.state.acknowledgedSequence < sequence ∧
        w.state.ownerEpoch = credentials.ownerEpoch ∧ w.state.owner = some credentials.clientId := by
  intro w'
  have hhandler : Triple (fun host => host = w.host faults) (ackEvents codec credentials sequence)
      (fun _ host => host.state.acknowledgedSequence = w.state.acknowledgedSequence ∨
        host.state.acknowledgedSequence = sequence ∧ w.state.acknowledgedSequence < sequence ∧
          w.state.ownerEpoch = credentials.ownerEpoch ∧ w.state.owner = some credentials.clientId)
      (fun _ host => host.state.acknowledgedSequence = w.state.acknowledgedSequence ∨
        host.state.acknowledgedSequence = sequence ∧ w.state.acknowledgedSequence < sequence ∧
          w.state.ownerEpoch = credentials.ownerEpoch ∧ w.state.owner = some credentials.clientId) := by
    refine Triple.bind (Triple.of_imp (fun _ h => h) authorizeOwner_triple (fun _ _ h => h) ?_) fun _ => ?_
    · rintro _ host rfl
      exact .inl rfl
    refine Triple.read_bind fun state => Triple.bind (Q := fun _ host => host = w.host faults ∧
      state = (w.host faults).state ∧ w.state.ownerEpoch = credentials.ownerEpoch ∧
      w.state.owner = some credentials.clientId) (Triple.ensure ?_ ?_) fun _ => ?_
    · rintro host ⟨⟨rfl, howner⟩, rfl⟩ -
      exact ⟨rfl, rfl, howner⟩
    · rintro host ⟨⟨rfl, -⟩, rfl⟩ -
      exact .inl rfl
    split
    · rename_i hgt
      rintro host ⟨rfl, rfl, howner⟩
      have happend : Triple (fun host => host = w.host faults)
          (mapError (fun _ => Stop.reply (.rejected .eventAckJournalFailed))
            (append codec (.eventsAcknowledged credentials.ownerEpoch sequence)))
          (fun _ host => host.state.acknowledgedSequence = w.state.acknowledgedSequence)
          (fun _ host => host.state.acknowledgedSequence = w.state.acknowledgedSequence ∨
            host.state.acknowledgedSequence = sequence ∧ w.state.acknowledgedSequence < sequence ∧
              w.state.ownerEpoch = credentials.ownerEpoch ∧ w.state.owner = some credentials.clientId) := by
        rintro host rfl
        have hkeeps := (keepsWatermark_append codec
          (.eventsAcknowledged credentials.ownerEpoch sequence)).mapError
          (g := fun _ => Stop.reply (.rejected .eventAckJournalFailed)) (w.host faults)
        refine ⟨fun a host' hrun => ?_, fun e host' hrun => .inl ?_⟩
        · rw [hrun] at hkeeps
          exact hkeeps
        · rw [hrun] at hkeeps
          exact hkeeps
      refine Triple.bind happend (fun _ => ?_) _ rfl
      refine Triple.bind (Triple.modify ?_) fun _ => Triple.ret fun _ h => h
      intro host hhost
      exact .inr ⟨rfl, hgt, howner⟩
    · refine Triple.ret ?_
      rintro host ⟨rfl, -⟩
      exact .inl rfl
  exact hhandler.world rfl

end Answers

end InfiniShell.RuntimeHost
