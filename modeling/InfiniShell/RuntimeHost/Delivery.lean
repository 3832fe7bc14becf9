import InfiniShell.RuntimeHost.Changes
import InfiniShell.RuntimeHost.ExitRecovery

namespace InfiniShell.RuntimeHost

open Effects Effects.Program Relation

/-- A history as the host may have it, with the epoch and the owner at its end and the commands recorded in it. -/
inductive Orderly : List Effect → Nat → Option Uuid → List Uuid → Prop where
  | nil : Orderly [] 0 none []
  | claim {trace : List Effect} {epoch : Nat} {owner : Option Uuid} {recorded : List Uuid} (clientId : Uuid)
      (h : Orderly trace epoch owner recorded) :
    Orderly (trace ++ [.ownerClaimed epoch (epoch + 1) clientId]) (epoch + 1) (some clientId) recorded
  | record {trace : List Effect} {epoch : Nat} {recorded : List Uuid} {clientId : Uuid} (command : RuntimeCommand)
      (digest : String) (h : Orderly trace epoch (some clientId) recorded) (hnew : command.messageId ∉ recorded) :
    Orderly (trace ++ [.commandRecorded epoch clientId command digest]) epoch (some clientId)
      (command.messageId :: recorded)
  | deliver {trace : List Effect} {epoch : Nat} {recorded : List Uuid} {clientId : Uuid} (command : RuntimeCommand)
      (digest : String)
      (h : Orderly (trace ++ [.commandRecorded epoch clientId command digest]) epoch (some clientId) recorded) :
    Orderly (trace ++ [.commandRecorded epoch clientId command digest] ++ [.delivered epoch clientId command]) epoch
      (some clientId) recorded

def Effect.epoch : Effect → Nat
  | .ownerClaimed _ ownerEpoch _ => ownerEpoch
  | .commandRecorded ownerEpoch _ _ _ => ownerEpoch
  | .delivered ownerEpoch _ _ => ownerEpoch

/-- A later effect is of no earlier epoch, and a later claim starts a later one. -/
def Effect.Follows (a b : Effect) : Prop :=
  a.epoch ≤ b.epoch ∧ ∀ observedEpoch ownerEpoch clientId, b = .ownerClaimed observedEpoch ownerEpoch clientId →
    a.epoch < ownerEpoch

def ownerAfter (trace : List Effect) : Option (Nat × Uuid) :=
  trace.foldl (fun owner effect => match effect with
    | .ownerClaimed _ ownerEpoch clientId => some (ownerEpoch, clientId)
    | .commandRecorded _ _ _ _ | .delivered _ _ _ => owner) none

/-- The epochs that the claims observed, and those that they started. -/
def observedEpochs (trace : List Effect) : List Nat :=
  trace.filterMap fun
    | .ownerClaimed observedEpoch _ _ => some observedEpoch
    | _ => none

def claimedEpochs (trace : List Effect) : List Nat :=
  trace.filterMap fun
    | .ownerClaimed _ ownerEpoch _ => some ownerEpoch
    | _ => none

def recordedIds (trace : List Effect) : List Uuid :=
  trace.filterMap fun
    | .commandRecorded _ _ command _ => some command.messageId
    | _ => none

def deliveredIds (trace : List Effect) : List Uuid :=
  trace.filterMap fun
    | .delivered _ _ command => some command.messageId
    | _ => none

namespace Orderly

variable {trace before after : List Effect} {epoch : Nat} {owner : Option Uuid} {recorded : List Uuid}

section

variable (h : Orderly trace epoch owner recorded)
include h

theorem ownerAfter_eq : ownerAfter trace = owner.map fun clientId => (epoch, clientId) := by
  induction h with
  | nil => rfl
  | claim clientId h ih => simp [ownerAfter]
  | record command digest h hnew ih => simpa [ownerAfter] using ih
  | deliver command digest h ih => simpa [ownerAfter] using ih

theorem recordedIds_eq : recordedIds trace = recorded.reverse := by
  induction h with
  | nil => rfl
  | claim clientId h ih => simpa [recordedIds] using ih
  | record command digest h hnew ih => simpa [recordedIds] using ih
  | deliver command digest h ih => simpa [recordedIds] using ih

theorem nodup : recorded.Nodup := by
  induction h with
  | nil => exact List.nodup_nil
  | claim clientId h ih => exact ih
  | record command digest h hnew ih => exact List.nodup_cons.mpr ⟨hnew, ih⟩
  | deliver command digest h ih => exact ih

theorem epoch_le : ∀ effect ∈ trace, effect.epoch ≤ epoch := by
  induction h with
  | nil => simp
  | claim clientId h ih =>
    intro effect heffect
    cases List.mem_append.mp heffect with
    | inl heffect => exact (ih effect heffect).trans (Nat.le_succ _)
    | inr heffect => exact (List.mem_singleton.mp heffect) ▸ le_rfl
  | record command digest h hnew ih =>
    intro effect heffect
    cases List.mem_append.mp heffect with
    | inl heffect => exact ih effect heffect
    | inr heffect => exact (List.mem_singleton.mp heffect) ▸ le_rfl
  | deliver command digest h ih =>
    intro effect heffect
    cases List.mem_append.mp heffect with
    | inl heffect => exact ih effect heffect
    | inr heffect => exact (List.mem_singleton.mp heffect) ▸ le_rfl

end

theorem concat_cases {effect : Effect} {rest : List Effect} (h : trace ++ [effect] = before ++ rest) :
    rest = [] ∧ before = trace ++ [effect] ∨ ∃ rest', rest = rest' ++ [effect] ∧ trace = before ++ rest' := by
  cases List.eq_nil_or_concat rest with
  | inl hnil =>
    rw [hnil, List.append_nil] at h
    exact .inl ⟨hnil, h.symm⟩
  | inr hconcat =>
    obtain ⟨rest', last, rfl⟩ := hconcat
    rw [List.concat_eq_append, ← List.append_assoc] at h
    obtain ⟨htrace, hlast⟩ := List.append_inj' h rfl
    exact .inr ⟨rest', by rw [List.concat_eq_append, List.singleton_inj.mp hlast], htrace⟩

theorem of_append (h : Orderly trace epoch owner recorded) (htrace : trace = before ++ after) :
    ∃ epoch owner recorded, Orderly before epoch owner recorded := by
  induction h generalizing after with
  | nil =>
    obtain ⟨rfl, -⟩ := List.append_eq_nil_iff.mp htrace.symm
    exact ⟨_, _, _, .nil⟩
  | claim clientId h ih =>
    cases concat_cases htrace with
    | inl hall =>
      rw [hall.2]
      exact ⟨_, _, _, claim clientId h⟩
    | inr hrest => exact ih hrest.choose_spec.2
  | record command digest h hnew ih =>
    cases concat_cases htrace with
    | inl hall =>
      rw [hall.2]
      exact ⟨_, _, _, record command digest h hnew⟩
    | inr hrest => exact ih hrest.choose_spec.2
  | deliver command digest h ih =>
    cases concat_cases htrace with
    | inl hall =>
      rw [hall.2]
      exact ⟨_, _, _, deliver command digest h⟩
    | inr hrest => exact ih hrest.choose_spec.2

variable {clientId : Uuid} {command : RuntimeCommand} {digest : String} (h : Orderly trace epoch owner recorded)
include h

theorem ownerAfter_record (htrace : trace = before ++ [.commandRecorded epoch' clientId command digest]) :
    ownerAfter before = some (epoch', clientId) := by
  cases h with
  | nil => cases (List.append_eq_nil_iff.mp htrace.symm).2
  | claim clientId h => cases List.singleton_inj.mp (List.append_inj' htrace rfl).2
  | record command digest h hnew =>
    obtain ⟨rfl, hlast⟩ := List.append_inj' htrace rfl
    cases List.singleton_inj.mp hlast
    exact h.ownerAfter_eq
  | deliver command digest h => cases List.singleton_inj.mp (List.append_inj' htrace rfl).2

theorem recorded_of_delivered (htrace : trace = before ++ [.delivered epoch' clientId command]) :
    ∃ earlier digest, before = earlier ++ [.commandRecorded epoch' clientId command digest] := by
  cases h with
  | nil => cases (List.append_eq_nil_iff.mp htrace.symm).2
  | claim clientId h => cases List.singleton_inj.mp (List.append_inj' htrace rfl).2
  | record command digest h hnew => cases List.singleton_inj.mp (List.append_inj' htrace rfl).2
  | deliver command digest h =>
    obtain ⟨rfl, hlast⟩ := List.append_inj' htrace rfl
    cases List.singleton_inj.mp hlast
    exact ⟨_, digest, rfl⟩

theorem deliveredIds_sublist (htrace : trace = before ++ after) :
    (deliveredIds before).Sublist (recordedIds before) := by
  induction h generalizing before after with
  | nil =>
    obtain ⟨rfl, -⟩ := List.append_eq_nil_iff.mp htrace.symm
    exact List.Sublist.refl _
  | @claim trace epoch owner recorded clientId h ih =>
    cases concat_cases htrace with
    | inl hall =>
      rw [hall.2]
      simpa [deliveredIds, recordedIds] using ih (List.append_nil trace).symm
    | inr hrest => exact ih hrest.choose_spec.2
  | @record trace epoch recorded clientId command digest h hnew ih =>
    cases concat_cases htrace with
    | inl hall =>
      rw [hall.2]
      have hsub := (ih (List.append_nil trace).symm).trans (List.sublist_append_left _ [command.messageId])
      simpa [deliveredIds, recordedIds] using hsub
    | inr hrest => exact ih hrest.choose_spec.2
  | @deliver trace epoch recorded clientId command digest h ih =>
    cases concat_cases htrace with
    | inl hall =>
      rw [hall.2]
      have hbefore := ih rfl
      have hsub := hbefore.append (List.Sublist.refl [command.messageId])
      simpa [deliveredIds, recordedIds] using hsub
    | inr hrest => exact ih hrest.choose_spec.2

theorem pairwise : trace.Pairwise Effect.Follows := by
  have snoc : ∀ {trace : List Effect} {effect : Effect}, trace.Pairwise Effect.Follows →
      (∀ a ∈ trace, a.Follows effect) → (trace ++ [effect]).Pairwise Effect.Follows := by
    intro trace effect hpairwise hlast
    refine List.pairwise_append.mpr ⟨hpairwise, List.pairwise_singleton _ _, ?_⟩
    intro a ha b hb
    exact List.mem_singleton.mp hb ▸ hlast a ha
  induction h with
  | nil => exact List.Pairwise.nil
  | claim clientId h ih =>
    refine snoc ih fun a ha => ⟨(h.epoch_le a ha).trans (Nat.le_succ _), ?_⟩
    rintro observed claimed client hclaim
    cases hclaim
    exact Nat.lt_succ_of_le (h.epoch_le a ha)
  | record command digest h hnew ih =>
    exact snoc ih fun a ha => ⟨h.epoch_le a ha, fun _ _ _ hclaim => by cases hclaim⟩
  | deliver command digest h ih =>
    exact snoc ih fun a ha => ⟨h.epoch_le a ha, fun _ _ _ hclaim => by cases hclaim⟩

theorem claimedEpochs_eq :
    observedEpochs trace = List.range epoch ∧ claimedEpochs trace = (List.range epoch).map (· + 1) := by
  induction h with
  | nil => exact ⟨rfl, rfl⟩
  | claim clientId h ih =>
    obtain ⟨hobserved, hclaimed⟩ := ih
    rw [observedEpochs] at hobserved
    rw [claimedEpochs] at hclaimed
    simp [observedEpochs, claimedEpochs, hobserved, hclaimed, List.range_succ]
  | record command digest h hnew ih => simpa [observedEpochs, claimedEpochs] using ih
  | deliver command digest h ih => simpa [observedEpochs, claimedEpochs] using ih

theorem mem_recorded {epoch' : Nat} (hmem : .commandRecorded epoch' clientId command digest ∈ trace) :
    command.messageId ∈ recorded := by
  have hids : command.messageId ∈ recordedIds trace := List.mem_filterMap.mpr ⟨_, hmem, rfl⟩
  rw [h.recordedIds_eq] at hids
  exact List.mem_reverse.mp hids

theorem recorded_unique {epoch₁ epoch₂ : Nat} {client₁ client₂ : Uuid}
    {command₁ command₂ : RuntimeCommand} {digest₁ digest₂ : String}
    (h₁ : .commandRecorded epoch₁ client₁ command₁ digest₁ ∈ trace)
    (h₂ : .commandRecorded epoch₂ client₂ command₂ digest₂ ∈ trace) (hid : command₁.messageId = command₂.messageId) :
    command₁ = command₂ ∧ digest₁ = digest₂ := by
  induction h with
  | nil => cases h₁
  | claim clientId h ih => exact ih (by simpa using h₁) (by simpa using h₂)
  | record command digest h hnew ih =>
    cases List.mem_append.mp h₁ with
    | inl hold₁ =>
      cases List.mem_append.mp h₂ with
      | inl hold₂ => exact ih hold₁ hold₂
      | inr hlast₂ =>
        cases List.mem_singleton.mp hlast₂
        exact absurd (hid ▸ h.mem_recorded hold₁) hnew
    | inr hlast₁ =>
      cases List.mem_singleton.mp hlast₁
      cases List.mem_append.mp h₂ with
      | inl hold₂ => exact absurd (hid ▸ h.mem_recorded hold₂) hnew
      | inr hlast₂ =>
        cases List.mem_singleton.mp hlast₂
        exact ⟨rfl, rfl⟩
  | deliver command digest h ih => exact ih (by simpa using h₁) (by simpa using h₂)

end Orderly

section Invariant

variable {codec : Codec} {torn : Bool} {p p' : Past}

structure Past.Sound (codec : Codec) (p : Past) : Prop where
  orderly : ∃ recorded, Orderly p.2 p.1.ownerEpoch p.1.owner recorded ∧
    ∀ id, id ∈ recorded ↔ (p.1.commands id).isSome
  statuses : ∀ id status, p.1.commands id = some status → RecordedAs p.2 id status.digest
  digests : ∀ ownerEpoch clientId command digest, .commandRecorded ownerEpoch clientId command digest ∈ p.2 →
    DigestOf codec command digest

variable {trace : List Effect}

theorem Past.Sound.congr {s s' : RuntimeHostState} (h : Past.Sound codec (s, trace))
    (hepoch : s'.ownerEpoch = s.ownerEpoch) (howner : s'.owner = s.owner) (hcommands : s'.commands = s.commands) :
    Past.Sound codec (s', trace) := by
  obtain ⟨⟨recorded, horderly, hrecorded⟩, hstatuses, hdigests⟩ := h
  refine ⟨⟨recorded, ?_, ?_⟩, ?_, hdigests⟩
  · change Orderly trace s'.ownerEpoch s'.owner recorded
    rw [hepoch, howner]
    exact horderly
  · change ∀ id, id ∈ recorded ↔ (s'.commands id).isSome
    rw [hcommands]
    exact hrecorded
  · change ∀ id status, s'.commands id = some status → _
    rw [hcommands]
    exact hstatuses

variable {s : RuntimeHostState} {messageId : Uuid} {status : HostCommandStatus}

theorem Past.Sound.setCommand (h : Past.Sound codec (s, trace)) (hsome : (s.commands messageId).isSome)
    (hrecorded : RecordedAs trace messageId status.digest) :
    Past.Sound codec (s.setCommand messageId status, trace) := by
  obtain ⟨⟨recorded, horderly, hids⟩, hstatuses, hdigests⟩ := h
  refine ⟨⟨recorded, horderly, fun id => ?_⟩, fun id other hother => ?_, hdigests⟩
  · rw [hids]
    by_cases hid : id = messageId
    · simpa [RuntimeHostState.setCommand, hid] using hsome
    · simp [RuntimeHostState.setCommand, hid]
  · by_cases hid : id = messageId
    · subst hid
      simp only [RuntimeHostState.setCommand, Function.update_self, Option.some.injEq] at hother
      exact hother ▸ hrecorded
    · simp only [RuntimeHostState.setCommand, ne_eq, hid, not_false_eq_true, Function.update_of_ne] at hother
      exact hstatuses id other hother

theorem Past.Sound.commands_of_recordedAs
    (h : Past.Sound codec (s, trace)) {digest : String} (hrecorded : RecordedAs trace messageId digest) :
    ∃ status, s.commands messageId = some status ∧ status.digest = digest := by
  obtain ⟨⟨recorded, horderly, hids⟩, hstatuses, -⟩ := h
  obtain ⟨epoch, client, command, hmem, rfl⟩ := hrecorded
  obtain ⟨status, hstatus⟩ := Option.isSome_iff_exists.mp ((hids _).mp (horderly.mem_recorded hmem))
  obtain ⟨epoch', client', command', hmem', hid⟩ := hstatuses _ _ hstatus
  exact ⟨status, hstatus, (horderly.recorded_unique hmem' hmem hid).2⟩

theorem Past.sound_new (manifest : RuntimeHostManifest) (manifestSha256 : String) :
    Past.Sound codec (.new manifest manifestSha256, []) := by
  refine ⟨⟨[], .nil, fun id => by simp [RuntimeHostState.new]⟩, ?_, ?_⟩
  · intro id status hstatus
    cases hstatus
  · intro epoch client command digest hmem
    cases hmem

theorem Past.Sound.change (hsound : p.Sound codec) (h : Change codec torn p p') : p'.Sound codec := by
  cases h with
  | failed s trace written hwritten => exact hsound.congr rfl rfl rfl
  | exhausted s trace payload hfits hsequence => exact hsound.congr rfl rfl rfl
  | event s trace hosted hsequence hle hdigest hfits => exact hsound.congr rfl rfl rfl
  | acknowledge s trace ownerEpoch throughSequence hgt hle hfits => exact hsound.congr rfl rfl rfl
  | closed s trace => exact hsound.congr rfl rfl rfl
  | settle s trace messageId status status' hstatus hdigest hsettled hfits =>
    have happended : Past.Sound codec (s.appended codec (.commandUpdated status'), trace) := hsound.congr rfl rfl rfl
    exact happended.setCommand (Option.isSome_iff_exists.mpr ⟨status, hstatus⟩)
      (hdigest ▸ hsound.statuses _ _ hstatus)
  | report s trace status hrecorded hcurrent hfits =>
    obtain ⟨current, hstatus, -⟩ := hsound.commands_of_recordedAs hrecorded
    have happended : Past.Sound codec
        (s.appended codec (.commandUpdated { status with disposition := .deliveredToAdapter }), trace) :=
      hsound.congr rfl rfl rfl
    exact happended.setCommand (Option.isSome_iff_exists.mpr ⟨current, hstatus⟩) hrecorded
  | claim s trace clientId hfits =>
    obtain ⟨⟨recorded, horderly, hids⟩, hstatuses, hdigests⟩ := hsound
    refine ⟨⟨recorded, .claim clientId horderly, hids⟩, fun id status hstatus => ?_, ?_⟩
    · obtain ⟨epoch, client, command, hmem, hid⟩ := hstatuses id status hstatus
      exact ⟨epoch, client, command, List.mem_append_left _ hmem, hid⟩
    · intro epoch client command digest hmem
      exact hdigests epoch client command digest (by simpa using hmem)
  | record s trace clientId command digest delivered howner hcommand hnew hfits hdelivered =>
    obtain ⟨⟨recorded, horderly, hids⟩, hstatuses, hdigests⟩ := hsound
    change Orderly trace s.ownerEpoch s.owner recorded at horderly
    have hfresh : command.messageId ∉ recorded := fun hmem => by simpa [hnew] using (hids _).mp hmem
    rw [howner] at horderly
    have hrecord := Orderly.record command digest horderly hfresh
    have htrace : Orderly (trace ++ .commandRecorded s.ownerEpoch clientId command digest :: delivered) s.ownerEpoch
        (some clientId) (command.messageId :: recorded) := by
      cases hdelivered with
      | inl hnone => exact hnone ▸ hrecord
      | inr hone =>
        have hdeliver := Orderly.deliver command digest hrecord
        rw [List.append_assoc] at hdeliver
        exact hone ▸ hdeliver
    have hself : .commandRecorded s.ownerEpoch clientId command digest ∈
        trace ++ .commandRecorded s.ownerEpoch clientId command digest :: delivered :=
      List.mem_append_right _ List.mem_cons_self
    refine ⟨⟨command.messageId :: recorded, ?_, ?_⟩, ?_, ?_⟩
    · change Orderly _ s.ownerEpoch s.owner _
      rw [howner]
      exact htrace
    · intro id
      by_cases hid : id = command.messageId
      · simp [RuntimeHostState.setCommand, hid]
      · simpa [RuntimeHostState.setCommand, RuntimeHostState.appended, hid] using hids id
    · intro id status hstatus
      by_cases hid : id = command.messageId
      · simp only [RuntimeHostState.setCommand, hid, Function.update_self, Option.some.injEq] at hstatus
        subst hstatus
        exact ⟨_, _, command, hself, hid.symm⟩
      · simp only [RuntimeHostState.setCommand, ne_eq, hid, not_false_eq_true, Function.update_of_ne] at hstatus
        obtain ⟨epoch, client, other, hmem, hother⟩ := hstatuses id status hstatus
        exact ⟨epoch, client, other, List.mem_append_left _ hmem, hother⟩
    · intro epoch client other digest' hmem
      cases List.mem_append.mp hmem with
      | inl hold => exact hdigests epoch client other digest' hold
      | inr hnew =>
        cases List.mem_cons.mp hnew with
        | inl hlast =>
          cases hlast
          exact hcommand
        | inr hrest =>
          cases hdelivered with
          | inl hnone => rw [hnone] at hrest; cases hrest
          | inr hone => rw [hone] at hrest; cases List.mem_singleton.mp hrest

def HostCommandStatus.Settled (status : HostCommandStatus) : Prop :=
  status.disposition = .nativeAccepted ∨ status.disposition = .failed

def RuntimeHostState.Settled (messageId : Uuid) (s : RuntimeHostState) : Prop :=
  ∃ status, s.commands messageId = some status ∧ status.Settled

theorem RuntimeHostState.Settled.setCommand {id messageId : Uuid}
    (h : s.Settled id) (hstatus : id = messageId → status.Settled) : (s.setCommand messageId status).Settled id := by
  by_cases hid : id = messageId
  · exact ⟨status, by simp [RuntimeHostState.setCommand, hid], hstatus hid⟩
  · obtain ⟨other, hother, hsettled⟩ := h
    exact ⟨other, by simpa [RuntimeHostState.setCommand, hid] using hother, hsettled⟩

variable {id : Uuid}

theorem Change.settled (h : Change codec torn p p') (hsettled : p.1.Settled id) : p'.1.Settled id := by
  cases h with
  | settle s trace messageId status status' hstatus hdigest hdone hfits =>
    exact RuntimeHostState.Settled.setCommand (s := s.appended codec _) hsettled fun _ => hdone
  | report s trace status hrecorded hcurrent hfits =>
    refine RuntimeHostState.Settled.setCommand (s := s.appended codec _) hsettled ?_
    rintro rfl
    obtain ⟨current, hstatus, hdone⟩ := hsettled
    have hdisposition := hcurrent current hstatus
    simp [HostCommandStatus.Settled, hdisposition] at hdone
  | record s trace clientId command digest delivered howner hcommand hnew hfits hdelivered =>
    refine RuntimeHostState.Settled.setCommand (s := s.appended codec _) hsettled ?_
    rintro rfl
    obtain ⟨current, hstatus, -⟩ := hsettled
    rw [hnew] at hstatus
    cases hstatus
  | _ => exact hsettled

theorem Changes.settled (h : Changes codec torn p p') (hsettled : p.1.Settled id) : p'.1.Settled id := by
  induction h with
  | refl => exact hsettled
  | tail _ h ih => exact h.settled ih

theorem Changes.sound (h : Changes codec torn p p') (hsound : p.Sound codec) : p'.Sound codec := by
  induction h with
  | refl => exact hsound
  | tail _ h ih => exact ih.change h

end Invariant

section Repeats

variable {codec : Codec} {w : World}

/-- The answer to a request that repeats the identity of a recorded command: the status, to the same bytes. -/
def AnswersRepeat (codec : Codec) (w : World) (recorded command : RuntimeCommand) (outcome : Outcome) : Prop :=
  (∃ status, w.state.commands recorded.messageId = some status ∧ outcome = .response (.commandStatus status) ∧
    codec.encodeCommand command = codec.encodeCommand recorded) ∨
  ∃ code, outcome = .response (.rejected code) ∧
    (code = .commandIdentityChanged → codec.encodeCommand command ≠ codec.encodeCommand recorded)

variable {request : CommandRequest} {digest : String} {previous : HostCommandStatus}

theorem admitCommand_repeat {host : Host}
    (hprevious : host.state.commands request.command.messageId = some previous) :
    ∃ stop, admitCommand request digest host = (.error stop, host) ∧
      (stop = .reply (.commandStatus previous) ∧ previous.digest = digest ∨
        ∃ code, stop = .reply (.rejected code) ∧ (code = .commandIdentityChanged → previous.digest ≠ digest)) := by
  have htriple : Triple (fun w => w = host) (admitCommand request digest) (fun _ _ => False)
      (fun stop w => w = host ∧ (stop = .reply (.commandStatus previous) ∧ previous.digest = digest ∨
        ∃ code, stop = .reply (.rejected code) ∧ (code = .commandIdentityChanged → previous.digest ≠ digest))) := by
    refine Triple.bind (Q := fun _ w => w = host) (Triple.bind (Q := fun _ w => w = host)
      (Triple.read_bind fun s => Triple.ensure (fun w hw _ => hw.1) ?_) fun _ => Triple.read_bind fun s =>
      Triple.ensure (fun w hw _ => hw.1) ?_) fun _ => Triple.read_bind fun s => ?_
    · exact fun w hw _ => ⟨hw.1, .inr ⟨_, rfl, fun hcode => by cases hcode⟩⟩
    · exact fun w hw _ => ⟨hw.1, .inr ⟨_, rfl, fun hcode => by cases hcode⟩⟩
    refine Triple.bind (Q := fun _ w => w = host ∧ w.state = s) (Triple.ensure (fun w hw _ => hw) ?_) fun _ => ?_
    · exact fun w hw _ => ⟨hw.1, .inr ⟨_, rfl, fun hcode => by cases hcode⟩⟩
    rintro w ⟨rfl, rfl⟩
    rw [hprevious]
    dsimp only
    split
    · rename_i hdigest
      exact Triple.fail (fun w' hw' => ⟨hw'.symm, .inl ⟨rfl, hdigest⟩⟩) w rfl
    · rename_i hdigest
      exact Triple.fail (fun w' hw' => ⟨hw'.symm, .inr ⟨_, rfl, fun _ => hdigest⟩⟩) w rfl
  obtain ⟨hok, herror⟩ := htriple host rfl
  cases hrun : admitCommand request digest host with
  | mk result host' =>
    cases result with
    | ok u => exact (hok u host' hrun).elim
    | error stop =>
      obtain ⟨rfl, hstop⟩ := herror stop host' hrun
      exact ⟨stop, rfl, hstop⟩

theorem answersRepeat {recorded command : RuntimeCommand} {stop : Stop}
    (hinjective : Function.Injective codec.sha256) (hrecorded : DigestOf codec recorded previous.digest)
    (hcommand : DigestOf codec command digest) (hprevious : w.state.commands recorded.messageId = some previous)
    (hstop : stop = .reply (.commandStatus previous) ∧ previous.digest = digest ∨
      ∃ code, stop = .reply (.rejected code) ∧ (code = .commandIdentityChanged → previous.digest ≠ digest)) :
    AnswersRepeat codec w recorded command (.ofHandler (.error stop)) := by
  obtain ⟨bytes, hbytes, hprev⟩ := hrecorded
  obtain ⟨bytes', hbytes', hdigest⟩ := hcommand
  cases hstop with
  | inl hsame =>
    obtain ⟨rfl, heq⟩ := hsame
    refine .inl ⟨previous, hprevious, rfl, ?_⟩
    rw [hprev, hdigest] at heq
    rw [hbytes, hbytes', hinjective heq]
  | inr hrejected =>
    obtain ⟨code, rfl, hcode⟩ := hrejected
    refine .inr ⟨code, rfl, fun hchanged heq => hcode hchanged ?_⟩
    rw [hbytes, hbytes'] at heq
    rw [hprev, hdigest, Option.some.inj heq]

variable {recorded : RuntimeCommand} {faults : List WriteFault}

theorem World.step_command_repeat (hinjective : Function.Injective codec.sha256)
    (hrecorded : DigestOf codec recorded previous.digest) (hid : request.command.messageId = recorded.messageId)
    (hprevious : w.state.commands recorded.messageId = some previous) :
    (w.step codec ⟨.command request, faults⟩).1 = w ∧
      AnswersRepeat codec w recorded request.command (w.step codec ⟨.command request, faults⟩).2 := by
  cases hbytes : codec.encodeCommand request.command with
  | none =>
    have hcheck : checkCommand codec request (w.host faults) =
        (.error (.reply (.rejected .commandEncodingFailed)), w.host faults) := by
      rw [checkCommand, hbytes]
      rfl
    rw [World.step]
    dsimp only
    rw [hcheck]
    exact ⟨rfl, .inr ⟨_, rfl, fun hcode => by cases hcode⟩⟩
  | some bytes =>
    have hknown : (w.host faults).state.commands request.command.messageId = some previous := hid ▸ hprevious
    obtain ⟨stop, hadmit, hstop⟩ := admitCommand_repeat hknown
    have hcheck : checkCommand codec request (w.host faults) = (.error stop, w.host faults) := by
      rw [checkCommand, hbytes]
      exact bind_error hadmit
    rw [World.step]
    dsimp only
    rw [hcheck]
    exact ⟨rfl, answersRepeat hinjective hrecorded ⟨bytes, hbytes, rfl⟩ hprevious hstop⟩

theorem World.step_record_repeat (hinjective : Function.Injective codec.sha256) (hcalls : w.CallsSound codec)
    {permit : Bool} {call : Nat} (hrecorded : DigestOf codec recorded previous.digest)
    (hid : request.command.messageId = recorded.messageId)
    (hprevious : w.state.commands recorded.messageId = some previous)
    (hcall : w.calls[call]? = some (.reserved request digest permit)) :
    (w.step codec ⟨.record call, faults⟩).1 = w.dropCall call ∧
      AnswersRepeat codec w recorded request.command (w.step codec ⟨.record call, faults⟩).2 := by
  have hknown : (w.host faults).state.commands request.command.messageId = some previous := hid ▸ hprevious
  obtain ⟨stop, hadmit, hstop⟩ := admitCommand_repeat hknown
  have hrecord : recordCommand codec request digest permit (w.host faults) = (.error stop, w.host faults) :=
    bind_error hadmit
  have hdigest : DigestOf codec request.command digest := hcalls _ (List.mem_of_getElem? hcall)
  rw [World.step]
  dsimp only
  rw [hcall]
  dsimp only
  rw [hrecord]
  exact ⟨rfl, answersRepeat hinjective hrecorded hdigest hprevious hstop⟩

end Repeats

section Sample

def textBytes (text : String) : Bytes := text.toUTF8.data.toList

def sampleRecord : RuntimeHostRecord :=
  ⟨⟨"task-a", 1, 2, 3⟩, "2a44e0bd3633823acbc714c9d9b16a4745d033cdb1d5336f07dffb5b0f675fae"⟩

def sampleOwner : OwnerCredentials := ⟨⟨3, "task-a", 1⟩, 1, 4⟩

def sampleCommand : RuntimeCommand := ⟨1, 5, .interrupt "turn-a"⟩

def sampleClaimText : Bytes := textBytes
  "\x7b\"sequence\":1,\"previous_sha256\":\"2a44e0bd3633823acbc714c9d9b16a4745d033cdb1d5336f07dffb5b0f675fae\",\"payload\":\x7b\"OwnerClaimed\":\x7b\"owner_epoch\":1,\"client_id\":\"00000000-0000-0000-0000-000000000004\"\x7d\x7d\x7d"

def sampleCommandText : Bytes := textBytes
  "\x7b\"generation\":\"00000000-0000-0000-0000-000000000001\",\"message_id\":\"00000000-0000-0000-0000-000000000005\",\"action\":\x7b\"Interrupt\":\x7b\"turn_id\":\"turn-a\"\x7d\x7d\x7d"

def sampleCommandDigest : String := "2cb3c067e35e5effd6b7ee8a6b2348ea6c417dc1226354e9b366b9dfa868914a"

def sampleRecordedText : Bytes := textBytes
  "\x7b\"sequence\":2,\"previous_sha256\":\"b4338f1e67b5173e9c24cc6a33dec77601fe2bdaf4aad5377eebce8e5d10f601\",\"payload\":\x7b\"CommandRecorded\":\x7b\"status\":\x7b\"message_id\":\"00000000-0000-0000-0000-000000000005\",\"digest\":\"2cb3c067e35e5effd6b7ee8a6b2348ea6c417dc1226354e9b366b9dfa868914a\",\"disposition\":\"recorded\",\"turn_id\":null\x7d\x7d\x7d\x7d"

noncomputable def sampleCodec : Codec :=
  .ofTables
    [(⟨1, "2a44e0bd3633823acbc714c9d9b16a4745d033cdb1d5336f07dffb5b0f675fae", .ownerClaimed 1 4⟩, sampleClaimText),
      (⟨2, "b4338f1e67b5173e9c24cc6a33dec77601fe2bdaf4aad5377eebce8e5d10f601",
        .commandRecorded ⟨5, sampleCommandDigest, .recorded, none⟩⟩, sampleRecordedText)]
    [(sampleCommand, sampleCommandText)]
    [(sampleClaimText, "b4338f1e67b5173e9c24cc6a33dec77601fe2bdaf4aad5377eebce8e5d10f601"),
      (sampleCommandText, sampleCommandDigest),
      (sampleRecordedText, "c9ad61da50eb4238879ca23056897424cdc095f970cce47f69223f30f80152ad")]

theorem sampleCodec_lawful : sampleCodec.Lawful :=
  Codec.lawful_ofTables (by decide +kernel) (by decide +kernel) (by decide +kernel) (by decide +kernel)

def sampleMoves : List Move :=
  [⟨.request (.claimOwner sampleOwner.toCredentials 0 4), []⟩, ⟨.command ⟨sampleOwner, sampleCommand⟩, []⟩,
    ⟨.reserve 0 true, []⟩, ⟨.record 0, []⟩]

end Sample

end InfiniShell.RuntimeHost
