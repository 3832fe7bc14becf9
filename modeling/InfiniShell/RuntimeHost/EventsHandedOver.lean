import InfiniShell.RuntimeHost.HandoverRuns

namespace InfiniShell.RuntimeHost

open Effects

section Runs

variable {codec : Codec} {s : Handover}

theorem Handover.Sound.host (hlawful : codec.Lawful) (h : s.Sound codec) {move : Move}
    (hmove : ∀ credentials throughSequence, move.action ≠ .request (.ackEvents credentials throughSequence)) :
    Handover.Sound codec { s with world := (s.world.step codec move).1 } := by
  have hgrows : s.Grows codec { s with world := (s.world.step codec move).1 } :=
    ⟨h.world.extends_step hlawful, fun c hmem => ⟨c, hmem, fun _ => id⟩⟩
  exact h.grow hgrows (.inl (World.step_watermark codec hmove)) (fun _ => .inl) fun _ => .inl

theorem Handover.Sound.step (hlawful : codec.Lawful) (h : s.Sound codec) (step : HandoverStep) :
    (s.step codec step).Sound codec := by
  cases step with
  | host move =>
    rw [Handover.step]
    split
    · exact h
    · rename_i hother
      exact h.host hlawful hother
  | connect clientId reattached =>
    exact h.addConsumer fun _ _ => ⟨Handover.Follows.nil, Nat.zero_le _, rfl, rfl⟩
  | recover native known => exact h.recover hlawful native known
  | proceed i success faults =>
    rw [Handover.step]
    split
    · rename_i c hget
      exact h.proceed hlawful hget success faults
    · exact h
  | lose i =>
    rw [Handover.step]
    split
    · rename_i c hget
      exact h.setConsumer hget (fun _ => id) fun hgrows => ((h.consumer hget).grow hgrows).become trivial
    · exact h

theorem Handover.Sound.run (hlawful : codec.Lawful) (h : s.Sound codec) (steps : List HandoverStep) :
    (s.run codec steps).Sound codec := by
  induction steps generalizing s with
  | nil => exact h
  | cons step steps ih => exact ih (h.step hlawful step)

theorem Handover.sound_new (codec : Codec) (record : RuntimeHostRecord) (controllerGeneration : Uuid)
    {saved : List RuntimeHostRecoveryCheckpoint}
    (hforeign : ∀ checkpoint ∈ saved, checkpoint.runtimeGeneration ≠ record.manifest.runtimeGeneration) :
    (Handover.new record controllerGeneration saved).Sound codec where
  world := World.remembers_new record controllerGeneration
  acknowledged := ⟨le_rfl, nofun⟩
  saved := fun checkpoint hmem hsame => absurd hsame (hforeign checkpoint hmem)
  consumers := nofun

structure Handover.Complete (s : Handover) : Prop where
  numbered : Numbered s.world.state.events
  watermark : s.world.state.acknowledgedSequence ≤ s.world.state.lastEventSequence
  acknowledged : ∀ hosted ∈ s.world.state.events, hosted.sequence ≤ s.world.state.acknowledgedSequence →
    ∃ c ∈ s.consumers, hosted ∈ c.handed
  recovered : ∀ checkpoint ∈ s.saved, checkpoint.runtimeGeneration = s.world.record.manifest.runtimeGeneration →
    s.world.hostExit.isSome = true ∧ ∀ hosted ∈ s.world.state.events, hosted.sequence ≤ checkpoint.recoveredThrough →
      ∃ c ∈ s.consumers, hosted ∈ c.handed
  inOrder : ∀ c ∈ s.consumers, s.Follows c.watermark c.handed
  rounds : ∀ c ∈ s.consumers, c.rounds ≤ c.target - c.watermark

theorem Handover.Sound.complete (h : s.Sound codec) : s.Complete where
  numbered := h.world.numbered
  watermark := h.world.lastEventSequence_eq ▸ h.world.acknowledged_le
  acknowledged := h.acknowledged.handed
  recovered := by
    intro checkpoint hmem hgeneration
    obtain ⟨hexited, hhanded⟩ := h.saved checkpoint hmem hgeneration
    exact ⟨hexited, hhanded.handed⟩
  inOrder := fun c hmem => (h.consumers c hmem).handed
  rounds := fun c hmem => (h.consumers c hmem).rounds

def Handover.OwnerAcknowledges (s : Handover) (step : HandoverStep) (sequence : Nat) : Prop :=
  ∃ i success faults c link hosted, step = .proceed i success faults ∧ s.consumers[i]? = some c ∧
    c.state = .committed link sequence hosted ∧ s.world.state.ownerEpoch = link.ownerEpoch ∧
    s.world.state.owner = some link.clientId

/-- The watermark never goes back, and only the owner moves it. -/
structure Handover.Advances (codec : Codec) (s : Handover) (step : HandoverStep) : Prop where
  monotone : s.world.state.acknowledgedSequence ≤ (s.step codec step).world.state.acknowledgedSequence
  owner : s.world.state.acknowledgedSequence < (s.step codec step).world.state.acknowledgedSequence →
    s.OwnerAcknowledges step (s.step codec step).world.state.acknowledgedSequence

theorem Handover.Advances.of_eq {step : HandoverStep}
    (h : (s.step codec step).world.state.acknowledgedSequence = s.world.state.acknowledgedSequence) :
    s.Advances codec step :=
  ⟨h.ge, fun hlt => absurd h hlt.ne'⟩

theorem Handover.watermark_save (s : Handover) (success : Bool) (sequence i : Nat) (c : Consumer) :
    ((s.save success sequence).setConsumer i c).world.state.acknowledgedSequence = s.world.state.acknowledgedSequence := by
  cases success with
  | false => rfl
  | true => rfl

theorem Consumer.world_inspect (codec : Codec) (w : World) (c : Consumer) (clientId : Uuid) (reattached : Bool)
    (faults : List WriteFault) : (c.inspect codec w clientId reattached faults).1.state.acknowledgedSequence =
      w.state.acknowledgedSequence := by
  obtain ⟨state, hinspect, -⟩ := c.inspect_cases codec w clientId reattached faults
  rw [hinspect]
  exact World.step_watermark codec nofun

theorem Consumer.world_claim (codec : Codec) (w : World) (c : Consumer) (clientId : Uuid) (reattached : Bool)
    (observedEpoch : Nat) (faults : List WriteFault) :
    (c.claim codec w clientId reattached observedEpoch faults).1.state.acknowledgedSequence =
      w.state.acknowledgedSequence := by
  cases c.claim_cases codec w clientId reattached observedEpoch faults with
  | inl hended =>
    rw [hended]
    exact World.step_watermark codec nofun
  | inr hclaimed =>
    obtain ⟨ownerEpoch, hclaim⟩ := hclaimed
    rw [hclaim]
    exact World.step_watermark codec nofun

theorem Consumer.world_pull (codec : Codec) (w : World) (c : Consumer) (link : Link) (faults : List WriteFault) :
    (c.pull codec w link faults).1.state.acknowledgedSequence = w.state.acknowledgedSequence := by
  have hserved : (w.pullStep codec link faults).state.acknowledgedSequence = w.state.acknowledgedSequence :=
    World.step_watermark codec nofun
  cases c.pull_cases codec w link faults with
  | inl hquiet =>
    obtain ⟨state, hpull, -⟩ := hquiet
    cases hpull with
    | inl hsame => rw [hsame]
    | inr hpull =>
      rw [hpull]
      exact hserved
  | inr hpulled =>
    obtain ⟨rounds, hpull, -⟩ := hpulled
    rw [hpull]
    exact hserved

theorem Handover.proceed_advances {i : Nat} {c : Consumer} {success : Bool} {faults : List WriteFault}
    (hget : s.consumers[i]? = some c) (hstep : s.step codec (.proceed i success faults) = s.proceed codec i c success faults) :
    s.Advances codec (.proceed i success faults) := by
  have hsame : (s.step codec (.proceed i success faults)).world.state.acknowledgedSequence =
      s.world.state.acknowledgedSequence → s.Advances codec (.proceed i success faults) := Handover.Advances.of_eq
  rw [hstep, Handover.proceed.eq_def] at hsame
  split at hsame
  · exact hsame (c.world_inspect codec s.world _ _ faults)
  · exact hsame (c.world_claim codec s.world _ _ _ faults)
  · exact hsame (c.world_pull codec s.world _ faults)
  · exact hsame rfl
  · rename_i link sequence hosted hstate
    obtain ⟨state, hacknowledge, -⟩ := c.acknowledge_cases codec s.world link sequence hosted faults
    have hworld : (s.step codec (.proceed i success faults)).world = (s.world.step codec
        ⟨.request (.ackEvents (s.world.ownerCredentials link) sequence), faults⟩).1 := by
      rw [hstep, Handover.proceed, hstate]
      exact congrArg Prod.fst hacknowledge
    cases World.step_acknowledge codec s.world (s.world.ownerCredentials link) sequence faults with
    | inl hkept =>
      rw [← hworld] at hkept
      exact Handover.Advances.of_eq hkept
    | inr hmoved =>
      rw [← hworld] at hmoved
      obtain ⟨hsequence, hlt, hepoch, howner⟩ := hmoved
      rw [← hsequence] at hlt
      refine ⟨hlt.le, fun _ => ⟨i, success, faults, c, link, hosted, rfl, hget, ?_, hepoch, howner⟩⟩
      rw [hstate, hsequence]
  · exact hsame rfl
  · exact hsame (s.watermark_save _ _ _ _)
  · exact hsame rfl
  · exact hsame (s.watermark_save _ _ _ _)
  · exact hsame rfl

theorem Handover.advances (codec : Codec) (s : Handover) (step : HandoverStep) : s.Advances codec step := by
  cases step with
  | host move =>
    apply Handover.Advances.of_eq
    rw [Handover.step]
    split
    · rfl
    · rename_i hother
      exact World.step_watermark codec hother
  | connect clientId reattached => exact Handover.Advances.of_eq rfl
  | recover native known =>
    apply Handover.Advances.of_eq
    rw [Handover.step, Handover.recover.eq_def]
    dsimp only
    split
    · split
      · rfl
      · rfl
    · rfl
  | proceed i success faults =>
    cases hget : s.consumers[i]? with
    | some c =>
      refine Handover.proceed_advances hget ?_
      rw [Handover.step]
      simp only [hget]
    | none =>
      apply Handover.Advances.of_eq
      rw [Handover.step]
      simp only [hget]
  | lose i =>
    apply Handover.Advances.of_eq
    rw [Handover.step]
    split
    · rfl
    · rfl

/-- A consumer that claims the host starts from the watermark of that moment. -/
def Handover.StartsAtWatermark (codec : Codec) (s : Handover) (step : HandoverStep) : Prop :=
  ∀ i success faults c clientId reattached observedEpoch, step = .proceed i success faults → s.consumers[i]? = some c →
    c.state = .claiming clientId reattached observedEpoch →
    ∃ c', (s.step codec step).consumers[i]? = some c' ∧ (c'.state = .ended ∨
      c'.watermark = (s.step codec step).world.state.acknowledgedSequence ∧
        c'.target = (s.step codec step).world.state.lastEventSequence)

theorem Handover.startsAtWatermark (codec : Codec) (s : Handover) (step : HandoverStep) :
    s.StartsAtWatermark codec step := by
  rintro i success faults c clientId reattached observedEpoch rfl hget hstate
  have hstep : s.step codec (.proceed i success faults) =
      s.setWorld i (c.claim codec s.world clientId reattached observedEpoch faults) := by
    rw [Handover.step]
    simp only [hget]
    rw [Handover.proceed, hstate]
  have hi : i < s.consumers.length := (List.getElem?_eq_some_iff.mp hget).1
  rw [hstep]
  cases c.claim_cases codec s.world clientId reattached observedEpoch faults with
  | inl hended =>
    rw [hended]
    exact ⟨_, List.getElem?_set_self hi, .inl rfl⟩
  | inr hclaimed =>
    obtain ⟨ownerEpoch, hclaim⟩ := hclaimed
    rw [hclaim]
    exact ⟨_, List.getElem?_set_self hi, .inr ⟨rfl, rfl⟩⟩

/-- Every event that is acknowledged or covered by a checkpoint was handed to the commit function. -/
theorem events_handed_over (codec : Codec) (hlawful : codec.Lawful) (record : RuntimeHostRecord)
    (controllerGeneration : Uuid) (saved : List RuntimeHostRecoveryCheckpoint)
    (hforeign : ∀ checkpoint ∈ saved, checkpoint.runtimeGeneration ≠ record.manifest.runtimeGeneration)
    (steps : List HandoverStep) :
    ((Handover.new record controllerGeneration saved).run codec steps).Complete ∧
      ∀ earlier step later, steps = earlier ++ step :: later →
        ((Handover.new record controllerGeneration saved).run codec earlier).Advances codec step ∧
        ((Handover.new record controllerGeneration saved).run codec earlier).StartsAtWatermark codec step :=
  ⟨((Handover.sound_new codec record controllerGeneration hforeign).run hlawful steps).complete,
    fun _ step _ _ => ⟨Handover.advances codec _ step, Handover.startsAtWatermark codec _ step⟩⟩

end Runs

section Sample

def startedEvent : RuntimeEvent := ⟨1, none, .turnStarted "turn-a"⟩

def startedEventText : Bytes := textBytes
  "\x7b\"generation\":\"00000000-0000-0000-0000-000000000001\",\"native_session_id\":null,\"kind\":\x7b\"TurnStarted\":\x7b\"turn_id\":\"turn-a\"\x7d\x7d\x7d"

def startedEventDigest : String := "933d63ef13ed51f2457e7c5376bb4c13e8f71f2daed3228e4264e0893eff0646"

def startedRecordText : Bytes := textBytes
  "\x7b\"sequence\":2,\"previous_sha256\":\"b4338f1e67b5173e9c24cc6a33dec77601fe2bdaf4aad5377eebce8e5d10f601\",\"payload\":\x7b\"Event\":\x7b\"event\":\x7b\"sequence\":1,\"digest\":\"933d63ef13ed51f2457e7c5376bb4c13e8f71f2daed3228e4264e0893eff0646\",\"event\":\x7b\"generation\":\"00000000-0000-0000-0000-000000000001\",\"native_session_id\":null,\"kind\":\x7b\"TurnStarted\":\x7b\"turn_id\":\"turn-a\"\x7d\x7d\x7d\x7d\x7d\x7d\x7d"

def startedRecordDigest : String := "d39f4436062a7bc6de595cfec589d2344cc24ef70601b08c9e3dd44c7a400621"

def acknowledgedText : Bytes := textBytes
  "\x7b\"sequence\":3,\"previous_sha256\":\"d39f4436062a7bc6de595cfec589d2344cc24ef70601b08c9e3dd44c7a400621\",\"payload\":\x7b\"EventsAcknowledged\":\x7b\"owner_epoch\":1,\"through_sequence\":1\x7d\x7d\x7d"

noncomputable def eventTables : Codec :=
  .ofTables
    [(⟨1, "2a44e0bd3633823acbc714c9d9b16a4745d033cdb1d5336f07dffb5b0f675fae", .ownerClaimed 1 4⟩, sampleClaimText),
      (⟨2, "b4338f1e67b5173e9c24cc6a33dec77601fe2bdaf4aad5377eebce8e5d10f601",
        .event ⟨1, startedEventDigest, startedEvent⟩⟩, startedRecordText),
      (⟨3, startedRecordDigest, .eventsAcknowledged 1 1⟩, acknowledgedText)]
    []
    [(sampleClaimText, "b4338f1e67b5173e9c24cc6a33dec77601fe2bdaf4aad5377eebce8e5d10f601"),
      (startedEventText, startedEventDigest), (startedRecordText, startedRecordDigest),
      (acknowledgedText, "10b0eca01b5861ae2b8628e38df9b8fd269a96e9556423ec88d89cce9046a629")]

theorem eventTables_lawful : eventTables.Lawful :=
  Codec.lawful_ofTables (by decide +kernel) (by decide +kernel) (by decide +kernel) (by decide +kernel)

def Codec.withEvents (encodeEvent : RuntimeEvent → Bytes) (codec : Codec) : Codec := { codec with encodeEvent := encodeEvent }

theorem Codec.Lawful.withEvents {codec : Codec} (h : codec.Lawful) (encodeEvent : RuntimeEvent → Bytes) :
    (codec.withEvents encodeEvent).Lawful :=
  ⟨h.decode_encode, h.noNewline, h.nonempty, h.sha256_injective⟩

noncomputable def eventCodec : Codec :=
  eventTables.withEvents fun event => if event = startedEvent then startedEventText else [filler]

theorem eventCodec_lawful : eventCodec.Lawful := eventTables_lawful.withEvents _

def handoverSteps : List HandoverStep :=
  [.connect 4 false, .proceed 0 true [], .proceed 0 true [], .host ⟨.adapterEvent startedEvent, []⟩,
    .proceed 0 true [], .proceed 0 true [], .proceed 0 true []]

theorem events_handed_over_sample :
    ((Handover.new sampleRecord 1 []).run eventCodec handoverSteps).world.state.acknowledgedSequence = 1 ∧
      ((Handover.new sampleRecord 1 []).run eventCodec handoverSteps).Complete :=
  ⟨by decide +kernel, (events_handed_over eventCodec eventCodec_lawful sampleRecord 1 [] nofun handoverSteps).1⟩

end Sample

end InfiniShell.RuntimeHost
