import InfiniShell.RuntimeHost.Delivery

namespace InfiniShell.RuntimeHost

open Effects Relation

def render (lines : List Bytes) : Bytes := lines.flatMap (· ++ [newline])

theorem splitOn_render {lines : List Bytes} (h : ∀ line ∈ lines, newline ∉ line) :
    (render lines).splitOn newline = lines ++ [[]] := by
  induction lines with
  | nil => rfl
  | cons line lines ih =>
    have hline : ∀ b ∈ line, (b == newline) = false := by
      intro b hb
      simp only [beq_eq_false_iff_ne]
      rintro rfl
      exact h line List.mem_cons_self hb
    have hrender : render (line :: lines) = line ++ newline :: render lines := by
      simp [render]
    have htail := ih fun other hother => h other (List.mem_cons_of_mem _ hother)
    rw [List.splitOn] at htail ⊢
    rw [hrender, List.splitOnP_append_cons_of_forall_mem hline newline (by simp), htail, List.cons_append]

namespace RuntimeHostState

def scan (s : RuntimeHostState) : JournalScan :=
  ⟨s.nextJournalSequence, s.events.length + 1, s.acknowledgedSequence, s.journalSha256, s.events⟩

/-- The file is whole lines, and a scan of them finds what the state remembers. -/
structure Synced (codec : Codec) (manifestSha256 : String) (s : RuntimeHostState) : Prop where
  lines : ∃ lines, s.journal = render lines ∧ (∀ line ∈ lines, newline ∉ line) ∧
    lines.foldlM (JournalScan.line codec) (.start manifestSha256) = .ok s.scan
  bytes : s.journalBytes = s.journal.length
  length_le : s.journal.length ≤ maxJournalBytes
  sequence_le : s.nextJournalSequence ≤ s.journal.length + 1
  numbered : s.events.map HostedEvent.sequence = List.range' 1 s.events.length
  events_le : s.events.length ≤ maxJournalEvents
  acknowledged_le : s.acknowledgedSequence ≤ s.events.length

end RuntimeHostState

section Verify

variable {codec : Codec} {manifestSha256 : String} {s : RuntimeHostState} {payload : JournalPayload}
variable {scan scan' : JournalScan}

theorem JournalScan.line_of_payload (hlawful : codec.Lawful) (hfits : s.Fits codec payload)
    (hsequence : scan.expectedRecordSequence = s.nextJournalSequence) (hle : s.nextJournalSequence < maxU64)
    (hprevious : scan.previousSha256 = s.journalSha256) (hpayload : scan.payload codec payload = .ok scan')
    (hkeep : scan'.expectedRecordSequence = scan.expectedRecordSequence) :
    scan.line codec (s.line codec payload) = .ok { scan' with
      previousSha256 := codec.sha256 (s.line codec payload), expectedRecordSequence := s.nextJournalSequence + 1 } := by
  have hadd : addOr scan'.expectedRecordSequence 1 "运行时宿主账本序号耗尽" = .ok (s.nextJournalSequence + 1) :=
    addOr_eq_ok.mpr ⟨by omega, by omega⟩
  have hlength : ¬(s.line codec payload).length > maxJournalRecordBytes := Nat.not_lt.mpr hfits.record
  have hdecode : codec.decodeRecord (s.line codec payload) =
      some ⟨s.nextJournalSequence, s.journalSha256, payload⟩ := hlawful.decode_encode _
  have hnonempty : s.line codec payload ≠ [] := hlawful.nonempty _
  simp [JournalScan.line, hnonempty, hlength, hdecode, hsequence, hprevious, hpayload, hadd, bind, Except.bind, pure,
    Except.pure]

theorem synced_new (manifest : RuntimeHostManifest) : (RuntimeHostState.new manifest manifestSha256).Synced codec
    manifestSha256 :=
  ⟨⟨[], rfl, by simp, rfl⟩, rfl, Nat.zero_le _, le_rfl, rfl, Nat.zero_le _, le_rfl⟩

namespace RuntimeHostState.Synced

variable (h : s.Synced codec manifestSha256)
include h

theorem append (hlawful : codec.Lawful) (hfits : s.Fits codec payload)
    (hpayload : s.scan.payload codec payload = .ok scan')
    (hkeep : scan'.expectedRecordSequence = s.nextJournalSequence) :
    (∃ lines, (s.appended codec payload).journal = render lines ∧ (∀ line ∈ lines, newline ∉ line) ∧
      lines.foldlM (JournalScan.line codec) (.start manifestSha256) = .ok { scan' with
        previousSha256 := codec.sha256 (s.line codec payload), expectedRecordSequence := s.nextJournalSequence + 1 }) ∧
    (s.appended codec payload).journalBytes = (s.appended codec payload).journal.length ∧
    (s.appended codec payload).journal.length ≤ maxJournalBytes ∧
    (s.appended codec payload).nextJournalSequence ≤ (s.appended codec payload).journal.length + 1 := by
  obtain ⟨lines, hjournal, hlines, hfold⟩ := h.lines
  have hbytes := h.bytes
  have hlength := h.length_le
  have hsequence := h.sequence_le
  have happended : (s.appended codec payload).journal.length =
      s.journal.length + ((s.line codec payload).length + 1) := by
    simp [RuntimeHostState.appended]
  have htotal : s.journal.length + ((s.line codec payload).length + 1) ≤ maxJournalBytes := by
    have hfit := hfits.journal
    simp only [saturatingAdd, maxU64, maxJournalBytes, hbytes] at hfit ⊢
    omega
  refine ⟨⟨lines ++ [s.line codec payload], ?_, ?_, ?_⟩, ?_, ?_, ?_⟩
  · simp [RuntimeHostState.appended, render, hjournal]
  · intro line hline
    cases List.mem_append.mp hline with
    | inl hline => exact hlines line hline
    | inr hline => exact List.mem_singleton.mp hline ▸ hlawful.noNewline _
  · have hle : s.nextJournalSequence < maxU64 := by
      simp only [maxU64, maxJournalBytes] at hlength ⊢
      omega
    have hline : s.scan.line codec (s.line codec payload) = _ :=
      JournalScan.line_of_payload hlawful hfits rfl hle rfl hpayload hkeep
    rw [List.foldlM_append, hfold]
    simp [hline, bind, Except.bind, pure, Except.pure]
  · rw [happended, ← hbytes]
    rfl
  · rw [happended]
    exact htotal
  · rw [happended]
    change s.nextJournalSequence + 1 ≤ _
    omega

theorem lastEventSequence_eq : s.lastEventSequence = s.events.length := by
  have hlast : (s.events.map HostedEvent.sequence).getLast? = s.events.getLast?.map HostedEvent.sequence :=
    List.getLast?_map
  rw [RuntimeHostState.lastEventSequence, ← hlast, h.numbered]
  cases hlength : s.events.length with
  | zero => rfl
  | succ n => simp [List.range'_concat, Nat.add_comm]

theorem next_event :
    (s.events.getLast?.map fun event => saturatingAdd event.sequence 1).getD 1 = s.events.length + 1 := by
  have hlast := h.lastEventSequence_eq
  have hle := h.events_le
  rw [RuntimeHostState.lastEventSequence] at hlast
  cases hevents : s.events.getLast? with
  | none =>
    have hlength : s.events.length = 0 := by simpa [hevents] using hlast.symm
    simp [hlength]
  | some event =>
    rw [hevents] at hlast
    simp only [Option.map_some, Option.getD_some] at hlast ⊢
    simp only [saturatingAdd, maxU64, maxJournalEvents] at hle ⊢
    omega

theorem appended (hlawful : codec.Lawful) (hfits : s.Fits codec payload)
    (hpayload : s.scan.payload codec payload = .ok s.scan) : (s.appended codec payload).Synced codec manifestSha256 := by
  obtain ⟨hlines, hbytes, hlength, hsequence⟩ := h.append hlawful hfits hpayload rfl
  exact ⟨hlines, hbytes, hlength, hsequence, h.numbered, h.events_le, h.acknowledged_le⟩

end RuntimeHostState.Synced

variable {p p' : Past}

theorem Change.synced (hlawful : codec.Lawful) (h : Change codec false p p')
    (hsynced : p.1.Synced codec manifestSha256) : p'.1.Synced codec manifestSha256 := by
  cases h with
  | failed s trace written hwritten =>
    obtain rfl := hwritten rfl
    have hsame : s.write [] = s := by simp [RuntimeHostState.write]
    exact hsame.symm ▸ hsynced
  | exhausted s trace payload hfits hsequence =>
    change s.Synced codec manifestSha256 at hsynced
    have hle := hsynced.sequence_le
    have hlength := hsynced.length_le
    simp only [maxU64, maxJournalBytes] at hsequence hlength
    omega
  | claim s trace clientId hfits =>
    have happended := hsynced.appended hlawful hfits rfl
    exact ⟨happended.1, happended.2, happended.3, happended.4, happended.5, happended.6, happended.7⟩
  | record s trace clientId command digest delivered howner hcommand hnew hfits hdelivered =>
    have happended := hsynced.appended hlawful hfits rfl
    exact ⟨happended.1, happended.2, happended.3, happended.4, happended.5, happended.6, happended.7⟩
  | settle s trace messageId status status' hstatus hdigest hdone hfits =>
    have happended := hsynced.appended hlawful hfits rfl
    exact ⟨happended.1, happended.2, happended.3, happended.4, happended.5, happended.6, happended.7⟩
  | report s trace status hrecorded hcurrent hfits =>
    have happended := hsynced.appended hlawful hfits rfl
    exact ⟨happended.1, happended.2, happended.3, happended.4, happended.5, happended.6, happended.7⟩
  | event s trace hosted hsequence hle hdigest hfits =>
    change s.Synced codec manifestSha256 at hsynced
    rw [hsynced.next_event] at hsequence
    have hadd : addOr (s.events.length + 1) 1 "运行时宿主事件序号耗尽" = .ok (s.events.length + 1 + 1) := by
      refine addOr_eq_ok.mpr ⟨?_, rfl⟩
      simp only [maxU64, maxJournalEvents] at hle ⊢
      omega
    have hpayload : s.scan.payload codec (.event hosted) = .ok { s.scan with
        expectedEventSequence := s.events.length + 1 + 1, events := s.events ++ [hosted] } := by
      simp [JournalScan.payload, RuntimeHostState.scan, hsequence, hdigest, hadd, bind, Except.bind, pure, Except.pure]
    obtain ⟨hlines, hbytes, hlength, hnext⟩ := hsynced.append hlawful hfits hpayload rfl
    refine ⟨?_, hbytes, hlength, hnext, ?_, ?_, ?_⟩
    · obtain ⟨lines, hjournal, hnewline, hfold⟩ := hlines
      refine ⟨lines, hjournal, hnewline, ?_⟩
      rw [hfold]
      simp [RuntimeHostState.scan, pushEvent, RuntimeHostState.appended]
    · simp [pushEvent, RuntimeHostState.appended, hsynced.numbered, hsequence, List.range'_concat, Nat.add_comm]
    · simpa [pushEvent, RuntimeHostState.appended, ← hsequence] using hle
    · exact hsynced.acknowledged_le.trans (by simp [pushEvent, RuntimeHostState.appended])
  | acknowledge s trace ownerEpoch throughSequence hgt hle hfits =>
    change s.Synced codec manifestSha256 at hsynced
    rw [hsynced.lastEventSequence_eq] at hle
    have hpayload : s.scan.payload codec (.eventsAcknowledged ownerEpoch throughSequence) =
        .ok { s.scan with acknowledgedSequence := throughSequence } := by
      have hno : ¬(throughSequence < s.acknowledgedSequence ∨ throughSequence > s.events.length) := by omega
      simp [JournalScan.payload, RuntimeHostState.scan, hno, pure, Except.pure]
    obtain ⟨hlines, hbytes, hlength, hnext⟩ := hsynced.append hlawful hfits hpayload rfl
    exact ⟨hlines, hbytes, hlength, hnext, hsynced.numbered, hsynced.events_le, hle⟩
  | closed s trace => exact ⟨hsynced.1, hsynced.2, hsynced.3, hsynced.4, hsynced.5, hsynced.6, hsynced.7⟩

theorem Changes.synced (hlawful : codec.Lawful) (h : Changes codec false p p')
    (hsynced : p.1.Synced codec manifestSha256) : p'.1.Synced codec manifestSha256 := by
  induction h with
  | refl => exact hsynced
  | tail _ h ih => exact h.synced hlawful ih

end Verify

section Pending

variable {codec : Codec} {s : RuntimeHostState} {record : RuntimeHostRecord} {events : List HostedEvent}

theorem filter_numbered {first after : Nat} (hnumbered : events.map HostedEvent.sequence = List.range' first events.length)
    (hle : first ≤ after + 1) :
    events.filter (fun event => event.sequence > after) = events.drop (after + 1 - first) := by
  induction events generalizing first with
  | nil => simp
  | cons event events ih =>
    simp only [List.map_cons, List.length_cons, List.range'_succ, List.cons.injEq] at hnumbered
    obtain ⟨hfirst, hrest⟩ := hnumbered
    by_cases hafter : event.sequence > after
    · have hzero : after + 1 - first = 0 := by omega
      rw [hzero, List.drop_zero, List.filter_eq_self]
      intro other hother
      cases List.mem_cons.mp hother with
      | inl heq => simpa [heq] using hafter
      | inr hother =>
        have hmem : other.sequence ∈ List.range' (first + 1) events.length := hrest ▸ List.mem_map_of_mem hother
        simp only [List.mem_range'_1] at hmem
        simp only [gt_iff_lt, decide_eq_true_eq]
        omega
    · have hsucc : after + 1 - first = (after + 1 - (first + 1)) + 1 := by omega
      rw [List.filter_cons_of_neg (by simpa using hafter), ih hrest (by omega), hsucc, List.drop_succ_cons]

variable {manifestSha256 : String}

theorem RuntimeHostState.Synced.filter_events (h : s.Synced codec manifestSha256) (after : Nat) :
    s.events.filter (fun event => event.sequence > after) = s.events.drop after := by
  rw [filter_numbered h.numbered (Nat.le_add_left 1 after), Nat.add_sub_cancel]

theorem catchUpBatch_eq {recovered last : Nat} (hlast : last ≤ maxJournalEvents)
    (hnumbered : events.map HostedEvent.sequence = List.range' (recovered + 1) events.length)
    (hle : recovered + events.length ≤ last) :
    catchUpBatch recovered last events = some (events, recovered + events.length) := by
  induction events generalizing recovered with
  | nil => rfl
  | cons event events ih =>
    simp only [List.map_cons, List.length_cons, List.range'_succ, List.cons.injEq] at hnumbered hle
    obtain ⟨hfirst, hrest⟩ := hnumbered
    have hadd : checkedAdd recovered 1 = some (recovered + 1) := by
      refine checkedAdd_eq_some.mpr ⟨?_, rfl⟩
      simp only [maxU64, maxJournalEvents] at hlast ⊢
      omega
    have htail : catchUpBatch (recovered + 1) last events = _ := ih hrest (by omega)
    have hnot : ¬recovered + 1 > last := by omega
    simp only [catchUpBatch, hadd, hfirst, Option.bind_eq_bind, Option.bind_some, ne_eq, not_true_eq_false, ↓reduceIte,
      hnot, htail, List.length_cons]
    rw [Nat.add_right_comm, Nat.add_assoc]

theorem catchUp_eq (h : s.Synced codec manifestSha256) {recovered fuel : Nat}
    (hle : recovered ≤ s.events.length) (hfuel : s.events.length ≤ recovered + fuel) :
    catchUp s s.events.length recovered fuel = some (s.events.drop recovered) := by
  induction fuel generalizing recovered with
  | zero =>
    have heq : recovered = s.events.length := by omega
    rw [catchUp, if_neg (by omega), heq, List.drop_length]
  | succ fuel ih =>
    by_cases hlt : recovered < s.events.length
    · let batch := (s.events.drop recovered).take maxPullEvents
      have hbatch : batch.length = min maxPullEvents (s.events.length - recovered) := by simp [batch]
      have hmax : maxPullEvents = 256 := rfl
      have hnumbered : batch.map HostedEvent.sequence = List.range' (recovered + 1) batch.length := by
        rw [hbatch]
        simp only [batch, List.map_take, List.map_drop, h.numbered, List.drop_range', mul_one, Nat.add_comm 1]
        cases Nat.le_total maxPullEvents (s.events.length - recovered) with
        | inl hmany => rw [List.take_range'_of_length_ge hmany, min_eq_left hmany]
        | inr hfew => rw [List.take_range'_of_length_le hfew, min_eq_right hfew]
      have hpull := catchUpBatch_eq h.events_le hnumbered (by omega)
      have hnext : catchUp s s.events.length (recovered + batch.length) fuel = _ := ih (by omega) (by omega)
      rw [catchUp, if_pos hlt]
      simp only [h.filter_events, Option.bind_eq_bind]
      change (catchUpBatch recovered s.events.length batch).bind _ = _
      rw [hpull, Option.bind_some]
      dsimp only
      rw [if_neg (by omega), hnext, Option.bind_some, ← List.drop_drop]
      have hmin : batch = (s.events.drop recovered).take batch.length := by
        rw [hbatch, ← List.length_drop]
        exact List.take_eq_take_min
      have hsplit : batch ++ (s.events.drop recovered).drop batch.length = s.events.drop recovered := by
        calc
          _ = (s.events.drop recovered).take batch.length ++ (s.events.drop recovered).drop batch.length :=
            congrArg (· ++ (s.events.drop recovered).drop batch.length) hmin
          _ = s.events.drop recovered := List.take_append_drop _ _
      exact congrArg some hsplit
    · have heq : recovered = s.events.length := by omega
      rw [catchUp, if_neg hlt, heq, List.drop_length]

theorem RuntimeHostState.Synced.liveReattach_eq (h : s.Synced codec manifestSha256) :
    liveReattach s = some (s.events.filter fun event => event.sequence > s.acknowledgedSequence) := by
  rw [liveReattach, h.lastEventSequence_eq, h.filter_events]
  exact catchUp_eq h h.acknowledged_le (Nat.le_add_left _ _)

theorem RuntimeHostState.Synced.verifyJournal_eq (h : s.Synced codec record.manifestSha256) :
    verifyJournal codec record s.journal = .ok ⟨s.journalSha256, s.lastEventSequence, s.acknowledgedSequence, s.events,
      s.acknowledgedSnapshot⟩ := by
  obtain ⟨lines, hjournal, hnewline, hfold⟩ := h.lines
  have hle : ¬s.journal.length > maxJournalBytes := Nat.not_lt.mpr h.length_le
  have hlast : s.scan.line codec [] = .ok s.scan := rfl
  rw [verifyJournal, if_neg hle, hjournal, splitOn_render hnewline]
  simp only [List.foldlM_append, hfold, List.foldlM_cons, List.foldlM_nil, bind, Except.bind, hlast, pure, Except.pure]
  rw [h.lastEventSequence_eq]
  rfl

end Pending

section Exit

variable {codec : Codec} {w : World} {move : Move}

structure RuntimeHostExitReceipt.Of (receipt : RuntimeHostExitReceipt) (w : World) : Prop where
  version : receipt.version = hostManifestVersion
  runtimeGeneration : receipt.runtimeGeneration = w.record.manifest.runtimeGeneration
  hostInstanceId : receipt.hostInstanceId = w.record.manifest.hostInstanceId
  manifestSha256 : receipt.manifestSha256 = w.record.manifestSha256
  journalSha256 : receipt.journalSha256 = w.state.journalSha256
  lastEventSequence : receipt.lastEventSequence = w.state.lastEventSequence
  acknowledgedSequence : receipt.acknowledgedSequence = w.state.acknowledgedSequence

variable {p p' : Past}

theorem Change.eq_of_sealed (h : Change codec false p p') (hsealed : p.1.journalSealed = true) :
    p'.1 = p.1 := by
  have hunfit : ∀ payload, ¬p.1.Fits codec payload := fun payload hfits => by
    have hopen := hfits.unsealed
    rw [hsealed] at hopen
    cases hopen
  cases h with
  | failed s trace written hwritten =>
    obtain rfl := hwritten rfl
    simp [RuntimeHostState.write]
  | closed s trace =>
    change { s with journalSealed := true } = s
    rw [← show s.journalSealed = true from hsealed]
  | exhausted s trace payload hfits hsequence => exact (hunfit _ hfits).elim
  | claim s trace clientId hfits => exact (hunfit _ hfits).elim
  | record s trace clientId command digest delivered howner hcommand hnew hfits hdelivered =>
    exact (hunfit _ hfits).elim
  | settle s trace messageId status status' hstatus hdigest hdone hfits => exact (hunfit _ hfits).elim
  | report s trace status hrecorded hcurrent hfits => exact (hunfit _ hfits).elim
  | event s trace hosted hsequence hle hdigest hfits => exact (hunfit _ hfits).elim
  | acknowledge s trace ownerEpoch throughSequence hgt hle hfits => exact (hunfit _ hfits).elim

theorem Changes.eq_of_sealed (h : Changes codec false p p') (hsealed : p.1.journalSealed = true) :
    p'.1 = p.1 := by
  induction h with
  | refl => rfl
  | tail _ h ih => exact (h.eq_of_sealed (ih.symm ▸ hsealed)).trans ih

theorem World.step_frame (codec : Codec) (w : World) (move : Move) :
    (w.step codec move).1.record = w.record ∧ ((∃ evidence, move.action = .exit evidence) ∨
      (w.step codec move).1.hostExit = w.hostExit) := by
  rw [World.step]
  cases move.action with
  | request request => exact ⟨rfl, .inr rfl⟩
  | command request =>
    dsimp only
    split <;> exact ⟨rfl, .inr rfl⟩
  | reserve call permit =>
    dsimp only
    split
    · split <;> exact ⟨rfl, .inr rfl⟩
    · exact ⟨rfl, .inr rfl⟩
  | record call =>
    dsimp only
    split
    · split <;> exact ⟨rfl, .inr rfl⟩
    · exact ⟨rfl, .inr rfl⟩
  | report call =>
    dsimp only
    split <;> exact ⟨rfl, .inr rfl⟩
  | adapterEvent event => exact ⟨rfl, .inr rfl⟩
  | exit evidence => exact ⟨rfl, .inl ⟨evidence, rfl⟩⟩

/-- What holds of the host at every moment of a run whose failing writes leave nothing. -/
structure World.Recoverable (codec : Codec) (w : World) : Prop where
  calls : w.CallsSound codec
  synced : w.state.Synced codec w.record.manifestSha256
  exit : ∀ receipt, w.hostExit = some receipt → w.state.journalSealed = true ∧ receipt.Of w

variable {receipt : RuntimeHostExitReceipt}

theorem World.step_exit (h : (w.step codec move).1.hostExit = some receipt) : w.hostExit = some receipt ∨
      (w.step codec move).1.state.journalSealed = true ∧ receipt.Of (w.step codec move).1 := by
  cases (World.step_frame codec w move).2 with
  | inr hsame => exact .inl (hsame ▸ h)
  | inl hexit =>
    obtain ⟨evidence, haction⟩ := hexit
    have hstep : (w.step codec move).1 = w.writeExitReceipt codec evidence := by
      rw [World.step]
      dsimp only
      rw [haction]
    rw [hstep] at h ⊢
    simp only [World.writeExitReceipt] at h
    split at h
    · exact .inl h
    · cases h
      exact .inr ⟨rfl, rfl, rfl, rfl, rfl, rfl, rfl, rfl⟩

variable {w' : World}

theorem RuntimeHostExitReceipt.Of.congr (h : receipt.Of w)
    (hrecord : w'.record = w.record) (hstate : w'.state = w.state) : receipt.Of w' where
  version := h.version
  runtimeGeneration := hrecord ▸ h.runtimeGeneration
  hostInstanceId := hrecord ▸ h.hostInstanceId
  manifestSha256 := hrecord ▸ h.manifestSha256
  journalSha256 := hstate ▸ h.journalSha256
  lastEventSequence := hstate ▸ h.lastEventSequence
  acknowledgedSequence := hstate ▸ h.acknowledgedSequence

theorem World.Recoverable.advance (hlawful : codec.Lawful) (h : w.Recoverable codec)
    (hchanges : Changes codec false w.past w'.past) (hcalls : w'.CallsSound codec) (hrecord : w'.record = w.record)
    (hexit : ∀ receipt, w'.hostExit = some receipt →
      w.hostExit = some receipt ∨ w'.state.journalSealed = true ∧ receipt.Of w') : w'.Recoverable codec := by
  refine ⟨hcalls, hrecord ▸ hchanges.synced hlawful h.synced, ?_⟩
  intro receipt hreceipt
  cases hexit receipt hreceipt with
  | inr hnew => exact hnew
  | inl hbefore =>
    obtain ⟨hsealed, hof⟩ := h.exit receipt hbefore
    have hstate : w'.state = w.state := hchanges.eq_of_sealed hsealed
    exact ⟨hstate ▸ hsealed, hof.congr hrecord hstate⟩

theorem World.Recoverable.step (hlawful : codec.Lawful) (h : w.Recoverable codec) (hclean : Clean move.faults) :
    (w.step codec move).1.Recoverable codec := by
  have hstep : Changes codec false w.past (w.step codec move).1.past ∧ (w.step codec move).1.CallsSound codec :=
    World.step_changes h.calls fun _ => hclean
  exact h.advance hlawful hstep.1 hstep.2 (World.step_frame codec w move).1 fun _ => World.step_exit

theorem World.Recoverable.run (hlawful : codec.Lawful) (h : w.Recoverable codec) {moves : List Move}
    (hclean : ∀ move ∈ moves, Clean move.faults) : (w.run codec moves).Recoverable codec := by
  induction moves generalizing w with
  | nil => exact h
  | cons move moves ih =>
    exact ih (h.step hlawful (hclean move List.mem_cons_self)) fun other hother =>
      hclean other (List.mem_cons_of_mem _ hother)

theorem World.recoverable_new (record : RuntimeHostRecord) (generation : Uuid) :
    (World.new record generation).Recoverable codec :=
  ⟨World.callsSound_new record generation, synced_new record.manifest, fun receipt h => by cases h⟩

end Exit

section Agreement

/-- The native process is gone, and everything about the run was recorded. -/
structure RuntimeHostExitReceipt.Complete (codec : Codec) (receipt : RuntimeHostExitReceipt) (native : Bytes) :
    Prop where
  nativeProcess : receipt.nativeProcess = .exited
  nativeCleanup : receipt.nativeCleanupSha256 = some (codec.sha256 native)
  adapterTaskTerminated : receipt.adapterTaskTerminated = true
  eventJournalCompleted : receipt.eventJournalCompleted = true

/-- The journal of a host that exited says what the host knew, and what is recovered from it is what
a client would have pulled. -/
def RecoveryAgrees (codec : Codec) (w : World) : Prop :=
  ∀ receipt, w.hostExit = some receipt →
    verifyJournal codec w.record w.state.journal = .ok ⟨receipt.journalSha256, w.state.lastEventSequence,
      w.state.acknowledgedSequence, w.state.events, w.state.acknowledgedSnapshot⟩ ∧
    ∀ native, receipt.Complete codec native →
      confirmedExit codec w.record w.record.manifest.runtimeGeneration w.hostExit w.state.journal (some native) =
        .ok (some receipt) ∧
      ∃ pending, liveReattach w.state = some pending ∧
        recoverExitedEvents codec w.record w.record.manifest.runtimeGeneration w.hostExit w.state.journal
          (some native) = .ok (some (receipt, pending, w.state.acknowledgedSnapshot))

theorem World.Recoverable.agrees {codec : Codec} {w : World} (h : w.Recoverable codec) : RecoveryAgrees codec w := by
  intro receipt hreceipt
  obtain ⟨hsealed, hof⟩ := h.exit receipt hreceipt
  have hverify := h.synced.verifyJournal_eq
  refine ⟨hof.journalSha256 ▸ hverify, ?_⟩
  intro native hcomplete
  have hconfirmed : confirmedExit codec w.record w.record.manifest.runtimeGeneration w.hostExit w.state.journal
      (some native) = .ok (some receipt) := by
    rw [hreceipt, confirmedExit]
    simp [hof.version, hof.runtimeGeneration, hof.hostInstanceId, hof.manifestSha256, hcomplete.nativeProcess,
      hcomplete.nativeCleanup, hcomplete.adapterTaskTerminated, hcomplete.eventJournalCompleted, hverify,
      hof.journalSha256, hof.lastEventSequence, hof.acknowledgedSequence, bind, Except.bind, pure, Except.pure]
  refine ⟨hconfirmed, _, h.synced.liveReattach_eq, ?_⟩
  simp [recoverExitedEvents, hconfirmed, hverify, hof.acknowledgedSequence, bind, Except.bind, pure, Except.pure]

/-- Where no write that fails leaves anything in the file, an exited host is recovered as it was. -/
theorem recovery_agrees (codec : Codec) (hlawful : codec.Lawful) (record : RuntimeHostRecord) (generation : Uuid)
    (moves : List Move) (hclean : ∀ move ∈ moves, Clean move.faults) :
    RecoveryAgrees codec ((World.new record generation).run codec moves) :=
  ((World.recoverable_new record generation).run hlawful hclean).agrees

def sampleExit : ExitEvidence := ⟨.exited [], true, true, true⟩

def claimAgain (fault : WriteFault) : List Move :=
  [⟨.request (.claimOwner sampleOwner.toCredentials 0 4), [fault]⟩,
    ⟨.request (.claimOwner sampleOwner.toCredentials 0 4), []⟩, ⟨.exit sampleExit, []⟩]

theorem recovery_agrees_sample :
    ((World.new sampleRecord 1).run sampleCodec (claimAgain (some 0))).hostExit.isSome = true ∧
    RecoveryAgrees sampleCodec ((World.new sampleRecord 1).run sampleCodec (claimAgain (some 0))) :=
  ⟨by decide +kernel, recovery_agrees sampleCodec sampleCodec_lawful sampleRecord 1 (claimAgain (some 0))
    (by simp [claimAgain, Clean])⟩

/-- One byte of a record that failed to be written is enough for the journal to be refused. -/
theorem recovery_disagrees : ¬∀ codec : Codec, codec.Lawful → ∀ record generation moves,
    RecoveryAgrees codec ((World.new record generation).run codec moves) := by
  intro hall
  have hagrees := hall sampleCodec sampleCodec_lawful sampleRecord 1 (claimAgain (some 1))
  have hexit : ((World.new sampleRecord 1).run sampleCodec (claimAgain (some 1))).hostExit.isSome = true := by
    decide +kernel
  have hjournal : ((World.new sampleRecord 1).run sampleCodec (claimAgain (some 1))).state.journal =
      render [123 :: sampleClaimText] := by decide +kernel
  obtain ⟨receipt, hreceipt⟩ := Option.isSome_iff_exists.mp hexit
  have hdecode : sampleCodec.decodeRecord (123 :: sampleClaimText) = none :=
    Codec.decode_ofTables_eq_none (by decide +kernel) (by decide)
  have hverify : verifyJournal sampleCodec sampleRecord (render [123 :: sampleClaimText]) = .error "invalid JSON" := by
    have hlength : ¬(render [123 :: sampleClaimText]).length > maxJournalBytes := by decide +kernel
    have hline : ¬maxJournalRecordBytes < sampleClaimText.length + 1 := by decide +kernel
    have hnewline : ∀ line ∈ [123 :: sampleClaimText], newline ∉ line := by decide +kernel
    rw [verifyJournal, if_neg hlength, splitOn_render hnewline]
    simp [JournalScan.line, hline, hdecode, bind, Except.bind, throw, throwThe, MonadExceptOf.throw]
  have hrecord : ((World.new sampleRecord 1).run sampleCodec (claimAgain (some 1))).record = sampleRecord := by
    decide +kernel
  have hok := (hagrees receipt hreceipt).1
  rw [hjournal, hrecord, hverify] at hok
  cases hok

end Agreement

end InfiniShell.RuntimeHost
