import InfiniShell.RuntimeHost.JournalChain

namespace InfiniShell.RuntimeHost

open Effects Relation

namespace RuntimeHostState

def withJournal (journal : Bytes) (s : RuntimeHostState) : RuntimeHostState := { s with journal := journal }

theorem Fits.withJournal {codec : Codec} {payload : JournalPayload} {s : RuntimeHostState} (h : s.Fits codec payload)
    (journal : Bytes) : (s.withJournal journal).Fits codec payload :=
  ⟨h.unsealed, h.record, h.journal⟩

end RuntimeHostState

def World.withJournal (journal : Bytes) (w : World) : World := { w with state := w.state.withJournal journal }

/-- What a host remembers does not depend on what its failed writes left in the file. -/
def World.Remembers (codec : Codec) (w : World) : Prop := ∃ journal, (w.withJournal journal).Recoverable codec

section Changes

variable {codec : Codec} {torn : Bool} {p p' : Past} {w : World} {move : Move}

theorem Change.withJournal (h : Change codec torn p p') (journal : Bytes) :
    (∃ journal', p'.1.withJournal journal' = p.1.withJournal journal ∧ p'.2 = p.2) ∨
      ∃ journal', Change codec false (p.1.withJournal journal, p.2) (p'.1.withJournal journal', p'.2) := by
  cases h with
  | failed s trace written hwritten => exact .inl ⟨journal, rfl, rfl⟩
  | exhausted s trace payload hfits hsequence => exact .inl ⟨journal, rfl, rfl⟩
  | claim s trace clientId hfits =>
    exact .inr ⟨_, .claim (s.withJournal journal) trace clientId (hfits.withJournal journal)⟩
  | record s trace clientId command digest delivered howner hdigest hnew hfits hdelivered =>
    exact .inr ⟨_, .record (s.withJournal journal) trace clientId command digest delivered howner hdigest hnew
      (hfits.withJournal journal) hdelivered⟩
  | event s trace hosted hsequence hle hdigest hfits =>
    exact .inr ⟨_, .event (s.withJournal journal) trace hosted hsequence hle hdigest (hfits.withJournal journal)⟩
  | settle s trace messageId status status' hstatus hdigest hsettled hfits =>
    exact .inr ⟨_, .settle (s.withJournal journal) trace messageId status status' hstatus hdigest hsettled
      (hfits.withJournal journal)⟩
  | report s trace status hrecorded hcurrent hfits =>
    exact .inr ⟨_, .report (s.withJournal journal) trace status hrecorded hcurrent (hfits.withJournal journal)⟩
  | acknowledge s trace ownerEpoch throughSequence hgt hle hfits =>
    exact .inr ⟨_, .acknowledge (s.withJournal journal) trace ownerEpoch throughSequence hgt hle
      (hfits.withJournal journal)⟩
  | closed s trace => exact .inr ⟨journal, .closed (s.withJournal journal) trace⟩

theorem Changes.withJournal (h : Changes codec torn p p') (journal : Bytes) :
    ∃ journal', Changes codec false (p.1.withJournal journal, p.2) (p'.1.withJournal journal', p'.2) := by
  induction h with
  | refl => exact ⟨journal, .refl⟩
  | tail _ hlast ih =>
    obtain ⟨middle, hchanges⟩ := ih
    cases hlast.withJournal middle with
    | inl hsame =>
      obtain ⟨journal', hstate, htrace⟩ := hsame
      exact ⟨journal', hstate ▸ htrace ▸ hchanges⟩
    | inr hchange =>
      obtain ⟨journal', hchange⟩ := hchange
      exact ⟨journal', hchanges.tail hchange⟩

theorem World.Remembers.step (hlawful : codec.Lawful) (h : w.Remembers codec) : (w.step codec move).1.Remembers codec := by
  obtain ⟨journal, hrecoverable⟩ := h
  have hstep : Changes codec true w.past (w.step codec move).1.past ∧ (w.step codec move).1.CallsSound codec :=
    World.step_changes hrecoverable.calls nofun
  obtain ⟨journal', hchanges⟩ := hstep.1.withJournal journal
  refine ⟨journal', hrecoverable.advance hlawful hchanges hstep.2 (World.step_frame codec w move).1 ?_⟩
  intro receipt hreceipt
  refine (World.step_exit hreceipt).imp id fun hnew => ⟨hnew.1, ?_⟩
  obtain ⟨-, h₁, h₂, h₃, h₄, h₅, h₆, h₇⟩ := hnew
  exact ⟨h₁, h₂, h₃, h₄, h₅, h₆, h₇⟩

theorem World.remembers_new (record : RuntimeHostRecord) (generation : Uuid) :
    (World.new record generation).Remembers codec :=
  ⟨[], World.recoverable_new record generation⟩

end Changes

section Chain

variable {codec : Codec} {manifestSha256 : String} {a b scan scan' : JournalScan} {payload : JournalPayload}

/-- The scans of the lines of a journal, blank lines left out. -/
inductive Chained (codec : Codec) (manifestSha256 : String) : JournalScan → Prop
  | start : Chained codec manifestSha256 (.start manifestSha256)
  | line (scan scan' : JournalScan) (text : Bytes) (record : JournalRecord) (h : Chained codec manifestSha256 scan)
      (hdecode : codec.decodeRecord text = some record) (hsequence : record.sequence = scan.expectedRecordSequence)
      (hprevious : record.previousSha256 = scan.previousSha256) (hpayload : scan.payload codec record.payload = .ok scan') :
      Chained codec manifestSha256 { scan' with
        previousSha256 := codec.sha256 text, expectedRecordSequence := scan.expectedRecordSequence + 1 }

theorem JournalScan.payload_keeps (h : scan.payload codec payload = .ok scan') :
    scan'.expectedRecordSequence = scan.expectedRecordSequence ∧ scan'.previousSha256 = scan.previousSha256 := by
  cases payload with
  | event event =>
    simp only [JournalScan.payload, bind, Except.bind, pure, Except.pure] at h
    split at h
    · cases h
    · split at h
      · cases h
      · cases h
        exact ⟨rfl, rfl⟩
  | eventsAcknowledged ownerEpoch throughSequence =>
    simp only [JournalScan.payload, bind, Except.bind, pure, Except.pure] at h
    split at h
    · cases h
    · cases h
      exact ⟨rfl, rfl⟩
  | ownerClaimed | commandRecorded | commandUpdated =>
    cases h
    exact ⟨rfl, rfl⟩

theorem JournalScan.payload_numbered (h : scan.payload codec payload = .ok scan')
    (hnumbered : scan.expectedEventSequence = scan.events.length + 1) :
    scan'.expectedEventSequence = scan'.events.length + 1 := by
  cases payload with
  | event event =>
    simp only [JournalScan.payload, bind, Except.bind, pure, Except.pure] at h
    split at h
    · cases h
    · split at h
      · cases h
      · rename_i next hnext
        cases h
        simp [(addOr_eq_ok.mp hnext).2, hnumbered]
  | eventsAcknowledged ownerEpoch throughSequence =>
    simp only [JournalScan.payload, bind, Except.bind, pure, Except.pure] at h
    split at h
    · cases h
    · cases h
      exact hnumbered
  | ownerClaimed | commandRecorded | commandUpdated =>
    cases h
    exact hnumbered

section

variable (h : Chained codec manifestSha256 scan)
include h

theorem Chained.numbered : scan.expectedEventSequence = scan.events.length + 1 := by
  induction h with
  | start => rfl
  | line scan scan' text record h hdecode hsequence hprevious hpayload ih =>
    have hnumbered : scan'.expectedEventSequence = scan'.events.length + 1 := JournalScan.payload_numbered hpayload ih
    exact hnumbered

theorem Chained.positive : 0 < scan.expectedRecordSequence := by
  cases h with
  | start => exact Nat.one_pos
  | line => exact Nat.succ_pos _

theorem Chained.of_line {text : Bytes} (hline : scan.line codec text = .ok scan') :
    Chained codec manifestSha256 scan' := by
  simp only [JournalScan.line, bind, Except.bind, pure, Except.pure] at hline
  split at hline
  · cases hline
    exact h
  · split at hline
    · cases hline
    · split at hline
      · cases hline
      · rename_i record hdecode
        split at hline
        · cases hline
        · rename_i hchain
          rw [not_or, not_not, not_not] at hchain
          split at hline
          · cases hline
          · rename_i middle hpayload
            split at hline
            · cases hline
            · rename_i next hnext
              cases hline
              have hkeeps := JournalScan.payload_keeps hpayload
              rw [(addOr_eq_ok.mp hnext).2, hkeeps.1]
              exact .line scan middle text record h hdecode hchain.1 hchain.2 hpayload

theorem Chained.of_fold {lines : List Bytes}
    (hfold : lines.foldlM (JournalScan.line codec) scan = .ok scan') : Chained codec manifestSha256 scan' := by
  induction lines generalizing scan with
  | nil =>
    cases hfold
    exact h
  | cons text lines ih =>
    rw [List.foldlM_cons] at hfold
    cases hline : scan.line codec text with
    | error e =>
      rw [hline] at hfold
      cases hfold
    | ok middle =>
      rw [hline] at hfold
      exact ih (h.of_line hline) hfold

end

theorem Chained.unique (hinjective : Function.Injective codec.sha256) (ha : Chained codec manifestSha256 a)
    (hb : Chained codec manifestSha256 b) (hdigest : a.previousSha256 = b.previousSha256)
    (hsequence : a.expectedRecordSequence = b.expectedRecordSequence) : a = b := by
  induction ha generalizing b with
  | start =>
    cases hb with
    | start => rfl
    | line scan scan' text record h =>
      have hpositive := h.positive
      have hone : 1 = scan.expectedRecordSequence + 1 := hsequence
      omega
  | line scan scan' text record h hdecode hnumber hprevious hpayload ih =>
    cases hb with
    | start =>
      have hpositive := h.positive
      have hone : scan.expectedRecordSequence + 1 = 1 := hsequence
      omega
    | line other other' text' record' hother hdecode' hnumber' hprevious' hpayload' =>
      obtain rfl := hinjective hdigest
      obtain rfl := Option.some.inj (hdecode.symm.trans hdecode')
      obtain rfl := ih hother (hprevious.symm.trans hprevious') (hnumber.symm.trans hnumber')
      obtain rfl := Except.ok.inj (hpayload.symm.trans hpayload')
      rfl

theorem Chained.events_unique (hinjective : Function.Injective codec.sha256) (ha : Chained codec manifestSha256 a)
    (hb : Chained codec manifestSha256 b) (hdigest : a.previousSha256 = b.previousSha256)
    (hlast : a.expectedEventSequence = b.expectedEventSequence) : a.events = b.events := by
  have hlength : a.events.length = b.events.length := by
    have hacount := ha.numbered
    have hbcount := hb.numbered
    omega
  have hsame := ha.unique hinjective hb hdigest
  cases ha with
  | start => exact (List.length_eq_zero_iff.mp hlength.symm).symm
  | line scan scan' text record h hdecode hnumber hprevious hpayload =>
    cases hb with
    | start => exact List.length_eq_zero_iff.mp hlength
    | line other other' text' record' hother hdecode' hnumber' hprevious' hpayload' =>
      refine congrArg JournalScan.events (hsame ?_)
      obtain rfl := hinjective hdigest
      obtain rfl := Option.some.inj (hdecode.symm.trans hdecode')
      exact congrArg (· + 1) (hnumber.symm.trans hnumber')

end Chain

section Recovered

variable {codec : Codec} {w : World} {generation : Uuid} {native : Option Bytes} {receipt : RuntimeHostExitReceipt}
  {pending : List HostedEvent} {snapshot : RuntimeHostSnapshot}

variable {record : RuntimeHostRecord} {journal : Bytes}

theorem verifyJournal_chained {summary : JournalSummary}
    (h : verifyJournal codec record journal = .ok summary) :
    ∃ scan, Chained codec record.manifestSha256 scan ∧ summary = scan.summary := by
  simp only [verifyJournal, bind, Except.bind, pure, Except.pure] at h
  split at h
  · cases h
  · split at h
    · cases h
    · rename_i scan hfold
      cases h
      exact ⟨scan, Chained.start.of_fold hfold, rfl⟩

variable {hostExit : Option RuntimeHostExitReceipt}

theorem confirmedExit_matches
    (h : confirmedExit codec record generation hostExit journal native = .ok (some receipt)) :
    hostExit = some receipt ∧ ∃ summary, verifyJournal codec record journal = .ok summary ∧
      receipt.journalSha256 = summary.finalSha256 ∧ receipt.lastEventSequence = summary.lastEventSequence := by
  simp only [confirmedExit, bind, Except.bind, pure, Except.pure] at h
  split at h
  · cases h
  · rename_i stored
    split at h
    · cases h
    · split at h
      · cases h
      · rename_i summary hverified
        split at h
        · cases h
        · rename_i hsame
          rw [not_or, not_or, not_not, not_not] at hsame
          split at h
          · cases h
          · split at h
            · cases h
            · cases h
              exact ⟨rfl, summary, hverified, hsame.1, hsame.2.1⟩

theorem recoverExitedEvents_exit
    (h : recoverExitedEvents codec record generation hostExit journal native = .ok (some (receipt, pending, snapshot))) :
    confirmedExit codec record generation hostExit journal native = .ok (some receipt) ∧
      ∃ summary, verifyJournal codec record journal = .ok summary ∧
        pending = summary.events.filter fun event => event.sequence > receipt.acknowledgedSequence := by
  simp only [recoverExitedEvents, bind, Except.bind, pure, Except.pure] at h
  split at h
  · cases h
  · rename_i found hconfirmed
    split at h
    · cases h
    · split at h
      · cases h
      · rename_i summary hverified
        cases h
        exact ⟨hconfirmed, summary, hverified, rfl⟩

theorem World.Remembers.recovered (hlawful : codec.Lawful) (h : w.Remembers codec)
    (hrecovered : recoverExitedEvents codec w.record generation w.hostExit w.state.journal native =
      .ok (some (receipt, pending, snapshot))) :
    receipt.Of w ∧ pending = w.state.events.filter fun event => event.sequence > w.state.acknowledgedSequence := by
  obtain ⟨hconfirmed, summary, hverified, rfl⟩ := recoverExitedEvents_exit hrecovered
  obtain ⟨hexit, summary', hverified', hdigest, hlast⟩ := confirmedExit_matches hconfirmed
  obtain rfl := Except.ok.inj (hverified.symm.trans hverified')
  obtain ⟨journal, hrecoverable⟩ := h
  obtain ⟨-, h₁, h₂, h₃, h₄, h₅, h₆, h₇⟩ := hrecoverable.exit _ hexit
  have hof : receipt.Of w := ⟨h₁, h₂, h₃, h₄, h₅, h₆, h₇⟩
  refine ⟨hof, ?_⟩
  obtain ⟨lines, -, -, hfold⟩ := hrecoverable.synced.lines
  obtain ⟨scan, hscan, rfl⟩ := verifyJournal_chained hverified
  have hmemory : Chained codec w.record.manifestSha256 (w.state.withJournal journal).scan :=
    Chained.start.of_fold hfold
  have hsame : scan.events = w.state.events := by
    refine hscan.events_unique hlawful.sha256_injective hmemory (hdigest.symm.trans h₅) ?_
    have hmemoryLast := hrecoverable.synced.lastEventSequence_eq
    have hsummary : receipt.lastEventSequence = scan.expectedEventSequence - 1 := hlast
    have hpositive := hscan.numbered
    have hmemoryPositive := hmemory.numbered
    rw [h₆, hmemoryLast] at hsummary
    change scan.expectedEventSequence = w.state.events.length + 1
    have hcount : (w.state.withJournal journal).events.length = w.state.events.length := rfl
    have hworld : (w.withJournal journal).state.events.length = w.state.events.length := rfl
    omega
  rw [h₇]
  exact congrArg (List.filter _) hsame

end Recovered

end InfiniShell.RuntimeHost
