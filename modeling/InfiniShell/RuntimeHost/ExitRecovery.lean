import InfiniShell.Collections.TableExtension
import InfiniShell.RuntimeHost.Runs
import Mathlib.Tactic.DeriveCountable
import Mathlib.Logic.Encodable.Basic
import Mathlib.Logic.Equiv.List

namespace InfiniShell.RuntimeHost

open Collections.TableExtension

instance countableChar : Countable Char := Function.Injective.countable fun _ _ h => Char.toNat_inj.mp h
instance countableString : Countable String := Function.Injective.countable fun _ _ h => String.toList_injective h
instance countableUInt8 : Countable UInt8 := Function.Injective.countable fun _ _ h => UInt8.toNat_inj.mp h
instance : Countable Uuid := Function.Injective.countable fun _ _ h => BitVec.eq_of_toNat_eq h

deriving instance Countable for Value
deriving instance Countable for ApprovalDecision
deriving instance Countable for TurnOutcome
deriving instance Countable for LocalToolReplyTarget
deriving instance Countable for NativeLocalToolRequest
deriving instance Countable for RuntimeEventKind
deriving instance Countable for RuntimeEvent
deriving instance Countable for HostedEvent
deriving instance Countable for HostCommandDisposition
deriving instance Countable for HostCommandStatus
deriving instance Countable for JournalPayload
deriving instance Countable for JournalRecord

/-- The symbol of the texts outside a table. -/
def filler : UInt8 := 120

open Classical in
/-- The codec with the texts and digests of finite tables, and some other text and digest for
everything outside them. -/
noncomputable def Codec.ofTables (records : List (JournalRecord × Bytes)) (commands : List (RuntimeCommand × Bytes))
    (digests : List (Bytes × String)) : Codec where
  encodeRecord := extend records (unary filler)
  decodeRecord bytes := if h : ∃ record, extend records (unary filler) record = bytes then some h.choose else none
  encodeEvent := unary filler
  encodeCommand command := (commands.find? (·.1 = command)).map Prod.snd
  sha256 := extend digests fun bytes => String.ofList (unary 'x' bytes)

variable {records : List (JournalRecord × Bytes)} {commands : List (RuntimeCommand × Bytes)}
variable {digests : List (Bytes × String)}

theorem Codec.lawful_ofTables (hrecords : (records.map Prod.snd).Nodup) (hdigests : (digests.map Prod.snd).Nodup)
    (htexts : ∀ e ∈ records, newline ∉ e.2 ∧ e.2 ≠ [] ∧ e.2.head? ≠ some filler)
    (hnames : ∀ e ∈ digests, e.2.toList.head? ≠ some 'x') : (Codec.ofTables records commands digests).Lawful := by
  have hencode : Function.Injective (extend records (unary filler)) := by
    apply extend_injective hrecords (unary_injective filler)
    intro e he a heq
    exact (htexts e he).2.2 (heq ▸ head?_unary filler a)
  refine ⟨?_, ?_, ?_, ?_⟩
  · intro record
    have hexists : ∃ other, extend records (unary filler) other = extend records (unary filler) record := ⟨record, rfl⟩
    simp only [Codec.ofTables]
    rw [dif_pos hexists, hencode hexists.choose_spec]
  · refine extend_of_forall (P := fun text => newline ∉ text) ?_ ?_
    · exact fun e he => (htexts e he).1
    · intro record hmem
      exact absurd (mem_unary hmem) (by decide)
  · refine extend_of_forall (P := fun text => text ≠ []) ?_ ?_
    · exact fun e he => (htexts e he).2.1
    · intro record
      simp [unary]
  · apply extend_injective hdigests
    · intro a b hab
      exact unary_injective 'x' (String.ofList_injective hab)
    · intro e he a heq
      refine hnames e he ?_
      rw [← heq, String.toList_ofList]
      exact head?_unary 'x' a

theorem Codec.decode_ofTables_eq_none {text : Bytes} (htext : ∀ e ∈ records, e.2 ≠ text)
    (hhead : text.head? ≠ some filler) : (Codec.ofTables records commands digests).decodeRecord text = none := by
  have hnone : ¬∃ record, extend records (unary filler) record = text := by
    rintro ⟨record, rfl⟩
    cases extend_cases records (unary filler) record with
    | inl hmem => exact htext _ hmem rfl
    | inr hfiller => exact hhead (hfiller ▸ head?_unary filler record)
  simp only [Codec.ofTables]
  rw [dif_neg hnone]

end InfiniShell.RuntimeHost

namespace InfiniShell.RuntimeHost

structure JournalSummary where
  finalSha256 : String
  lastEventSequence : Nat
  acknowledgedSequence : Nat
  events : List HostedEvent
  snapshot : RuntimeHostSnapshot

structure JournalScan where
  expectedRecordSequence : Nat
  expectedEventSequence : Nat
  acknowledgedSequence : Nat
  previousSha256 : String
  events : List HostedEvent
deriving DecidableEq

def JournalScan.start (manifestSha256 : String) : JournalScan := ⟨1, 1, 0, manifestSha256, []⟩

section Codec

variable (codec : Codec)

def JournalScan.payload (scan : JournalScan) : JournalPayload → Except String JournalScan
  | .event event => do
    if event.sequence ≠ scan.expectedEventSequence ∨ event.digest ≠ codec.sha256 (codec.encodeEvent event.event) then
      throw "运行时宿主事件账本不连续"
    let next ← addOr scan.expectedEventSequence 1 "运行时宿主事件序号耗尽"
    return { scan with expectedEventSequence := next, events := scan.events ++ [event] }
  | .eventsAcknowledged _ throughSequence => do
    let lastEventSequence := scan.expectedEventSequence - 1
    if throughSequence < scan.acknowledgedSequence ∨ throughSequence > lastEventSequence then
      throw "运行时宿主事件确认账本无效"
    return { scan with acknowledgedSequence := throughSequence }
  | .ownerClaimed _ _ | .commandRecorded _ | .commandUpdated _ => return scan

def JournalScan.line (scan : JournalScan) (line : Bytes) : Except String JournalScan := do
  if line = [] then
    return scan
  if line.length > maxJournalRecordBytes then
    throw "运行时宿主账本记录超过安全上限"
  match codec.decodeRecord line with
  | none => throw "invalid JSON"
  | some journal =>
    if journal.sequence ≠ scan.expectedRecordSequence ∨ journal.previousSha256 ≠ scan.previousSha256 then
      throw "运行时宿主账本哈希链不连续"
    let scan ← scan.payload codec journal.payload
    let next ← addOr scan.expectedRecordSequence 1 "运行时宿主账本序号耗尽"
    return { scan with previousSha256 := codec.sha256 line, expectedRecordSequence := next }

def JournalScan.summary (scan : JournalScan) : JournalSummary where
  finalSha256 := scan.previousSha256
  lastEventSequence := scan.expectedEventSequence - 1
  acknowledgedSequence := scan.acknowledgedSequence
  events := scan.events
  snapshot := .through scan.acknowledgedSequence scan.events

def verifyJournal (record : RuntimeHostRecord) (journal : Bytes) : Except String JournalSummary := do
  if journal.length > maxJournalBytes then
    throw "运行时宿主账本不是受控普通文件"
  let scan ← (journal.splitOn newline).foldlM (JournalScan.line codec) (JournalScan.start record.manifestSha256)
  return scan.summary

/-- `hostExit` is what `host-exit.json` holds and `native` the receipt of the native process. -/
def confirmedExit (record : RuntimeHostRecord) (generation : Uuid) (hostExit : Option RuntimeHostExitReceipt)
    (journal : Bytes) (native : Option Bytes) : Except String (Option RuntimeHostExitReceipt) := do
  match hostExit with
  | none => return none
  | some receipt =>
    if receipt.version ≠ hostManifestVersion ∨ receipt.runtimeGeneration ≠ generation ∨
        receipt.hostInstanceId ≠ record.manifest.hostInstanceId ∨ receipt.manifestSha256 ≠ record.manifestSha256 ∨
        receipt.nativeProcess ≠ .exited ∨ ¬receipt.adapterTaskTerminated ∨ ¬receipt.eventJournalCompleted ∨
        receipt.nativeCleanupSha256 = none then
      throw "运行时宿主退出回执不完整或不匹配"
    let summary ← verifyJournal codec record journal
    if receipt.journalSha256 ≠ summary.finalSha256 ∨ receipt.lastEventSequence ≠ summary.lastEventSequence ∨
        receipt.acknowledgedSequence ≠ summary.acknowledgedSequence then
      throw "运行时宿主退出账本与回执不匹配"
    match native with
    | none => throw "运行时宿主缺少真实进程退出回执"
    | some native =>
      if receipt.nativeCleanupSha256 ≠ some (codec.sha256 native) then
        throw "运行时宿主原生清理回执摘要不匹配"
      return some receipt

def recoverExitedEvents (record : RuntimeHostRecord) (generation : Uuid) (hostExit : Option RuntimeHostExitReceipt)
    (journal : Bytes) (native : Option Bytes) :
    Except String (Option (RuntimeHostExitReceipt × List HostedEvent × RuntimeHostSnapshot)) := do
  match ← confirmedExit codec record generation hostExit journal native with
  | none => return none
  | some receipt =>
    let summary ← verifyJournal codec record journal
    return some (receipt, summary.events.filter (fun event => event.sequence > receipt.acknowledgedSequence),
      summary.snapshot)

end Codec

/-- What one pull hands over of a catch-up: events in sequence, up to its fixed end. -/
def catchUpBatch (recoveredThrough catchUpThrough : Nat) : List HostedEvent → Option (List HostedEvent × Nat)
  | [] => some ([], recoveredThrough)
  | hosted :: rest => do
    let expected ← checkedAdd recoveredThrough 1
    if hosted.sequence ≠ expected then
      none
    else if hosted.sequence > catchUpThrough then
      some ([], recoveredThrough)
    else
      let (events, recovered) ← catchUpBatch hosted.sequence catchUpThrough rest
      some (hosted :: events, recovered)

def catchUp (state : RuntimeHostState) (catchUpThrough : Nat) : Nat → Nat → Option (List HostedEvent)
  | recoveredThrough, fuel =>
    if recoveredThrough < catchUpThrough then
      match fuel with
      | 0 => none
      | fuel + 1 => do
        let hosted := (state.events.filter fun event => event.sequence > recoveredThrough).take maxPullEvents
        let (events, recovered) ← catchUpBatch recoveredThrough catchUpThrough hosted
        if recovered = recoveredThrough then
          none
        else
          let later ← catchUp state catchUpThrough recovered fuel
          some (events ++ later)
    else some []

def liveReattach (state : RuntimeHostState) : Option (List HostedEvent) :=
  catchUp state state.lastEventSequence state.acknowledgedSequence state.lastEventSequence

end InfiniShell.RuntimeHost
