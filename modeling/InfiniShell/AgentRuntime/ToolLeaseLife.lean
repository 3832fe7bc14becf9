import InfiniShell.AgentRuntime.ToolLeaseAuthority

namespace InfiniShell.AgentRuntime

open Collections
open LocalCli (Json JsonObject)
open RuntimeHost (Uuid)

section Life

variable (codec : Codec) (processEpoch runtimeGeneration : Uuid) (serverId serverName nativeSessionId : String)

/-- What a lease authorizes, over the whole life of a ledger: a call now, and the ones that come after it. -/
theorem leases_authorize_once (calls : List LedgerCall) (ledgerCall : LedgerCall) (later : List LedgerCall) :
    let start : GrokToolLeaseLedger := .fresh processEpoch runtimeGeneration serverId serverName nativeSessionId
    let l := runCalls codec calls start
    let w := runCalls codec (ledgerCall :: later) l
    (∀ call lease, l.leases.get call = some lease →
      ∃ lease', w.leases.get call = some lease' ∧ LeaseMoves lease lease') ∧
    (∀ message now proof, ledgerCall = .bindSdk message now → (ledgerCall.run codec l).1 = .ok (some proof) →
      (∃ outer inner, ToolLedger.callIds codec message = .ok (outer, inner) ∧ proof.innerKey = inner.1) ∧
      (l.inner.get proof.innerKey = none → Authorized codec start calls message proof) ∧
      (∀ message' now' proof', ((LedgerCall.bindSdk message' now').run codec w).1 = .ok (some proof') →
        proof'.nativeCallId = proof.nativeCallId ∨ proof'.innerKey = proof.innerKey → proof' = proof) ∧
      (∀ now', w.retired = false → w.hasExpired now' = false →
        (LedgerCall.bindSdk message now').run codec w = (.ok (some proof), w))) ∧
    (∀ message now, ledgerCall = .observeNativeTool message now → (ledgerCall.run codec l).1 = .ok none →
      ∀ message' now' turn turn' event call call',
        ToolLedger.frameIds message = .ok (turn, event, call) →
        ToolLedger.frameIds message' = .ok (turn', event, call') → w.hasExpired now' = false →
        ((LedgerCall.observeNativeTool message' now').run codec w).2 = w ∧
          (((LedgerCall.observeNativeTool message' now').run codec w).1 = .ok none →
            fingerprint codec message' = fingerprint codec message)) ∧
    (Disables codec l ledgerCall → ∀ next : LedgerCall, next ≠ .retire → ∃ e, next.run codec w = (.error e, w)) ∧
    (∀ e, (ledgerCall.run codec l).1 = .error e →
      (ledgerCall.run codec l).2 = l ∨ (ledgerCall.run codec l).2.retired = true) := by
  intro start l w
  have hfresh : LedgerSound (Granted codec start []) start := LedgerSound.fresh _ _ _ _ _ _
  obtain ⟨hgranted, hsince⟩ := runCalls_sound codec calls hfresh
  have hsound : LedgerSound anything l := hgranted.mono fun _ _ _ _ => trivial
  obtain ⟨hsoundNext, hgrowsNext⟩ := runCalls_grows codec [ledgerCall] hsound
  obtain ⟨hsoundLater, hgrowsLater⟩ := runCalls_grows codec later hsoundNext
  have hgrows : Grows l w := hgrowsNext.trans hgrowsLater
  refine ⟨hgrows.leases, ?_, ?_, ?_, ?_⟩
  · rintro message now proof rfl hok
    obtain ⟨hbound, hforeign⟩ := bind_bound hok
    refine ⟨?_, hbound.authorized hgranted hsince.serverName, ?_, ?_⟩
    · obtain ⟨outer, inner, -, hids, -, -, -, hkey, -⟩ := hbound.stored hsound
      exact ⟨outer, inner, hids, hkey⟩
    · intro message' now' proof' hok' hsame
      obtain ⟨hbound', -⟩ := bind_bound hok'
      obtain ⟨hsound', hgrows'⟩ := runCalls_grows codec [.bindSdk message' now'] hsoundLater
      exact bound_once hbound hsound hgrowsLater hbound' hsoundLater hsound' hgrows' hsame
    · intro now' hactive hexpired
      exact bind_again hbound hsound hforeign hgrows hgrowsLater hactive hexpired
  · rintro message now rfl hok message' now' turn turn' event call call' hids hids' hexpired
    exact observe_again hok hgrowsLater hids hids' hexpired
  · intro hdisables next hnext
    have hretired : w.retired = true := hgrowsLater.retired (hdisables.retires hsound)
    obtain ⟨e, herror, hsame⟩ := error_of_triple (run_retired codec hretired hnext)
    exact ⟨e, Prod.ext herror hsame⟩
  · intro e herror
    exact ((run_triple hsound ledgerCall fun _ _ _ _ _ _ _ => trivial).of_error rfl herror).2

end Life

def fieldsOf : List (String × Json) → JsonObject
  | [] => .nil
  | (key, value) :: rest => .cons key value (fieldsOf rest)

def sampleFrame (event : String) (update : List (String × Json)) : Json :=
  .object (fieldsOf [("jsonrpc", .string "2.0"), ("method", .string "session/update"),
    ("params", .object (fieldsOf [
      ("_meta", .object (fieldsOf [("eventId", .string event), ("promptId", .string "native-turn")])),
      ("sessionId", .string "native-session"), ("update", .object (fieldsOf update))]))])

def sampleInput (variant : List (String × Json)) : Json :=
  .object (fieldsOf ([("tool_input", .object .nil), ("tool_name", .string "tasks__inspect")] ++ variant))

def firstFrame : Json := sampleFrame "event-1"
  [("_meta", .object (fieldsOf [("x.ai/tool", .object (fieldsOf [("name", .string "use_tool")]))])),
    ("rawInput", sampleInput []), ("sessionUpdate", .string "tool_call"), ("toolCallId", .string "call")]

def finalFrame : Json := sampleFrame "event-2"
  [("kind", .string "other"), ("rawInput", sampleInput [("variant", .string "UseTool")]),
    ("sessionUpdate", .string "tool_call_update"), ("toolCallId", .string "call")]

def failedFrame : Json := sampleFrame "event-3"
  [("sessionUpdate", .string "tool_call_update"), ("status", .string "failed"), ("toolCallId", .string "call")]

def samplePermission : Json :=
  .object (fieldsOf [("id", .integer 1), ("jsonrpc", .string "2.0"), ("method", .string "session/request_permission"),
    ("params", .object (fieldsOf [("sessionId", .string "native-session"),
      ("toolCall", .object (fieldsOf [("kind", .string "other"),
        ("rawInput", sampleInput [("variant", .string "UseTool")]), ("toolCallId", .string "call")]))]))])

def sampleTransaction : Json :=
  .object (fieldsOf [("id", .integer 3), ("jsonrpc", .string "2.0"), ("method", .string "tools/call"),
    ("params", .object (fieldsOf [("arguments", .object .nil), ("name", .string "inspect")]))])

def sampleCall : Json :=
  .object (fieldsOf [("id", .integer 2), ("jsonrpc", .string "2.0"), ("method", .string "_x.ai/mcp/sdk_call"),
    ("params", .object (fieldsOf [("message", sampleTransaction), ("serverId", .string "server")]))])

def sampleArguments : Json :=
  .object (fieldsOf [("arguments", .object .nil), ("qualified_name", .string "tasks__inspect")])

def sampleDigests : List (Json × Fingerprint) :=
  [(firstFrame, 0x44d409ad312053918950aabd254d73c4d0e4ce456c01e366830bb50c8dc453cb),
    (finalFrame, 0xa26dfd994f8bf2b83f613d7660096bedabeb784236a1a3f3e9a97a7cb71120ab),
    (failedFrame, 0x3c212ed8eb22f24ab5f6a5ab2aa194e68358ea2d3c22fb8d961420dfca02deca),
    (samplePermission, 0xd0d35ae3bbfb2336b19588ca425cbe27a065efcdbca589ca80f4615f90a0fed1),
    (sampleTransaction, 0x7374dc79da64728bbc8154f4faca98558b0b7ebd0debf461a3e233711692094c),
    (sampleCall, 0x40e47ffeb4be94c6239156965f62b1f1cd65fa71308577fdb3304e750d6273e3),
    (sampleArguments, 0x8fd25a1957dc925474e568015501eaca0f815bb5058611cc7bbacc75d68fe3c7)]

def sampleCodec : Codec where
  sha256 := fun text => ((sampleDigests.find? fun entry => entry.1.render = text).map Prod.snd).getD 0
  parse := fun text => if text = "3" then .ok (.integer 3) else .error "expected value"

def sampleLedger : GrokToolLeaseLedger := .fresh 1 2 "server" "tasks" "native-session"

def sampleProof : VerifiedGrokToolLease := ⟨1, 2, "server", "call", "native-turn", "3"⟩

def reportedCalls : List LedgerCall :=
  [.beginTurn 2 "native-turn", .observeNativeTool firstFrame 0, .observeNativeTool finalFrame 1,
    .recordPermission samplePermission true 2, .bindSdk sampleCall 3, .recordReplyWritten sampleProof false]

def reportedLease : ToolLease :=
  ⟨2, "native-turn", "tasks__inspect", some 0x8fd25a1957dc925474e568015501eaca0f815bb5058611cc7bbacc75d68fe3c7, true, false,
    some false, some (2 + leaseDuration), .replyWritten⟩

/-- A failed tool does not end the life of its ledger if the failure was in the reply that was written. -/
theorem reported_failure_disables_nothing :
    ¬∀ (codec : Codec) (processEpoch runtimeGeneration : Uuid) (serverId serverName nativeSessionId : String)
      (calls : List LedgerCall) (message : Json) (now : Nat) (call : String) (lease : ToolLease) (next : LedgerCall),
      FailedFrame codec (runCalls codec calls (.fresh processEpoch runtimeGeneration serverId serverName nativeSessionId))
        message call lease → next ≠ .retire →
      ∃ e, (next.run codec (runCalls codec (calls ++ [.observeNativeTool message now])
        (.fresh processEpoch runtimeGeneration serverId serverName nativeSessionId))).1 = .error e := by
  intro h
  have hreached : let l := runCalls sampleCodec reportedCalls sampleLedger
      l.events.get "event-3" = none ∧ l.foreignFrame failedFrame "native-turn" = false ∧ l.events.size < maxRecords ∧
        l.leases.get "call" = some reportedLease ∧ l.runtimeGeneration = 2 := by
    decide +kernel
  obtain ⟨hnew, hforeign, hroom, hstored, hgeneration⟩ := hreached
  have hframe : FailedFrame sampleCodec (runCalls sampleCodec reportedCalls sampleLedger) failedFrame "call" reportedLease := by
    refine ⟨⟨"event-3", by decide +kernel, hnew⟩, hforeign, ?_, hroom, hstored, hgeneration.symm, by decide +kernel,
      by decide +kernel, ?_⟩
    · exact ⟨0x3c212ed8eb22f24ab5f6a5ab2aa194e68358ea2d3c22fb8d961420dfca02deca, by decide +kernel⟩
    · intro hinput
      exact absurd hinput (by decide +kernel)
  obtain ⟨e, he⟩ := h sampleCodec 1 2 "server" "tasks" "native-session" reportedCalls failedFrame 4 "call" reportedLease
    (.beginTurn 2 "native-turn") hframe nofun
  have hok : ((LedgerCall.beginTurn 2 "native-turn").run sampleCodec
      (runCalls sampleCodec (reportedCalls ++ [.observeNativeTool failedFrame 4]) sampleLedger)).1 = .ok none := by
    decide +kernel
  exact absurd (he.symm.trans hok) nofun

end InfiniShell.AgentRuntime
