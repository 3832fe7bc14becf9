import InfiniShell.AgentRuntime.ToolLeaseRuns

namespace InfiniShell.AgentRuntime

open Collections Effects Effects.Program
open LocalCli (Json)
open RuntimeHost (Uuid)

section Replays

variable {codec : Codec} {l : GrokToolLeaseLedger} {message : Json} {now : Nat}

theorem observe_known {turn event call : String} {frameHash : Fingerprint} (hexpired : l.hasExpired now = false)
    (hids : ToolLedger.frameIds message = .ok (turn, event, call)) (hknown : l.events.get event = some frameHash) :
    Triple (fun w => w = l) (ToolLedger.observeNativeTool codec message now)
      (fun _ w => w = l ∧ fingerprint codec message = .ok frameHash) (fun _ w => w = l) := by
  refine active_then (fun _ => ?_) fun _ => rfl
  refine Triple.bind (Q := fun _ w => w = l) ?_ fun _ => ?_
  · apply Triple.read_then
    rw [id_eq, hexpired]
    exact Triple.ret fun _ h => h
  · rw [hids]
    refine Triple.ofResult_then (fun ids hsame => ?_) fun _ _ => rfl
    obtain rfl := Except.ok.inj hsame
    refine Triple.read_then (Triple.ensure_then (fun _ => ?_) fun _ => rfl)
    refine Triple.ofResult_then (fun found hfound => ?_) fun _ _ => rfl
    dsimp only [id_eq]
    rw [hknown]
    refine Triple.ensure ?_ ?_
    · rintro w rfl heq
      exact ⟨rfl, heq ▸ hfound⟩
    · rintro w rfl -
      rfl

theorem bind_known {outer inner : String × Fingerprint} {binding : InnerBinding} (hactive : l.retired = false)
    (hexpired : l.hasExpired now = false) (hforeign : l.foreignCall message = false)
    (hids : ToolLedger.callIds codec message = .ok (outer, inner))
    (houter : l.outer.get outer.1 = some (outer.2, inner.1)) (hinner : l.inner.get inner.1 = some binding)
    (hsame : binding.fingerprint = inner.2) :
    Triple (fun w => w = l) (ToolLedger.bindSdk codec message now) (fun proof w => w = l ∧ proof = binding.lease)
      (fun _ _ => False) := by
  refine Triple.bind (Q := fun _ w => w = l) ?_ fun _ => Triple.bind (Q := fun _ w => w = l) ?_ fun _ => ?_
  · refine Triple.read_then (Triple.ensure (fun _ h _ => h) ?_)
    rintro w rfl hretired
    exact hretired hactive
  · apply Triple.read_then
    rw [id_eq, hexpired]
    exact Triple.ret fun _ h => h
  · refine Triple.read_then (Triple.ensure_then (fun _ => ?_) fun hnot => hnot hforeign)
    rw [hids]
    refine Triple.ofResult_then (fun ids hfound => ?_) fun _ he => absurd he nofun
    obtain rfl := Except.ok.inj hfound
    refine Triple.ensure_then (fun _ => ?_) fun hnot => hnot ?_
    · dsimp only [id_eq]
      rw [hinner]
      refine Triple.ensure_then (fun _ => ?_) fun hnot => hnot hsame
      refine Triple.bind (Q := fun _ w => w = l) ?_ fun _ => Triple.ret fun w h => ⟨h, rfl⟩
      apply Triple.read_then
      rw [id_eq, AssocMap.contains, houter]
      exact Triple.ret fun _ h => h
    · simp [houter]

end Replays

def ToolLease.Reported (lease : ToolLease) : Prop := lease.state = .replyWritten ∧ lease.replySuccess = some false

structure FailedFrame (codec : Codec) (l : GrokToolLeaseLedger) (message : Json) (call : String) (lease : ToolLease) :
    Prop where
  ids : ∃ event, ToolLedger.frameIds message = .ok (lease.turnId, event, call) ∧ l.events.get event = none
  foreign : l.foreignFrame message lease.turnId = false
  digest : ∃ frameHash, fingerprint codec message = .ok frameHash
  room : l.events.size < maxRecords
  stored : l.leases.get call = some lease
  generation : lease.runtimeGeneration = l.runtimeGeneration
  kind : ((message.index "params").index "update").index "sessionUpdate" = .string "tool_call_update"
  status : ((message.index "params").index "update").index "status" = .string "failed"
  input : (((message.index "params").index "update").get? "rawInput").isSome = true → ∃ name inputHash,
    nativeInput codec l.serverName (((message.index "params").index "update").index "rawInput") true =
      .ok (name, inputHash) ∧
    ToolLedger.inputChanged l ((message.index "params").index "update") lease lease.turnId name inputHash = false

inductive Disables (codec : Codec) (l : GrokToolLeaseLedger) : LedgerCall → Prop
  | denied (message : Json) (now : Nat) (hok : ((LedgerCall.recordPermission message false now).run codec l).1 = .ok none) :
      Disables codec l (.recordPermission message false now)
  | failed (message : Json) (now : Nat) (call : String) (lease : ToolLease) (hframe : FailedFrame codec l message call lease) (hreported : ¬lease.Reported) :
      Disables codec l (.observeNativeTool message now)
  | expired (ledgerCall : LedgerCall) (now : Nat) (hclock : ledgerCall.clock = some now) (hexpired : l.hasExpired now = true) :
      Disables codec l ledgerCall
  | retired : Disables codec l .retire

section Failures

variable {codec : Codec} {l : GrokToolLeaseLedger} {message : Json} {now : Nat} {call : String} {lease : ToolLease}

theorem completeInput_passes {update : Json} {name : String} {inputHash : Fingerprint}
    (hstored : l.leases.get call = some lease)
    (hinput : nativeInput codec l.serverName (update.index "rawInput") true = .ok (name, inputHash))
    (hsame : ToolLedger.inputChanged l update lease lease.turnId name inputHash = false) :
    Triple (fun w => w = l) (ToolLedger.completeInput codec update call lease.turnId)
      (fun _ w => ∃ after, w = l.putLease call after ∧ (after.Reported ↔ lease.Reported)) (fun _ _ => False) := by
  apply Triple.read_then
  rw [id_eq, hinput]
  refine Triple.ofResult_then (fun input hfound => ?_) fun _ he => absurd he nofun
  obtain rfl := Except.ok.inj hfound
  refine orError_then hstored (Triple.ensure_then (fun _ => Triple.modify ?_) fun hnot => hnot hsame)
  rintro w rfl
  refine ⟨_, rfl, ?_⟩
  rw [ToolLease.Reported, ToolLease.Reported]
  refine and_congr_left fun _ => ?_
  dsimp only
  split
  · rename_i hstreaming
    rw [hstreaming]
    exact ⟨nofun, nofun⟩
  · exact Iff.rfl

theorem failCall_reported (hstored : l.leases.get call = some lease) (hactive : l.retired = false) :
    Triple (fun w => w = l) (ToolLedger.failCall call) (fun _ w => lease.Reported ∧ w.retired = false)
      (fun _ w => ¬lease.Reported ∧ w.retired = true) := by
  refine Triple.read_then (orError_then hstored ?_)
  split
  · rename_i hreported
    apply Triple.modify
    rintro w rfl
    exact ⟨hreported, hactive⟩
  · rename_i hreported
    refine Triple.modify_then (Triple.fail ?_)
    rintro w rfl
    exact ⟨hreported, rfl⟩

theorem failedFrame_triple (h : FailedFrame codec l message call lease) (hexpired : l.hasExpired now = false)
    (hactive : l.retired = false) :
    Triple (fun w => w = l) (ToolLedger.observeNativeTool codec message now)
      (fun _ w => lease.Reported ∧ w.retired = false) (fun _ w => ¬lease.Reported ∧ w.retired = true) := by
  obtain ⟨event, hids, hnew⟩ := h.ids
  obtain ⟨frameHash, hhash⟩ := h.digest
  refine Triple.bind (Q := fun _ w => w = l) ?_ fun _ => Triple.bind (Q := fun _ w => w = l) ?_ fun _ => ?_
  · refine Triple.read_then (Triple.ensure (fun _ h _ => h) ?_)
    rintro w rfl hretired
    exact absurd hactive hretired
  · apply Triple.read_then
    rw [id_eq, hexpired]
    exact Triple.ret fun _ h => h
  · rw [hids]
    refine Triple.ofResult_then (fun ids hfound => ?_) fun _ he => absurd he nofun
    obtain rfl := Except.ok.inj hfound
    refine Triple.read_then (Triple.ensure_then (fun _ => ?_) fun hnot => absurd h.foreign hnot)
    rw [hhash]
    refine Triple.ofResult_then (fun found hsame => ?_) fun _ he => absurd he nofun
    dsimp only [id_eq]
    rw [hnew]
    refine Triple.ensure_then (fun _ => ?_) fun hnot => absurd h.room hnot
    refine Triple.bind (Q := fun _ w => lease.Reported ∧ w.retired = false) ?_ fun _ => Triple.modify fun w hw => hw
    rw [ToolLedger.observeUpdate, h.kind, if_neg (by simp), if_pos rfl]
    refine Triple.read_then (orError_then h.stored ?_)
    refine Triple.ensure_then (fun _ => ?_) fun hnot => absurd ⟨h.generation, rfl⟩ hnot
    have hstatus : ¬Json.string "failed" = Json.string "completed" := by simp
    by_cases hraw : (((message.index "params").index "update").get? "rawInput").isSome = true
    · obtain ⟨name, inputHash, hinput, hsame⟩ := h.input hraw
      rw [if_pos hraw]
      refine Triple.bind (Triple.of_imp (fun _ h => h) (completeInput_passes h.stored hinput hsame) (fun _ _ h => h)
        fun _ _ h => h.elim) fun _ => ?_
      rintro m ⟨after, rfl, hreported⟩
      rw [h.status, if_neg hstatus, if_pos rfl, ← hreported]
      exact failCall_reported (putLease_stored l call after) hactive _ rfl
    · rw [if_neg hraw, h.status, if_neg hstatus, if_pos rfl]
      exact failCall_reported h.stored hactive

variable {ledgerCall : LedgerCall}

theorem expired_triple (hclock : ledgerCall.clock = some now) (hactive : l.retired = false)
    (hexpired : l.hasExpired now = true) :
    Triple (fun w => w = l) (ledgerCall.run codec) (fun _ _ => False) (fun _ w => w.retired = true) := by
  have hguards : ∀ {A : Type} (g : Unit → Ledgered A),
      Triple (fun w => w = l) (ToolLedger.active >>= fun _ => ToolLedger.expireUnbound now >>= g) (fun _ _ => False)
        (fun _ w => w.retired = true) := by
    intro A g
    refine Triple.bind (Q := fun _ w => w = l) ?_ fun _ => expireUnbound_then (fun h => ?_) fun _ => rfl
    · refine Triple.read_then (Triple.ensure (fun _ h _ => h) ?_)
      rintro w rfl hretired
      exact absurd hactive hretired
    · exact absurd (hexpired.symm.trans h) nofun
  cases ledgerCall with
  | observeNativeTool message clock =>
    obtain rfl := Option.some.inj hclock
    exact Triple.bind (hguards _) fun _ _ h => h.elim
  | recordPermission message allowed clock =>
    obtain rfl := Option.some.inj hclock
    exact Triple.bind (hguards _) fun _ _ h => h.elim
  | bindSdk message clock =>
    obtain rfl := Option.some.inj hclock
    exact Triple.bind (hguards _) fun _ _ h => h.elim
  | beginTurn => exact absurd hclock nofun
  | verifyBound => exact absurd hclock nofun
  | recordReplyWritten => exact absurd hclock nofun
  | retire => exact absurd hclock nofun

theorem Disables.retires (h : Disables codec l ledgerCall) (hsound : LedgerSound anything l) :
    (ledgerCall.run codec l).2.retired = true := by
  cases hretired : l.retired with
  | true => exact (runCalls_grows codec [ledgerCall] hsound).2.retired hretired
  | false =>
    cases h with
    | denied message now hok =>
      have hpermission : Triple (fun w => w = l) (ToolLedger.recordPermission codec message false now)
          (fun _ w => LedgerChanges anything l w ∧ w.retired = !false) (fun _ w => w = l ∨ w = { l with retired := true }) :=
        recordPermission_triple now false (fun _ _ _ _ _ => trivial) hsound.denied
      have htriple : Triple (fun w => w = l) ((LedgerCall.recordPermission message false now).run codec)
          (fun _ w => w.retired = true) (fun _ _ => True) :=
        Triple.bind (Triple.of_imp (fun _ h => h) hpermission (fun _ _ h => h.2) fun _ _ _ => trivial)
          fun _ => Triple.ret fun _ h => h
      exact htriple.of_ok rfl hok
    | failed message now call lease hframe hreported =>
      have htriple : Triple (fun w => w = l) ((LedgerCall.observeNativeTool message now).run codec)
          (fun _ w => w.retired = true) (fun _ w => w.retired = true) := by
        cases hexpired : l.hasExpired now with
        | true => exact Triple.of_imp (fun _ h => h) (expired_triple rfl hretired hexpired) (fun _ _ h => h.elim) fun _ _ h => h
        | false =>
          refine Triple.bind (Triple.of_imp (fun _ h => h) (failedFrame_triple hframe hexpired hretired) (fun _ _ h => h)
            fun _ _ h => h.2) fun _ => Triple.ret fun _ h => ?_
          exact absurd h.1 hreported
      exact htriple.world rfl
    | expired _ now hclock hexpired =>
      refine Triple.world (Triple.of_imp (fun _ h => h) (expired_triple hclock hretired hexpired) (fun _ _ h => h.elim)
        fun _ _ h => h) rfl
    | retired => rfl

end Failures

section Bindings

variable {codec : Codec} {start l : GrokToolLeaseLedger} {calls : List LedgerCall} {message : Json} {now : Nat}
  {proof : VerifiedGrokToolLease}

/-- The call was given the only lease that waited for its input, and this input was permitted for it. -/
def Authorized (codec : Codec) (start : GrokToolLeaseLedger) (calls : List LedgerCall) (message : Json)
    (proof : VerifiedGrokToolLease) : Prop :=
  ∃ tool inputHash lease,
    ((((message.index "params").index "message").index "params").index "name").asStr? = some tool ∧
    inputFingerprint codec (start.serverName ++ "__" ++ tool)
      ((((message.index "params").index "message").index "params").index "arguments") = .ok inputHash ∧
    (runCalls codec calls start).candidates (start.serverName ++ "__" ++ tool) inputHash = [(proof.nativeCallId, lease)] ∧
    proof = (runCalls codec calls start).proofFor proof.nativeCallId lease proof.innerKey ∧
    Granted codec start calls proof.nativeCallId (start.serverName ++ "__" ++ tool) inputHash

theorem bind_bound (h : ((LedgerCall.bindSdk message now).run codec l).1 = .ok (some proof)) :
    Bound codec message l proof ((LedgerCall.bindSdk message now).run codec l).2 ∧ l.foreignCall message = false := by
  have hbind : Triple (fun w => w = l) (ToolLedger.bindSdk codec message now)
      (fun proof w => LedgerChanges anything l w ∧ Bound codec message l proof w ∧ l.foreignCall message = false)
      (fun _ w => Failed anything l w) := bindSdk_triple now
  have htriple : Triple (fun w => w = l) ((LedgerCall.bindSdk message now).run codec)
      (fun answer w => ∀ proof, answer = some proof → Bound codec message l proof w ∧ l.foreignCall message = false)
      (fun _ _ => True) := by
    refine Triple.bind (Triple.of_imp (fun _ h => h) hbind (fun _ _ h => h) fun _ _ _ => trivial) fun found => Triple.ret ?_
    rintro w ⟨-, h⟩ proof hproof
    rw [← Option.some.inj hproof]
    exact h
  exact htriple.of_ok rfl h proof rfl

theorem Bound.authorized (h : Bound codec message (runCalls codec calls start) proof w)
    (hsound : LedgerSound (Granted codec start calls) (runCalls codec calls start))
    (hname : (runCalls codec calls start).serverName = start.serverName)
    (hnew : (runCalls codec calls start).inner.get proof.innerKey = none) :
    Authorized codec start calls message proof := by
  cases h with
  | known outer inner binding w hids hbinding =>
    rw [(hsound.bound _ _ hbinding).1, hbinding] at hnew
    exact absurd hnew nofun
  | new outer inner tool inputHash call lease w hids _ htool hinput honly =>
    rw [hname] at hinput honly
    obtain ⟨hstored, hawaits⟩ := candidate_of_mem (honly ▸ List.mem_singleton_self (call, lease))
    obtain ⟨-, happroved, -, hqualified, hfinal, -⟩ := state_of_awaits hawaits
    obtain ⟨permitted, hpermitted, hgranted⟩ := hsound.approved call lease hstored happroved
    obtain rfl := Option.some.inj (hfinal.symm.trans hpermitted)
    exact ⟨tool, inputHash, lease, htool, hinput, honly, rfl, hqualified ▸ hgranted⟩

variable {w : GrokToolLeaseLedger}

theorem Bound.stored (h : Bound codec message l proof w) (hsound : LedgerSound anything l) :
    ∃ outer inner binding, ToolLedger.callIds codec message = .ok (outer, inner) ∧ w.inner.get inner.1 = some binding ∧
      binding.fingerprint = inner.2 ∧ binding.lease = proof ∧ proof.innerKey = inner.1 ∧
      w.outer.get outer.1 = some (outer.2, inner.1) := by
  cases h with
  | known outer inner binding w hids hbinding hsame hinner hregistered =>
    exact ⟨outer, inner, binding, hids, hinner ▸ hbinding, hsame, rfl, (hsound.bound _ _ hbinding).1, hregistered⟩
  | new outer inner tool inputHash call lease w hids hnew htool hinput honly hinner hregistered =>
    refine ⟨outer, inner, ⟨inner.2, l.proofFor call lease inner.1⟩, hids, ?_, rfl, rfl, rfl, hregistered⟩
    rw [hinner, AssocMap.get_insert, if_pos rfl]

theorem bound_once {w w' w'' : GrokToolLeaseLedger} {message' : Json} {proof' : VerifiedGrokToolLease}
    (h : Bound codec message l proof w) (hsound : LedgerSound anything l) (hgrows : Grows w w')
    (h' : Bound codec message' w' proof' w'') (hsound' : LedgerSound anything w') (hsound'' : LedgerSound anything w'')
    (hgrows' : Grows w' w'')
    (hsame : proof'.nativeCallId = proof.nativeCallId ∨ proof'.innerKey = proof.innerKey) : proof' = proof := by
  obtain ⟨-, inner, binding, -, hbinding, -, rfl, hkey, -⟩ := h.stored hsound
  obtain ⟨-, inner', binding', -, hbinding', -, rfl, hkey', -⟩ := h'.stored hsound'
  have hkept := hgrows'.inner _ _ (hgrows.inner _ _ hbinding)
  have hkeys : inner'.1 = inner.1 := by
    cases hsame with
    | inl hcall => exact hsound''.single _ _ _ _ hbinding' hkept hcall
    | inr hsame => rw [← hkey', ← hkey, hsame]
  rw [hkeys, hkept] at hbinding'
  rw [Option.some.inj hbinding']

theorem bind_again {w w' : GrokToolLeaseLedger} (h : Bound codec message l proof w) (hsound : LedgerSound anything l)
    (hforeign : l.foreignCall message = false) (hgrows : Grows l w') (hkept : Grows w w') (hactive : w'.retired = false)
    (hexpired : w'.hasExpired now = false) :
    (LedgerCall.bindSdk message now).run codec w' = (.ok (some proof), w') := by
  obtain ⟨outer, inner, binding, hids, hbinding, hsame, hproof, -, hregistered⟩ := h.stored hsound
  have hforeign' : w'.foreignCall message = false := by
    rw [GrokToolLeaseLedger.foreignCall, hgrows.serverId]
    exact hforeign
  have htriple : Triple (fun v => v = w') ((LedgerCall.bindSdk message now).run codec)
      (fun answer v => v = w' ∧ answer = some proof) (fun _ _ => False) := by
    refine Triple.bind (bind_known hactive hexpired hforeign' hids (hkept.outer _ _ hregistered)
      (hkept.inner _ _ hbinding) hsame) fun found => Triple.ret ?_
    rintro v ⟨rfl, rfl⟩
    exact ⟨rfl, congrArg some hproof⟩
  obtain ⟨hok, herror⟩ := htriple w' rfl
  cases hrun : (LedgerCall.bindSdk message now).run codec w' with
  | mk result v =>
    cases result with
    | ok answer =>
      obtain ⟨rfl, rfl⟩ := hok answer v hrun
      rfl
    | error e => exact (herror e v hrun).elim

theorem observe_again {earlier : Json} {before : Nat} {result : Option VerifiedGrokToolLease}
    (h : ((LedgerCall.observeNativeTool earlier before).run codec l).1 = .ok result)
    (hgrows : Grows ((LedgerCall.observeNativeTool earlier before).run codec l).2 w)
    {turn turn' event call call' : String} (hids : ToolLedger.frameIds earlier = .ok (turn, event, call))
    (hids' : ToolLedger.frameIds message = .ok (turn', event, call')) (hexpired : w.hasExpired now = false) :
    ((LedgerCall.observeNativeTool message now).run codec w).2 = w ∧
      (((LedgerCall.observeNativeTool message now).run codec w).1 = .ok none →
        fingerprint codec message = fingerprint codec earlier) := by
  have hobserve : Triple (fun v => v = l) (ToolLedger.observeNativeTool codec earlier before)
      (fun _ v => LedgerChanges anything l v ∧ Observed codec earlier v) (fun _ v => Failed anything l v) :=
    observeNativeTool_triple before
  have hfirst : Triple (fun v => v = l) ((LedgerCall.observeNativeTool earlier before).run codec)
      (fun _ v => Observed codec earlier v) (fun _ _ => True) :=
    Triple.bind (Triple.of_imp (fun _ h => h) hobserve (fun _ _ h => h.2) fun _ _ _ => trivial)
      fun _ => Triple.ret fun _ h => h
  obtain ⟨_, _, _, frameHash, hfound, hhash, hknown⟩ := hfirst.of_ok rfl h
  rw [hids] at hfound
  obtain ⟨rfl, rfl, rfl⟩ := Except.ok.inj hfound
  have hsecond : Triple (fun v => v = w) ((LedgerCall.observeNativeTool message now).run codec)
      (fun _ v => v = w ∧ fingerprint codec message = .ok frameHash) (fun _ v => v = w) :=
    Triple.bind (observe_known hexpired hids' (hgrows.events _ _ hknown)) fun _ => Triple.ret fun _ h => h
  refine ⟨Triple.world (Triple.of_imp (fun _ h => h) hsecond (fun _ _ h => h.1) fun _ _ h => h) rfl, fun hok => ?_⟩
  rw [(hsecond.of_ok rfl hok).2, hhash]

end Bindings

end InfiniShell.AgentRuntime
