import Mathlib.Logic.Relation
import InfiniShell.AgentRuntime.ToolLease

namespace InfiniShell.AgentRuntime

open Collections Effects Effects.Program
open LocalCli (Json)
open RuntimeHost (Uuid)

def GrokToolLeaseState.stage : GrokToolLeaseState → Nat
  | .streaming => 0
  | .ready => 1
  | .bound => 2
  | .replyWritten => 3
  | .closed => 4

structure LeaseMoves (before after : ToolLease) : Prop where
  runtimeGeneration : after.runtimeGeneration = before.runtimeGeneration
  turnId : after.turnId = before.turnId
  qualifiedName : after.qualifiedName = before.qualifiedName
  input : before.finalFingerprint.isSome = true → after.finalFingerprint = before.finalFingerprint
  stage : before.state.stage ≤ after.state.stage

theorem LeaseMoves.refl (lease : ToolLease) : LeaseMoves lease lease := ⟨rfl, rfl, rfl, fun _ => rfl, le_rfl⟩

theorem LeaseMoves.trans {a b c : ToolLease} (h : LeaseMoves a b) (h' : LeaseMoves b c) : LeaseMoves a c where
  runtimeGeneration := h'.runtimeGeneration.trans h.runtimeGeneration
  turnId := h'.turnId.trans h.turnId
  qualifiedName := h'.qualifiedName.trans h.qualifiedName
  input := by
    intro hsome
    have hsame := h.input hsome
    exact (h'.input (hsame ▸ hsome)).trans hsame
  stage := h.stage.trans h'.stage

/-- Someone has permitted a call with this name and this input. -/
abbrev Permits := String → String → Fingerprint → Prop

def Approvable (permits : Permits) (call : String) (before after : ToolLease) : Prop :=
  after.approved = true → before.approved = true ∨
    ∃ inputHash, after.finalFingerprint = some inputHash ∧ permits call after.qualifiedName inputHash

inductive LedgerChange (permits : Permits) (ledger : GrokToolLeaseLedger) : GrokToolLeaseLedger → Prop
  | retired : LedgerChange permits ledger { ledger with retired := true }
  | turn (runtimeGeneration turnId) (hopen : ledger.confirmedTurnId ≠ some turnId) :
      LedgerChange permits ledger
        { ledger with runtimeGeneration := runtimeGeneration, confirmedTurnId := some turnId }
  | registered (call lease) (hnew : ledger.leases.get call = none) (happroved : lease.approved = false) :
      LedgerChange permits ledger (ledger.putLease call lease)
  | moved (call before after) (hstored : ledger.leases.get call = some before) (hmoves : LeaseMoves before after)
      (happrovable : Approvable permits call before after) : LedgerChange permits ledger (ledger.putLease call after)
  | event (event frameHash) (hnew : ledger.events.get event = none) :
      LedgerChange permits ledger { ledger with events := ledger.events.insert event frameHash }
  | approval (approvalKey decision) (hnew : ledger.approvals.get approvalKey = none) :
      LedgerChange permits ledger
        { ledger with approvals := ledger.approvals.insert approvalKey decision, retired := ledger.retired || !decision.2 }
  | outer (outerKey outerHash innerKey) (hbound : (ledger.inner.get innerKey).isSome = true)
      (hnew : ledger.outer.get outerKey = none) :
      LedgerChange permits ledger { ledger with outer := ledger.outer.insert outerKey (outerHash, innerKey) }
  | bound (call lease innerKey innerHash outerKey outerHash) (hnew : ledger.inner.get innerKey = none)
      (houter : (ledger.outer.get outerKey).all (·.2 = innerKey) = true)
      (hstored : ledger.leases.get call = some lease) (hready : lease.state = .ready) :
      LedgerChange permits ledger
        { ledger.putLease call { lease with state := .bound } with
          inner := ledger.inner.insert innerKey ⟨innerHash, ledger.proofFor call lease innerKey⟩
          outer := ledger.outer.insert outerKey (outerHash, innerKey) }

abbrev LedgerChanges (permits : Permits) : GrokToolLeaseLedger → GrokToolLeaseLedger → Prop :=
  Relation.ReflTransGen (LedgerChange permits)

section Guards

variable {A : Type} {l : GrokToolLeaseLedger} {Q : A → GrokToolLeaseLedger → Prop}
  {R : String → GrokToolLeaseLedger → Prop} {g : Unit → Ledgered A}

theorem active_then (hok : l.retired = false → Triple (fun w => w = l) (g ()) Q R) (herror : ∀ e, R e l) :
    Triple (fun w => w = l) (ToolLedger.active >>= g) Q R := by
  refine Triple.bind (Q := fun _ w => w = l ∧ l.retired = false) ?_ fun _ => Triple.of_pure hok
  refine Triple.read_then (Triple.ensure ?_ ?_)
  · rintro w rfl hactive
    exact ⟨rfl, hactive⟩
  · rintro w rfl -
    exact herror _

theorem expireUnbound_then {now : Nat} (hok : l.hasExpired now = false → Triple (fun w => w = l) (g ()) Q R)
    (herror : ∀ e, R e { l with retired := true }) :
    Triple (fun w => w = l) (ToolLedger.expireUnbound now >>= g) Q R := by
  refine Triple.bind (Q := fun _ w => w = l ∧ l.hasExpired now = false) ?_ fun _ => Triple.of_pure hok
  apply Triple.read_then
  cases hexpired : l.hasExpired now with
  | true =>
    rw [id_eq, hexpired, if_pos rfl]
    refine Triple.modify_then (Triple.fail ?_)
    rintro w rfl
    exact herror _
  | false =>
    rw [id_eq, hexpired, if_neg nofun]
    apply Triple.ret
    rintro w rfl
    exact ⟨rfl, rfl⟩

end Guards

section Calls

variable {codec : Codec} {permits : Permits} {l : GrokToolLeaseLedger} {update message : Json}
  {call turn : String} {lease : ToolLease}

/-- What a call leaves that fails: the ledger as it was, or one that is retired. -/
def Failed (permits : Permits) (l w : GrokToolLeaseLedger) : Prop :=
  LedgerChanges permits l w ∧ (w = l ∨ w.retired = true)

theorem Failed.same (permits : Permits) (l : GrokToolLeaseLedger) : Failed permits l l := ⟨.refl, .inl rfl⟩

theorem Failed.retired (permits : Permits) (l : GrokToolLeaseLedger) : Failed permits l { l with retired := true } :=
  ⟨.single .retired, .inr rfl⟩

theorem Failed.of_or {l w : GrokToolLeaseLedger} (h : w = l ∨ w = { l with retired := true }) :
    Failed permits l w := by
  cases h with
  | inl hsame => exact hsame ▸ Failed.same permits l
  | inr hretired => exact hretired ▸ Failed.retired permits l

def Between (permits : Permits) (l w : GrokToolLeaseLedger) : Prop := LedgerChanges permits l w ∧ w.events = l.events

theorem Between.refl (permits : Permits) (l : GrokToolLeaseLedger) : Between permits l l := ⟨.refl, rfl⟩

structure LeaseWritten (l : GrokToolLeaseLedger) (call : String) (before after : ToolLease) : Prop where
  stored : l.leases.get call = some before
  moves : LeaseMoves before after
  approved : after.approved = before.approved

theorem LeaseWritten.change (h : LeaseWritten l call lease after) : LedgerChange permits l (l.putLease call after) :=
  .moved call lease after h.stored h.moves fun happroved => .inl (h.approved ▸ happroved)

theorem LeaseWritten.between (h : LeaseWritten l call lease after) : Between permits l (l.putLease call after) :=
  ⟨.single h.change, rfl⟩

theorem registerCall_triple :
    Triple (fun w => w = l) (ToolLedger.registerCall codec update call turn) (fun _ w => Between permits l w)
      (fun _ w => w = l) := by
  refine Triple.read_then (Triple.ensure_then (fun _ => ?_) fun _ => rfl)
  refine Triple.ofResult_then (fun input _ => ?_) fun _ _ => rfl
  obtain ⟨name, inputHash⟩ := input
  dsimp only [id_eq]
  cases hstored : l.leases.get call with
  | some previous =>
    refine Triple.ensure ?_ ?_
    · rintro w rfl -
      exact Between.refl _ _
    · rintro w rfl -
      rfl
  | none =>
    refine Triple.ensure_then (fun _ => Triple.modify ?_) fun _ => rfl
    rintro w rfl
    exact ⟨.single (.registered call _ hstored rfl), rfl⟩

variable {missing : String}

theorem orError_then {A B : Type} {value : Option A} {a : A} (hvalue : value = some a)
    {g : A → Ledgered B} {Q : B → GrokToolLeaseLedger → Prop} {R : String → GrokToolLeaseLedger → Prop}
    (h : Triple (fun w => w = l) (g a) Q R) :
    Triple (fun w => w = l) (ofResult (orError value missing) >>= g) Q R := by
  rw [hvalue]
  refine Triple.ofResult_then (fun b hb => ?_) fun _ he => absurd he nofun
  rw [← Except.ok.inj hb]
  exact h

section

variable (hstored : l.leases.get call = some lease)
include hstored

theorem completeInput_triple : Triple (fun w => w = l) (ToolLedger.completeInput codec update call turn)
      (fun _ w => ∃ after, LeaseWritten l call lease after ∧ w = l.putLease call after) (fun _ w => w = l) := by
  refine Triple.read_then (Triple.ofResult_then (fun input _ => ?_) fun _ _ => rfl)
  obtain ⟨name, inputHash⟩ := input
  refine orError_then hstored (Triple.ensure_then (fun hsame => Triple.modify ?_) fun _ => rfl)
  rintro w rfl
  simp only [ToolLedger.inputChanged, Bool.or_eq_false_iff] at hsame
  obtain ⟨⟨⟨-, hinput⟩, -⟩, -⟩ := hsame
  refine ⟨_, ?_, rfl⟩
  refine ⟨hstored, ⟨rfl, rfl, rfl, ?_, ?_⟩, rfl⟩
  · intro hsome
    obtain ⟨previous, hprevious⟩ := Option.isSome_iff_exists.mp hsome
    rw [hprevious, Option.any_some, decide_eq_false_iff_not, not_not] at hinput
    rw [hprevious, hinput]
  · dsimp only
    split
    · rename_i hstreaming
      rw [hstreaming]
      exact Nat.zero_le 1
    · exact le_rfl

theorem completeCall_triple : Triple (fun w => w = l) (ToolLedger.completeCall call)
      (fun _ w => ∃ after, LeaseWritten l call lease after ∧ w = l.putLease call after) (fun _ _ => False) := by
  refine Triple.read_then (orError_then hstored (Triple.modify ?_))
  rintro w rfl
  refine ⟨_, ?_, rfl⟩
  refine ⟨hstored, ⟨rfl, rfl, rfl, fun _ => rfl, ?_⟩, rfl⟩
  dsimp only
  split
  · rename_i hbound
    rw [hbound]
  · cases lease.state <;> decide

theorem failCall_triple : Triple (fun w => w = l) (ToolLedger.failCall call)
      (fun _ w => ∃ after, LeaseWritten l call lease after ∧ w = l.putLease call after ∧
        lease.state = .replyWritten ∧ lease.replySuccess = some false)
      (fun _ w => w = { l with retired := true }) := by
  refine Triple.read_then (orError_then hstored ?_)
  split
  · rename_i hreported
    apply Triple.modify
    rintro w rfl
    refine ⟨_, ?_, rfl, hreported⟩
    refine ⟨hstored, ⟨rfl, rfl, rfl, fun _ => rfl, ?_⟩, rfl⟩
    rw [hreported.1]
    exact Nat.le_succ 3
  · refine Triple.modify_then (Triple.fail ?_)
    rintro w rfl
    rfl

end

theorem putLease_stored (l : GrokToolLeaseLedger) (call : String) (lease : ToolLease) :
    (l.putLease call lease).leases.get call = some lease := by
  rw [GrokToolLeaseLedger.putLease, AssocMap.get_insert, if_pos rfl]

theorem endCall_triple (permits : Permits) (hstored : l.leases.get call = some lease) :
    Triple (fun w => w = l) (do
        if update.index "status" = .string "completed" then ToolLedger.completeCall call
        else if update.index "status" = .string "failed" then ToolLedger.failCall call)
      (fun _ w => Between permits l w) (fun _ w => w = { l with retired := true }) := by
  split
  · refine Triple.of_imp (fun _ h => h) (completeCall_triple hstored) ?_ fun _ _ h => h.elim
    rintro _ w ⟨after, hwritten, rfl⟩
    exact hwritten.between
  · split
    · refine Triple.of_imp (fun _ h => h) (failCall_triple hstored) ?_ fun _ _ h => h
      rintro _ w ⟨after, hwritten, rfl, -⟩
      exact hwritten.between
    · apply Triple.ret
      rintro w rfl
      exact Between.refl _ _

theorem updateCall_triple :
    Triple (fun w => w = l) (ToolLedger.updateCall codec update call turn) (fun _ w => Between permits l w)
      (fun _ w => Failed permits l w) := by
  refine Triple.read_then (Triple.ofResult_then (fun previous hprevious => ?_) fun _ _ => Failed.same _ _)
  refine Triple.ensure_then (fun _ => ?_) fun _ => Failed.same _ _
  have hstored : l.leases.get call = some previous := by
    rw [id_eq] at hprevious
    cases hget : l.leases.get call with
    | none =>
      rw [hget] at hprevious
      exact absurd hprevious nofun
    | some found =>
      rw [hget] at hprevious
      rw [Except.ok.inj hprevious]
  have hrest : ∀ {m lease}, m.leases.get call = some lease → Between permits l m →
      Triple (fun w => w = m) (do
        if update.index "status" = .string "completed" then ToolLedger.completeCall call
        else if update.index "status" = .string "failed" then ToolLedger.failCall call)
      (fun _ w => Between permits l w) (fun _ w => Failed permits l w) := by
    intro m lease hlease hchanges
    refine Triple.of_imp (fun _ h => h) (endCall_triple permits hlease) ?_ ?_
    · exact fun _ w h => ⟨hchanges.1.trans h.1, h.2.trans hchanges.2⟩
    · rintro _ w rfl
      exact ⟨hchanges.1.tail .retired, .inr rfl⟩
  by_cases hinput : (update.get? "rawInput").isSome = true
  · rw [if_pos hinput]
    refine Triple.bind (Triple.of_imp (fun _ h => h) (completeInput_triple hstored) (fun _ _ h => h) ?_) fun _ => ?_
    · rintro _ w rfl
      exact Failed.same _ _
    · rintro m ⟨after, hwritten, rfl⟩
      exact hrest (putLease_stored _ _ _) hwritten.between _ rfl
  · rw [if_neg hinput]
    exact hrest hstored (Between.refl _ _)

theorem observeUpdate_triple :
    Triple (fun w => w = l) (ToolLedger.observeUpdate codec update call turn) (fun _ w => Between permits l w)
      (fun _ w => Failed permits l w) := by
  rw [ToolLedger.observeUpdate]
  split
  · refine Triple.of_imp (fun _ h => h) registerCall_triple (fun _ _ h => h) ?_
    rintro _ w rfl
    exact Failed.same _ _
  · split
    · exact updateCall_triple
    · apply Triple.fail
      rintro w rfl
      exact Failed.same _ _

def Observed (codec : Codec) (message : Json) (w : GrokToolLeaseLedger) : Prop :=
  ∃ turn event call frameHash, ToolLedger.frameIds message = .ok (turn, event, call) ∧
    fingerprint codec message = .ok frameHash ∧ w.events.get event = some frameHash

theorem observeNativeTool_triple (now : Nat) :
    Triple (fun w => w = l) (ToolLedger.observeNativeTool codec message now)
      (fun _ w => LedgerChanges permits l w ∧ Observed codec message w) (fun _ w => Failed permits l w) := by
  refine active_then (fun _ => ?_) fun _ => Failed.same _ _
  refine expireUnbound_then (fun _ => ?_) fun _ => Failed.retired _ _
  refine Triple.ofResult_then (fun ids hids => ?_) fun _ _ => Failed.same _ _
  obtain ⟨turn, event, call⟩ := ids
  refine Triple.read_then (Triple.ensure_then (fun _ => ?_) fun _ => Failed.same _ _)
  refine Triple.ofResult_then (fun frameHash hhash => ?_) fun _ _ => Failed.same _ _
  dsimp only [id_eq]
  cases hknown : l.events.get event with
  | some previous =>
    refine Triple.ensure ?_ ?_
    · rintro w rfl heq
      exact ⟨.refl, turn, event, call, frameHash, hids, hhash, heq ▸ hknown⟩
    · rintro w rfl -
      exact Failed.same _ _
  | none =>
    refine Triple.ensure_then (fun _ => ?_) fun _ => Failed.same _ _
    refine Triple.bind observeUpdate_triple fun _ => Triple.modify ?_
    rintro w ⟨hchanges, hevents⟩
    refine ⟨hchanges.tail (.event event frameHash (hevents ▸ hknown)), turn, event, call, frameHash, hids, hhash, ?_⟩
    rw [AssocMap.get_insert, if_pos rfl]

def PermitsCall (codec : Codec) (serverName : String) (message : Json) (call name : String) (inputHash : Fingerprint) :
    Prop :=
  let tool := (message.index "params").index "toolCall"
  (tool.index "toolCallId").asStr? = some call ∧
    nativeInput codec serverName (tool.index "rawInput") true = .ok (name, inputHash)

theorem eq_of_orError {A : Type} {value : Option A} {a : A}
    (h : orError value missing = .ok a) : value = some a := by
  cases value with
  | none => exact absurd h nofun
  | some b => rw [Except.ok.inj h]

theorem recordPermission_triple (now : Nat) (allowed : Bool)
    (hpermits : allowed = true → ∀ call name inputHash, PermitsCall codec l.serverName message call name inputHash →
      permits call name inputHash)
    (hdenied : ∀ approvalKey decision, l.approvals.get approvalKey = some decision → decision.2 = false →
      l.retired = true) :
    Triple (fun w => w = l) (ToolLedger.recordPermission codec message allowed now)
      (fun _ w => LedgerChanges permits l w ∧ w.retired = !allowed) (fun _ w => w = l ∨ w = { l with retired := true }) := by
  refine active_then (fun hactive => ?_) fun _ => .inl rfl
  refine expireUnbound_then (fun _ => ?_) fun _ => .inr rfl
  refine Triple.ofResult_then (fun call hcall => ?_) fun _ _ => .inl rfl
  refine Triple.ofResult_then (fun approvalKey _ => ?_) fun _ _ => .inl rfl
  refine Triple.ofResult_then (fun frameHash hhash => ?_) fun _ _ => .inl rfl
  apply Triple.read_then
  dsimp only [id_eq]
  cases hknown : l.approvals.get approvalKey with
  | some previous =>
    refine Triple.ensure ?_ ?_
    · rintro w rfl ⟨-, hdecision⟩
      refine ⟨.refl, ?_⟩
      rw [hactive, ← hdecision]
      cases hanswer : previous.2 with
      | true => rfl
      | false => exact absurd (hdenied _ _ hknown hanswer) (by rw [hactive]; nofun)
    · rintro w rfl -
      exact .inl rfl
  | none =>
    refine Triple.ofResult_then (fun input hinput => ?_) fun _ _ => .inl rfl
    obtain ⟨name, inputHash⟩ := input
    refine Triple.ofResult_then (fun lease hlease => ?_) fun _ _ => .inl rfl
    refine Triple.ensure_then (fun hforeign => ?_) fun _ => .inl rfl
    refine Triple.ensure_then (fun _ => ?_) fun _ => .inl rfl
    simp only [GrokToolLeaseLedger.foreignPermission, Bool.or_eq_false_iff, decide_eq_false_iff_not, ne_eq, not_not]
      at hforeign
    obtain ⟨⟨⟨⟨-, hname⟩, hinputHash⟩, -⟩, -⟩ := hforeign
    have hchange : LedgerChange permits l (l.putLease call { lease with
        approved := allowed, expires := if allowed then some (now + leaseDuration) else none }) := by
      refine .moved call lease _ (eq_of_orError hlease) ⟨rfl, rfl, rfl, fun _ => rfl, le_rfl⟩ ?_
      intro happroved
      refine .inr ⟨inputHash, hinputHash, hpermits happroved _ _ _ ⟨eq_of_orError hcall, ?_⟩⟩
      rw [hinput, hname]
    have happroval : LedgerChanges permits l { l.putLease call { lease with
        approved := allowed, expires := if allowed then some (now + leaseDuration) else none } with
        approvals := l.approvals.insert approvalKey (frameHash, allowed), retired := l.retired || !allowed } :=
      Relation.ReflTransGen.tail (.single hchange) (.approval approvalKey (frameHash, allowed) hknown)
    refine Triple.modify_then (Triple.modify_then ?_)
    rw [hactive, Bool.false_or] at happroval
    cases allowed with
    | true =>
      apply Triple.ret
      rintro w rfl
      refine ⟨?_, hactive⟩
      change LedgerChanges permits l { l.putLease call _ with approvals := _, retired := l.retired }
      rw [hactive]
      exact happroval
    | false =>
      apply Triple.modify
      rintro w rfl
      exact ⟨happroval, rfl⟩

theorem beginTurn_triple (runtimeGeneration : Uuid) (turnId : String) :
    Triple (fun w => w = l) (ToolLedger.beginTurn runtimeGeneration turnId) (fun _ w => LedgerChanges permits l w)
      (fun _ w => Failed permits l w) := by
  refine active_then (fun _ => ?_) fun _ => Failed.same _ _
  refine Triple.ofResult_then (fun _ _ => ?_) fun _ _ => Failed.same _ _
  apply Triple.read_then
  split
  · refine Triple.ensure ?_ ?_
    · rintro w rfl -
      exact .refl
    · rintro w rfl -
      exact Failed.same _ _
  · rename_i hopen
    refine Triple.ensure_then (fun _ => Triple.modify ?_) fun _ => Failed.same _ _
    rintro w rfl
    exact .single (.turn runtimeGeneration turnId hopen)

theorem verifyBound_triple (proof : VerifiedGrokToolLease) (serverId : String) (mcpId : Json) :
    Triple (fun w => w = l) (ToolLedger.verifyBound proof serverId mcpId)
      (fun _ w => w = l ∧ ∃ binding, l.inner.get proof.innerKey = some binding ∧ binding.lease = proof)
      (fun _ w => w = l) := by
  refine active_then (fun _ => ?_) fun _ => rfl
  refine Triple.read_then (Triple.ensure_then (fun _ => ?_) fun _ => rfl)
  refine Triple.ofResult_then (fun _ _ => Triple.ensure ?_ ?_) fun _ _ => rfl
  · rintro w rfl ⟨-, hbound⟩
    rw [id_eq] at hbound
    cases hbinding : w.inner.get proof.innerKey with
    | none =>
      rw [hbinding] at hbound
      exact absurd hbound nofun
    | some binding =>
      rw [hbinding, Option.any_some, decide_eq_true_iff] at hbound
      exact ⟨rfl, binding, rfl, hbound⟩
  · rintro w rfl -
    rfl

theorem recordReplyWritten_triple (proof : VerifiedGrokToolLease) (success : Bool) :
    Triple (fun w => w = l) (ToolLedger.recordReplyWritten codec proof success)
      (fun _ w => LedgerChanges permits l w) (fun _ w => Failed permits l w) := by
  refine active_then (fun _ => ?_) fun _ => Failed.same _ _
  refine Triple.ofResult_then (fun _ _ => Triple.read_then ?_) fun _ _ => Failed.same _ _
  refine Triple.bind (Triple.of_imp (fun _ h => h) (verifyBound_triple proof _ _) (fun _ _ h => h) ?_) fun _ => ?_
  · rintro _ w rfl
    exact Failed.same _ _
  · refine Triple.of_imp (fun _ h => h.1) ?_ (fun _ _ h => h) fun _ _ h => h
    refine Triple.ofResult_then (fun lease hlease => ?_) fun _ _ => Failed.same _ _
    refine Triple.ensure_then (fun _ => ?_) fun _ => Failed.same _ _
    refine Triple.ensure_then (fun _ => Triple.modify ?_) fun _ => Failed.same _ _
    rintro w rfl
    refine .single (.moved _ lease _ (eq_of_orError hlease) ⟨rfl, rfl, rfl, fun _ => rfl, ?_⟩ fun h => .inl h)
    dsimp only
    split
    · rename_i hbound
      rw [hbound]
      split <;> decide
    · exact le_rfl

/-- A binding that a call is answered with: one that is there, or one to the only lease that waits for it. -/
inductive Bound (codec : Codec) (message : Json) (l : GrokToolLeaseLedger) :
    VerifiedGrokToolLease → GrokToolLeaseLedger → Prop
  | known (outer inner binding w) (hids : ToolLedger.callIds codec message = .ok (outer, inner))
      (hbinding : l.inner.get inner.1 = some binding) (hsame : binding.fingerprint = inner.2)
      (hinner : w.inner = l.inner) (hregistered : w.outer.get outer.1 = some (outer.2, inner.1)) :
      Bound codec message l binding.lease w
  | new (outer inner tool inputHash call lease w) (hids : ToolLedger.callIds codec message = .ok (outer, inner))
      (hnew : l.inner.get inner.1 = none)
      (htool : ((((message.index "params").index "message").index "params").index "name").asStr? = some tool)
      (hinput : inputFingerprint codec (l.serverName ++ "__" ++ tool)
        ((((message.index "params").index "message").index "params").index "arguments") = .ok inputHash)
      (honly : l.candidates (l.serverName ++ "__" ++ tool) inputHash = [(call, lease)])
      (hinner : w.inner = l.inner.insert inner.1 ⟨inner.2, l.proofFor call lease inner.1⟩)
      (hregistered : w.outer.get outer.1 = some (outer.2, inner.1)) :
      Bound codec message l (l.proofFor call lease inner.1) w

variable {qualifiedName : String} {inputHash : Fingerprint}

theorem candidate_of_mem (h : (call, lease) ∈ l.candidates qualifiedName inputHash) :
    l.leases.get call = some lease ∧ l.awaits qualifiedName inputHash lease = true := by
  obtain ⟨hmem, hawaits⟩ := List.mem_filter.mp h
  exact ⟨AssocMap.get_eq_some_iff.mpr hmem, hawaits⟩

theorem state_of_awaits
    (h : l.awaits qualifiedName inputHash lease = true) : lease.state = .ready ∧ lease.approved = true ∧
      lease.runtimeGeneration = l.runtimeGeneration ∧ lease.qualifiedName = qualifiedName ∧
      lease.finalFingerprint = some inputHash ∧ lease.nativeCompleted = false := by
  simp only [GrokToolLeaseLedger.awaits, Bool.and_eq_true, decide_eq_true_eq, Bool.not_eq_true'] at h
  obtain ⟨⟨⟨⟨⟨hgeneration, hready⟩, happroved⟩, hrunning⟩, hname⟩, hinput⟩ := h
  exact ⟨hready, happroved, hgeneration, hname, hinput, hrunning⟩

theorem registerOuter_triple (permits : Permits) (outer : String × Fingerprint) {innerKey : String}
    (hbound : (l.inner.get innerKey).isSome = true)
    (houter : (l.outer.get outer.1).all (fun previous => previous.1 = outer.2 && previous.2 = innerKey) = true) :
    Triple (fun w => w = l) (ToolLedger.registerOuter outer innerKey)
      (fun _ w => LedgerChanges permits l w ∧ w.inner = l.inner ∧ w.outer.get outer.1 = some (outer.2, innerKey))
      (fun _ w => w = l) := by
  apply Triple.read_then
  rw [id_eq, AssocMap.contains]
  cases hknown : l.outer.get outer.1 with
  | some previous =>
    apply Triple.ret
    rintro w rfl
    rw [hknown, Option.all_some, Bool.and_eq_true, decide_eq_true_iff, decide_eq_true_iff] at houter
    exact ⟨.refl, rfl, hknown.trans (congrArg some (Prod.ext houter.1 houter.2))⟩
  | none =>
    refine Triple.ensure_then (fun _ => Triple.modify ?_) fun _ => rfl
    rintro w rfl
    refine ⟨.single (.outer outer.1 outer.2 innerKey hbound hknown), rfl, ?_⟩
    rw [AssocMap.get_insert, if_pos rfl]

theorem bindNew_triple (outer inner : String × Fingerprint)
    (hids : ToolLedger.callIds codec message = .ok (outer, inner)) (hnew : l.inner.get inner.1 = none)
    (houter : (l.outer.get outer.1).all (·.2 = inner.1) = true) :
    Triple (fun w => w = l)
      (ToolLedger.bindNew codec (((message.index "params").index "message").index "params") outer inner)
      (fun proof w => LedgerChanges permits l w ∧ Bound codec message l proof w) (fun _ w => Failed permits l w) := by
  refine Triple.read_then (Triple.ensure_then (fun _ => ?_) fun _ => Failed.same _ _)
  refine Triple.ofResult_then (fun tool htool => ?_) fun _ _ => Failed.same _ _
  refine Triple.ofResult_then (fun _ _ => ?_) fun _ _ => Failed.same _ _
  refine Triple.ofResult_then (fun inputHash hinput => ?_) fun _ _ => Failed.same _ _
  dsimp only [id_eq] at hinput ⊢
  split
  · rename_i call lease honly
    obtain ⟨hstored, hawaits⟩ := candidate_of_mem (honly ▸ List.mem_singleton_self (call, lease))
    refine Triple.modify_then (Triple.modify_then (Triple.ret ?_))
    rintro w rfl
    refine ⟨.single ?_, .new outer inner tool inputHash call lease _ hids hnew (eq_of_orError htool) hinput honly rfl ?_⟩
    · exact .bound call lease inner.1 inner.2 outer.1 outer.2 hnew houter hstored (state_of_awaits hawaits).1
    · rw [AssocMap.get_insert, if_pos rfl]
  · apply Triple.fail
    rintro w rfl
    exact Failed.same _ _
  · refine Triple.modify_then (Triple.fail ?_)
    rintro w rfl
    exact Failed.retired _ _

theorem bindSdk_triple (now : Nat) :
    Triple (fun w => w = l) (ToolLedger.bindSdk codec message now)
      (fun proof w => LedgerChanges permits l w ∧ Bound codec message l proof w ∧ l.foreignCall message = false)
      (fun _ w => Failed permits l w) := by
  refine active_then (fun _ => ?_) fun _ => Failed.same _ _
  refine expireUnbound_then (fun _ => ?_) fun _ => Failed.retired _ _
  refine Triple.read_then (Triple.ensure_then (fun hforeign => ?_) fun _ => Failed.same _ _)
  refine Triple.ofResult_then (fun ids hids => ?_) fun _ _ => Failed.same _ _
  obtain ⟨outer, inner⟩ := ids
  refine Triple.ensure_then (fun houter => ?_) fun _ => Failed.same _ _
  dsimp only [id_eq] at houter ⊢
  cases hknown : l.inner.get inner.1 with
  | some binding =>
    refine Triple.ensure_then (fun hsame => ?_) fun _ => Failed.same _ _
    refine Triple.bind (Triple.of_imp (fun _ h => h) (registerOuter_triple permits outer (hknown ▸ rfl) houter)
      (fun _ _ h => h) ?_) fun _ => Triple.ret ?_
    · rintro _ w rfl
      exact Failed.same _ _
    · rintro w ⟨hchanges, hinner, hregistered⟩
      exact ⟨hchanges, .known outer inner binding w hids hknown hsame hinner hregistered, hforeign⟩
  | none =>
    refine Triple.of_imp (fun _ h => h) (bindNew_triple outer inner hids hknown ?_)
      (fun _ _ h => ⟨h.1, h.2, hforeign⟩) fun _ _ h => h
    cases hprevious : l.outer.get outer.1 with
    | none => rfl
    | some previous =>
      rw [hprevious, Option.all_some, Bool.and_eq_true] at houter
      rw [Option.all_some]
      exact houter.2

end Calls

end InfiniShell.AgentRuntime
