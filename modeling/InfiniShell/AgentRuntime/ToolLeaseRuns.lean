import InfiniShell.AgentRuntime.ToolLeaseChanges

namespace InfiniShell.AgentRuntime

open Collections Effects Effects.Program
open LocalCli (Json)
open RuntimeHost (Uuid)

structure Grows (l w : GrokToolLeaseLedger) : Prop where
  processEpoch : w.processEpoch = l.processEpoch
  serverId : w.serverId = l.serverId
  serverName : w.serverName = l.serverName
  retired : l.retired = true → w.retired = true
  leases : ∀ call lease, l.leases.get call = some lease →
    ∃ lease', w.leases.get call = some lease' ∧ LeaseMoves lease lease'
  events : ∀ event frameHash, l.events.get event = some frameHash → w.events.get event = some frameHash
  inner : ∀ innerKey binding, l.inner.get innerKey = some binding → w.inner.get innerKey = some binding
  outer : ∀ outerKey entry, l.outer.get outerKey = some entry → w.outer.get outerKey = some entry

theorem Grows.refl (l : GrokToolLeaseLedger) : Grows l l :=
  ⟨rfl, rfl, rfl, id, fun _ lease h => ⟨lease, h, LeaseMoves.refl lease⟩, fun _ _ => id, fun _ _ => id, fun _ _ => id⟩

theorem Grows.trans {a b c : GrokToolLeaseLedger} (h : Grows a b) (h' : Grows b c) : Grows a c where
  processEpoch := h'.processEpoch.trans h.processEpoch
  serverId := h'.serverId.trans h.serverId
  serverName := h'.serverName.trans h.serverName
  retired := fun hretired => h'.retired (h.retired hretired)
  leases := by
    intro call lease hlease
    obtain ⟨middle, hmiddle, hmoves⟩ := h.leases call lease hlease
    obtain ⟨last, hlast, hmoves'⟩ := h'.leases call middle hmiddle
    exact ⟨last, hlast, hmoves.trans hmoves'⟩
  events := fun event frameHash hevent => h'.events _ _ (h.events event frameHash hevent)
  inner := fun innerKey binding hinner => h'.inner _ _ (h.inner innerKey binding hinner)
  outer := fun outerKey entry houter => h'.outer _ _ (h.outer outerKey entry houter)

structure LedgerSound (permits : Permits) (l : GrokToolLeaseLedger) : Prop where
  approved : ∀ call lease, l.leases.get call = some lease → lease.approved = true →
    ∃ inputHash, lease.finalFingerprint = some inputHash ∧ permits call lease.qualifiedName inputHash
  bound : ∀ innerKey binding, l.inner.get innerKey = some binding → binding.lease.innerKey = innerKey ∧
    ∃ lease, l.leases.get binding.lease.nativeCallId = some lease ∧ GrokToolLeaseState.bound.stage ≤ lease.state.stage
  single : ∀ first second a b, l.inner.get first = some a → l.inner.get second = some b →
    a.lease.nativeCallId = b.lease.nativeCallId → first = second
  outer : ∀ outerKey entry, l.outer.get outerKey = some entry → (l.inner.get entry.2).isSome = true
  denied : ∀ approvalKey decision, l.approvals.get approvalKey = some decision → decision.2 = false → l.retired = true

section Steps

variable {permits : Permits} {l w : GrokToolLeaseLedger}

theorem outer_none (h : LedgerSound permits l) {outerKey innerKey : String}
    (houter : (l.outer.get outerKey).all (·.2 = innerKey) = true) (hnew : l.inner.get innerKey = none) :
    l.outer.get outerKey = none := by
  cases hentry : l.outer.get outerKey with
  | none => rfl
  | some entry =>
    have hsome := h.outer outerKey entry hentry
    rw [hentry, Option.all_some, decide_eq_true_iff] at houter
    rw [houter, hnew] at hsome
    exact absurd hsome nofun

variable {call : String} {lease : ToolLease}

theorem grows_putLease
    (h : ∀ before, l.leases.get call = some before → LeaseMoves before lease) : Grows l (l.putLease call lease) := by
  refine ⟨rfl, rfl, rfl, id, ?_, fun _ _ => id, fun _ _ => id, fun _ _ => id⟩
  intro other before hbefore
  rw [GrokToolLeaseLedger.putLease, AssocMap.get_insert]
  split
  · rename_i heq
    exact ⟨lease, rfl, h before (heq ▸ hbefore)⟩
  · exact ⟨before, hbefore, LeaseMoves.refl before⟩

theorem leaseMoves_bound (hready : lease.state = .ready) :
    LeaseMoves lease { lease with state := .bound } := by
  refine ⟨rfl, rfl, rfl, fun _ => rfl, ?_⟩
  rw [hready]
  exact Nat.le_succ 1

theorem LedgerChange.grows (h : LedgerChange permits l w) (hsound : LedgerSound permits l) : Grows l w := by
  cases h with
  | retired => exact ⟨rfl, rfl, rfl, fun _ => rfl, (Grows.refl l).leases, fun _ _ => id, fun _ _ => id, fun _ _ => id⟩
  | turn => exact ⟨rfl, rfl, rfl, id, (Grows.refl l).leases, fun _ _ => id, fun _ _ => id, fun _ _ => id⟩
  | registered call lease hnew =>
    refine grows_putLease fun before hbefore => ?_
    exact absurd (hnew.symm.trans hbefore) nofun
  | moved call before after hstored hmoves =>
    refine grows_putLease fun other hother => ?_
    obtain rfl := Option.some.inj (hstored.symm.trans hother)
    exact hmoves
  | event event frameHash hnew =>
    exact ⟨rfl, rfl, rfl, id, (Grows.refl l).leases, fun _ _ => AssocMap.get_insert_of_new hnew, fun _ _ => id, fun _ _ => id⟩
  | approval approvalKey decision hnew =>
    refine ⟨rfl, rfl, rfl, ?_, (Grows.refl l).leases, fun _ _ => id, fun _ _ => id, fun _ _ => id⟩
    intro hretired
    change (l.retired || !decision.2) = true
    rw [hretired, Bool.true_or]
  | outer outerKey outerHash innerKey hbound hnew =>
    exact ⟨rfl, rfl, rfl, id, (Grows.refl l).leases, fun _ _ => id, fun _ _ => id, fun _ _ => AssocMap.get_insert_of_new hnew⟩
  | bound call lease innerKey innerHash outerKey outerHash hnew houter hstored hready =>
    have hput : Grows l (l.putLease call { lease with state := .bound }) := by
      refine grows_putLease fun other hother => ?_
      obtain rfl := Option.some.inj (hstored.symm.trans hother)
      exact leaseMoves_bound hready
    exact ⟨rfl, rfl, rfl, id, hput.leases, fun _ _ => id, fun _ _ => AssocMap.get_insert_of_new hnew,
      fun _ _ => AssocMap.get_insert_of_new (outer_none hsound houter hnew)⟩

theorem LeaseMoves.approvedInput {before after : ToolLease} (h : LeaseMoves before after)
    (hbefore : ∃ inputHash, before.finalFingerprint = some inputHash ∧ permits call before.qualifiedName inputHash) :
    ∃ inputHash, after.finalFingerprint = some inputHash ∧ permits call after.qualifiedName inputHash := by
  obtain ⟨inputHash, hinput, hpermits⟩ := hbefore
  refine ⟨inputHash, (h.input (hinput ▸ rfl)).trans hinput, ?_⟩
  rw [h.qualifiedName]
  exact hpermits

theorem LedgerSound.put (hsound : LedgerSound permits l) (hgrows : Grows l (l.putLease call lease))
    (happroved : lease.approved = true → ∃ inputHash, lease.finalFingerprint = some inputHash ∧
      permits call lease.qualifiedName inputHash) : LedgerSound permits (l.putLease call lease) := by
  refine ⟨?_, ?_, hsound.single, hsound.outer, hsound.denied⟩
  · intro other found hfound
    rw [GrokToolLeaseLedger.putLease, AssocMap.get_insert] at hfound
    split at hfound
    · rename_i heq
      rw [← Option.some.inj hfound, heq]
      exact happroved
    · exact hsound.approved other found hfound
  · intro innerKey binding hbinding
    obtain ⟨hkey, before, hbefore, hstage⟩ := hsound.bound innerKey binding hbinding
    obtain ⟨after, hafter, hmoves⟩ := hgrows.leases _ _ hbefore
    exact ⟨hkey, after, hafter, hstage.trans hmoves.stage⟩

theorem LedgerChange.sound (h : LedgerChange permits l w) (hsound : LedgerSound permits l) : LedgerSound permits w := by
  have hgrows := h.grows hsound
  cases h with
  | retired => exact ⟨hsound.approved, hsound.bound, hsound.single, hsound.outer, fun _ _ _ _ => rfl⟩
  | turn => exact ⟨hsound.approved, hsound.bound, hsound.single, hsound.outer, hsound.denied⟩
  | registered call lease hnew happroved =>
    refine hsound.put hgrows fun hyes => ?_
    rw [happroved] at hyes
    exact absurd hyes nofun
  | moved call before after hstored hmoves happrovable =>
    refine hsound.put hgrows fun hyes => ?_
    cases happrovable hyes with
    | inl hbefore => exact hmoves.approvedInput (hsound.approved call before hstored hbefore)
    | inr hpermitted => exact hpermitted
  | event => exact ⟨hsound.approved, hsound.bound, hsound.single, hsound.outer, hsound.denied⟩
  | approval approvalKey decision hnew =>
    refine ⟨hsound.approved, hsound.bound, hsound.single, hsound.outer, ?_⟩
    intro other found hfound hno
    rw [AssocMap.get_insert] at hfound
    change (l.retired || !decision.2) = true
    split at hfound
    · rw [Option.some.inj hfound, hno]
      exact Bool.or_true _
    · rw [hsound.denied other found hfound hno, Bool.true_or]
  | outer outerKey outerHash innerKey hbound hnew =>
    refine ⟨hsound.approved, hsound.bound, hsound.single, ?_, hsound.denied⟩
    intro other entry hentry
    rw [AssocMap.get_insert] at hentry
    split at hentry
    · rw [← Option.some.inj hentry]
      exact hbound
    · exact hsound.outer other entry hentry
  | bound call lease innerKey innerHash outerKey outerHash hnew houter hstored hready =>
    have hput : LedgerSound permits (l.putLease call { lease with state := .bound }) := by
      refine hsound.put ⟨rfl, rfl, rfl, id, hgrows.leases, fun _ _ => id, fun _ _ => id, fun _ _ => id⟩ fun hyes => ?_
      exact (leaseMoves_bound hready).approvedInput (hsound.approved call lease hstored hyes)
    -- the lease was ready, so nothing was bound to it
    have hfree : ∀ other binding, l.inner.get other = some binding → binding.lease.nativeCallId ≠ call := by
      intro other binding hbinding heq
      obtain ⟨-, found, hfound, hstage⟩ := hsound.bound other binding hbinding
      rw [heq, hstored] at hfound
      rw [← Option.some.inj hfound, hready] at hstage
      exact absurd hstage (Nat.not_succ_le_self 1)
    refine ⟨hput.approved, ?_, ?_, ?_, hsound.denied⟩
    · intro other binding hbinding
      rw [AssocMap.get_insert] at hbinding
      split at hbinding
      · rename_i heq
        rw [← Option.some.inj hbinding]
        refine ⟨heq.symm, _, putLease_stored l call _, le_rfl⟩
      · exact hput.bound other binding hbinding
    · intro first second a b ha hb hsame
      rw [AssocMap.get_insert] at ha hb
      split at ha
      · split at hb
        · rename_i hfirst hsecond
          exact hfirst.trans hsecond.symm
        · rw [← Option.some.inj ha] at hsame
          exact absurd hsame.symm (hfree second b hb)
      · split at hb
        · rw [← Option.some.inj hb] at hsame
          exact absurd hsame (hfree first a ha)
        · exact hsound.single first second a b ha hb hsame
    · intro other entry hentry
      rw [AssocMap.get_insert] at hentry
      rw [AssocMap.get_insert]
      split at hentry
      · rw [← Option.some.inj hentry, if_pos rfl]
        rfl
      · split
        · rfl
        · exact hsound.outer other entry hentry

theorem LedgerChanges.sound (h : LedgerChanges permits l w) (hsound : LedgerSound permits l) :
    LedgerSound permits w ∧ Grows l w := by
  induction h with
  | refl => exact ⟨hsound, Grows.refl l⟩
  | tail _ hchange ih => exact ⟨hchange.sound ih.1, ih.2.trans (hchange.grows ih.1)⟩

theorem LedgerSound.mono {permits' : Permits} (hsound : LedgerSound permits l)
    (h : ∀ call name inputHash, permits call name inputHash → permits' call name inputHash) : LedgerSound permits' l := by
  refine ⟨?_, hsound.bound, hsound.single, hsound.outer, hsound.denied⟩
  intro call lease hlease happroved
  obtain ⟨inputHash, hinput, hpermits⟩ := hsound.approved call lease hlease happroved
  exact ⟨inputHash, hinput, h _ _ _ hpermits⟩

theorem LedgerSound.fresh (permits : Permits) (processEpoch runtimeGeneration : Uuid)
    (serverId serverName nativeSessionId : String) :
    LedgerSound permits (.fresh processEpoch runtimeGeneration serverId serverName nativeSessionId) where
  approved := fun _ _ h => absurd h nofun
  bound := fun _ _ h => absurd h nofun
  single := fun _ _ _ _ h => absurd h nofun
  outer := fun _ _ h => absurd h nofun
  denied := fun _ _ h => absurd h nofun

end Steps

/-- A permission for a native call with this name and this input was among the calls, and it passed. -/
def Granted (codec : Codec) (start : GrokToolLeaseLedger) (calls : List LedgerCall) : Permits :=
  fun call name inputHash => ∃ earlier message now rest,
    calls = earlier ++ .recordPermission message true now :: rest ∧
    ((LedgerCall.recordPermission message true now).run codec (runCalls codec earlier start)).1 = .ok none ∧
    PermitsCall codec start.serverName message call name inputHash

def LedgerCall.clock : LedgerCall → Option Nat
  | .observeNativeTool _ now => some now
  | .recordPermission _ _ now => some now
  | .bindSdk _ now => some now
  | _ => none

/-- Everything is permitted: for what does not depend on permissions. -/
abbrev anything : Permits := fun _ _ _ => True

section Runs

variable {codec : Codec} {permits : Permits} {l : GrokToolLeaseLedger}

theorem run_triple (hsound : LedgerSound permits l) (ledgerCall : LedgerCall)
    (hpermits : ∀ message now, ledgerCall = .recordPermission message true now →
      ∀ call name inputHash, PermitsCall codec l.serverName message call name inputHash → permits call name inputHash) :
    Triple (fun w => w = l) (ledgerCall.run codec) (fun _ w => LedgerChanges permits l w)
      (fun _ w => Failed permits l w) := by
  cases ledgerCall with
  | beginTurn runtimeGeneration turnId =>
    exact Triple.bind (beginTurn_triple runtimeGeneration turnId) fun _ => Triple.ret fun _ h => h
  | observeNativeTool message now =>
    exact Triple.bind (observeNativeTool_triple now) fun _ => Triple.ret fun _ h => h.1
  | recordPermission message allowed now =>
    refine Triple.bind (Triple.of_imp (fun _ h => h) (recordPermission_triple now allowed ?_ hsound.denied)
      (fun _ _ h => h) fun _ w h => Failed.of_or h) fun _ => Triple.ret fun _ h => h.1
    rintro rfl
    exact hpermits message now rfl
  | bindSdk message now => exact Triple.bind (bindSdk_triple now) fun _ => Triple.ret fun _ h => h.1
  | verifyBound proof serverId mcpId =>
    refine Triple.bind (Triple.of_imp (fun _ h => h) (verifyBound_triple proof serverId mcpId) (fun _ _ h => h) ?_)
      fun _ => Triple.ret ?_
    · rintro _ w rfl
      exact Failed.same _ _
    · rintro w ⟨rfl, -⟩
      exact .refl
  | recordReplyWritten proof success =>
    exact Triple.bind (recordReplyWritten_triple proof success) fun _ => Triple.ret fun _ h => h
  | retire =>
    refine Triple.modify_then (Triple.ret ?_)
    rintro w rfl
    exact .single .retired

theorem run_changes (hsound : LedgerSound permits l) (ledgerCall : LedgerCall)
    (hpermits : ∀ message now, ledgerCall = .recordPermission message true now → (ledgerCall.run codec l).1 = .ok none →
      ∀ call name inputHash, PermitsCall codec l.serverName message call name inputHash → permits call name inputHash) :
    LedgerChanges permits l (ledgerCall.run codec l).2 := by
  by_cases hgranted : ∃ message now, ledgerCall = .recordPermission message true now ∧ (ledgerCall.run codec l).1 ≠ .ok none
  · -- a permission that does not pass gives none
    obtain ⟨message, now, rfl, hnot⟩ := hgranted
    have htriple : Triple (fun w => w = l) ((LedgerCall.recordPermission message true now).run codec)
        (fun answer _ => answer = none) (fun _ w => Failed permits l w) := by
      have hpermission : Triple (fun w => w = l) (ToolLedger.recordPermission codec message true now)
          (fun _ w => LedgerChanges anything l w ∧ w.retired = !true) (fun _ w => w = l ∨ w = { l with retired := true }) :=
        recordPermission_triple now true (fun _ _ _ _ _ => trivial) hsound.denied
      refine Triple.bind (Triple.of_imp (fun _ h => h) hpermission (fun _ _ h => h) fun _ _ h => Failed.of_or h) fun _ => ?_
      exact Triple.ret fun _ _ => rfl
    obtain ⟨hok, herror⟩ := htriple l rfl
    cases hrun : (LedgerCall.recordPermission message true now).run codec l with
    | mk result w =>
      cases result with
      | ok answer => exact absurd (by rw [hrun, hok answer w hrun]) hnot
      | error e => exact (herror e w hrun).1
  · refine Triple.world (Triple.of_imp (fun _ h => h) (run_triple hsound ledgerCall ?_) (fun _ _ h => h)
      fun _ _ h => h.1) rfl
    intro message now hcall
    refine hpermits message now hcall (by_contra fun hnot => hgranted ⟨message, now, hcall, hnot⟩)

theorem runCalls_append (first second : List LedgerCall) (l : GrokToolLeaseLedger) :
    runCalls codec (first ++ second) l = runCalls codec second (runCalls codec first l) := by
  induction first generalizing l with
  | nil => rfl
  | cons ledgerCall calls ih => exact ih _

theorem Granted.append {calls : List LedgerCall} {call name : String} {inputHash : Fingerprint}
    (h : Granted codec l calls call name inputHash) (rest : List LedgerCall) :
    Granted codec l (calls ++ rest) call name inputHash := by
  obtain ⟨earlier, message, now, between, rfl, hok, hpermits⟩ := h
  refine ⟨earlier, message, now, between ++ rest, ?_, hok, hpermits⟩
  rw [List.append_assoc, List.cons_append]

variable {l : GrokToolLeaseLedger}

theorem runCalls_sound (codec : Codec) (calls : List LedgerCall) (hsound : LedgerSound (Granted codec l []) l) :
    LedgerSound (Granted codec l calls) (runCalls codec calls l) ∧ Grows l (runCalls codec calls l) := by
  induction calls using List.reverseRecOn with
  | nil => exact ⟨hsound, Grows.refl l⟩
  | append_singleton calls ledgerCall ih =>
    obtain ⟨hbefore, hgrows⟩ := ih
    have hchanges : LedgerChanges (Granted codec l (calls ++ [ledgerCall])) (runCalls codec calls l)
        (ledgerCall.run codec (runCalls codec calls l)).2 := by
      refine run_changes (hbefore.mono fun _ _ _ h => h.append _) ledgerCall ?_
      rintro message now rfl hok call name inputHash hpermits
      exact ⟨calls, message, now, [], rfl, hok, hgrows.serverName ▸ hpermits⟩
    obtain ⟨hlast, hgrows'⟩ := hchanges.sound (hbefore.mono fun _ _ _ h => h.append _)
    rw [runCalls_append]
    exact ⟨hlast, hgrows.trans hgrows'⟩

theorem runCalls_grows (codec : Codec) (calls : List LedgerCall) (hsound : LedgerSound anything l) :
    LedgerSound anything (runCalls codec calls l) ∧ Grows l (runCalls codec calls l) := by
  induction calls generalizing l with
  | nil => exact ⟨hsound, Grows.refl l⟩
  | cons ledgerCall calls ih =>
    obtain ⟨hnext, hgrows⟩ := (run_changes hsound ledgerCall fun _ _ _ _ _ _ _ _ => trivial).sound hsound
    obtain ⟨hlast, hgrows'⟩ := ih hnext
    exact ⟨hlast, hgrows.trans hgrows'⟩

theorem run_retired (codec : Codec) (hretired : l.retired = true) {ledgerCall : LedgerCall} (hcall : ledgerCall ≠ .retire) :
    Triple (fun w => w = l) (ledgerCall.run codec) (fun _ _ => False) (fun _ w => w = l) := by
  have hactive : ∀ {A : Type} (g : Unit → Ledgered A),
      Triple (fun w => w = l) (ToolLedger.active >>= g) (fun _ _ => False) (fun _ w => w = l) := by
    intro A g
    refine active_then (fun h => ?_) fun _ => rfl
    exact absurd (hretired.symm.trans h) nofun
  cases ledgerCall with
  | beginTurn => exact Triple.bind (hactive _) fun _ _ h => h.elim
  | observeNativeTool => exact Triple.bind (hactive _) fun _ _ h => h.elim
  | recordPermission => exact Triple.bind (hactive _) fun _ _ h => h.elim
  | bindSdk => exact Triple.bind (hactive _) fun _ _ h => h.elim
  | verifyBound => exact Triple.bind (hactive _) fun _ _ h => h.elim
  | recordReplyWritten => exact Triple.bind (hactive _) fun _ _ h => h.elim
  | retire => exact absurd rfl hcall

theorem error_of_triple {A : Type} {p : Ledgered A} {R : String → GrokToolLeaseLedger → Prop}
    (h : Triple (fun w => w = l) p (fun _ _ => False) R) : ∃ e, (p l).1 = .error e ∧ R e (p l).2 := by
  obtain ⟨hok, herror⟩ := h l rfl
  cases hrun : p l with
  | mk result w =>
    cases result with
    | ok a => exact (hok a w hrun).elim
    | error e => exact ⟨e, rfl, herror e w hrun⟩

end Runs

end InfiniShell.AgentRuntime
