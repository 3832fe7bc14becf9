import InfiniShell.LocalCli.GrokInputs
import InfiniShell.LocalCli.TaskLedger

namespace InfiniShell.LocalCli.GrokTerminal

open Collections Effects Effects.Program

section Handlers

variable {crates : Crates} {db : Tables} {row : MessageRow}

theorem claimedInputs_mem (h : Inputs crates db) {taskId : String} {claimed : List GrokTerminalDelivery}
    (hclaimed : claimedInputs crates db taskId = .ok claimed) (hrow : row ∈ db.messages) {d : GrokTerminalDelivery}
    (hd : row.data.grokTerminalDelivery = some d) (htask : d.taskId = taskId) : d ∈ claimed := by
  have hkept := h.claimed hrow hd
  obtain ⟨deliveries, hdeliveries, hall⟩ := Results.bind_eq_ok.mp hclaimed
  have hmem : row.data.message ∈ (db.readTaskMessages taskId).filter fun message => isInputSubject message.subject := by
    refine List.mem_filter.mpr ⟨List.mem_map.mpr ⟨row, List.mem_filter.mpr ⟨hrow, ?_⟩, rfl⟩, hkept.checked.subject⟩
    have hcolumn : row.recipientTaskId = row.data.message.recipientTaskId :=
      congrArg MessageRow.recipientTaskId (h.posted.columns row hrow)
    have hrecipient := (hkept.checked.claimed d hd).2.2
    exact decide_eq_true (.inl (by rw [hcolumn, ← hrecipient, htask]))
  obtain ⟨delivery, hmem', hone⟩ := Results.exists_of_mem_mapM hdeliveries hmem
  obtain ⟨id, hid, hone⟩ := Results.bind_eq_ok.mp hone
  obtain rfl := Except.ok.inj (hkept.parsed.symm.trans hid)
  obtain ⟨found, hfound, hone⟩ := Results.bind_eq_ok.mp hone
  obtain rfl := Except.ok.inj hall
  refine List.mem_filterMap.mpr ⟨delivery, hmem', ?_⟩
  cases found with
  | none => cases hone
  | some pair =>
    obtain ⟨data, record⟩ := pair
    obtain ⟨other, hother, rfl, rfl, -⟩ := readRecord_checked hfound
    have hsame := h.posted.messageRow_of_mem hrow
    rw [← h.posted.messageId_eq hrow, hkept.checked.named, hother] at hsame
    rw [← Except.ok.inj hone, Option.some.inj hsame]
    exact hd

theorem writeRecord_turn (hposted : db.Posted) (hrow : row ∈ db.messages) {next : GrokTerminalInputRecord}
    (hid : next.message.messageId = row.messageId) :
    Triple (fun w => w = db) (writeRecord row.data next) (fun _ w => w = turned db row next) (fun _ _ => True) := by
  refine Triple.read_then (Triple.modify_then (Triple.ensure ?_ fun _ _ _ => trivial))
  rintro w rfl -
  rw [turned, Tables.mapMessages, Tables.mapMessages]
  congr 1
  apply List.map_congr_left
  intro other hother
  have hat : other.isAt next.toData.message.messageId row.data.message.state row.data = true ↔ other = row := by
    simp only [MessageRow.isAt, Bool.and_eq_true, decide_eq_true_iff]
    constructor
    · rintro ⟨⟨hsame, -⟩, -⟩
      exact List.inj_on_of_nodup_map hposted.nodup hother hrow (hsame.trans hid)
    · rintro rfl
      exact ⟨⟨hid.symm, congrArg MessageRow.state (hposted.columns other hother)⟩, rfl⟩
  by_cases heq : other = row
  · rw [if_pos heq, if_pos (hat.mpr heq), heq]
  · rw [if_neg heq, if_neg fun h => heq (hat.mp h)]

/-- A claim is granted for an input that is not claimed yet. -/
inductive ClaimEffect (crates : Crates) (db : Tables) (messageId : String) :
    Option GrokTerminalInputRecord → Tables → Prop
  | refused : ClaimEffect crates db messageId none db
  | granted (row next) (hturn : Turn crates db row next) (hid : row.data.message.messageId = messageId)
      (hnew : row.data.grokTerminalDelivery = none) :
      ClaimEffect crates db messageId (some next) (turned db row next)

theorem claimOnce_triple (h : Inputs crates db) (claim : GrokTerminalInputClaim) :
    Triple (fun w => w = db) (claimOnce crates claim) (ClaimEffect crates db claim.message.messageId)
      (fun _ w => w = db) := by
  refine transaction_triple (Triple.ofResult_then (fun id hparse => ?_) fun _ _ => trivial)
  refine Triple.ensure_then (fun _ => Triple.read_then ?_) fun _ => trivial
  refine Triple.ofResult_then (fun found hfound => ?_) fun _ _ => trivial
  cases found with
  | none => exact Triple.fail fun _ _ => trivial
  | some pair =>
    obtain ⟨data, record⟩ := pair
    obtain ⟨row, hread, rfl, rfl, hchecked⟩ := readRecord_checked hfound
    obtain ⟨hrow, -⟩ := Tables.mem_of_messageRow hread
    refine Triple.ensure_then (fun hsame => ?_) fun _ => trivial
    have hid : row.data.message.messageId = claim.message.messageId := by
      rw [← hsame]
      rfl
    split
    · apply Triple.ret
      rintro w rfl
      exact .refused
    · rename_i hqueued
      rw [not_not] at hqueued
      refine Triple.ofResult_then (fun task htask => ?_) fun _ _ => trivial
      refine Triple.ofResult_then (fun owned _ => ?_) fun _ _ => trivial
      refine Triple.ensure_then (fun hcurrent => ?_) fun _ => trivial
      refine Triple.ofResult_then (fun claimed hclaimed => ?_) fun _ _ => trivial
      refine Triple.ensure_then (fun hfresh => ?_) fun _ => trivial
      refine Triple.bind (writeRecord_turn h.posted hrow ?_) fun _ => Triple.ret ?_
      · exact h.posted.messageId_eq hrow
      · rintro w rfl
        have hnone : row.data.grokTerminalDelivery = none := by
          cases hd : row.data.grokTerminalDelivery with
          | none => rfl
          | some d =>
            have hstate : row.data.message.state = .queued := hqueued
            grind [(hchecked.claimed d hd).1]
        have htaskId : task.taskId = row.data.message.recipientTaskId := h.keyed _ _ (eq_of_present htask)
        refine .granted row _ ⟨hrow, ⟨rfl, fun d hd => absurd (hnone.symm.trans hd) (by simp), fun _ hv => hv⟩, ?_⟩
          hid hnone
        refine ⟨_, ⟨rfl, ?_, hchecked.subject, hchecked.named, ?_⟩, ?_⟩
        · exact (congrArg crates.parseUuid hid).trans hparse
        · rintro d ⟨⟩
          exact ⟨rfl, rfl, htaskId⟩
        · intro other hother _ d' hd' htask'
          have hother := List.any_eq_false.mp hfresh d' (claimedInputs_mem h hclaimed hother hd' htask'.symm)
          grind [claimDelivery, claimOutdated, samePrompt]

theorem nativeOutcome_ne_unknown {response : Json} {d : GrokTerminalDelivery} {next : GrokTerminalDeliveryStatus}
    (h : nativeOutcome crates response d = .ok next) : next ≠ .unknown := by
  obtain ⟨prompt, -, h⟩ := Results.bind_eq_ok.mp h
  grind [Results.bind_throw_ne_ok, Results.pure_eq_ok, Results.throw_ne_ok]

theorem acknowledgeExact_triple (h : Inputs crates db) (expected : GrokTerminalDelivery) (response : Json) :
    Triple (fun w => w = db) (acknowledgeExact crates expected response) (fun _ => Moves crates db)
      (fun _ w => w = db) := by
  refine transaction_triple (Triple.read_then (Triple.ofResult_then (fun found hfound => ?_) fun _ _ => trivial))
  cases found with
  | none => exact Triple.fail fun _ _ => trivial
  | some pair =>
    obtain ⟨data, record⟩ := pair
    obtain ⟨row, hread, rfl, rfl, hchecked⟩ := readRecord_checked hfound
    obtain ⟨hrow, -⟩ := Tables.mem_of_messageRow hread
    refine Triple.ofResult_then (fun stored hstored => ?_) fun _ _ => trivial
    refine Triple.ensure_then (fun _ => ?_) fun _ => trivial
    refine Triple.ofResult_then (fun task _ => ?_) fun _ _ => trivial
    refine Triple.ofResult_then (fun owned _ => ?_) fun _ _ => trivial
    refine Triple.ensure_then (fun _ => ?_) fun _ => trivial
    refine Triple.ofResult_then (fun next houtcome => ?_) fun _ _ => trivial
    have hd : row.data.grokTerminalDelivery = some stored := eq_of_present hstored
    split
    · refine Triple.ensure_then (fun _ => Triple.ret ?_) fun _ => trivial
      rintro w rfl
      exact .refl
    · rename_i hunknown
      rw [not_not] at hunknown
      refine Triple.ofResult_then (fun claimed hclaimed => ?_) fun _ _ => trivial
      refine Triple.ensure_then (fun hfresh => ?_) fun _ => trivial
      refine Triple.bind (writeRecord_turn h.posted hrow ?_) fun _ => Triple.ret ?_
      · exact h.posted.messageId_eq hrow
      · rintro w rfl
        obtain ⟨-, hid, htaskId⟩ := hchecked.claimed stored hd
        refine .single (.turn row _ ⟨hrow, ⟨rfl, ?_, fun _ hv => hv⟩, ?_⟩)
        · intro d hd'
          obtain rfl := Option.some.inj (hd.symm.trans hd')
          exact ⟨next, rfl, fun hne => absurd hunknown hne⟩
        · have hkept := h.claimed hrow hd
          refine ⟨_, ⟨rfl, hkept.parsed, hkept.checked.subject, hkept.checked.named, ?_⟩, ?_⟩
          · rintro d ⟨⟩
            exact ⟨(if_neg (nativeOutcome_ne_unknown houtcome)).symm, rfl, htaskId⟩
          · intro other hother hne d' hd' htask'
            refine ⟨(h.apart row hrow other hother hne.symm stored d' hd hd' htask').1, fun hsession => ?_⟩
            have hmem := claimedInputs_mem h hclaimed hother hd' htask'.symm
            rw [samePrompt_comm]
            simpa [h.messageId_ne hother hrow hne hd' hd, hsession.symm] using List.any_eq_false.mp hfresh d' hmem

theorem moves_of_writes {offered : LocalCliMessage → Prop} {permits : LocalCliMessage → LocalCliMessage → Prop}
    {w : Tables} (h : MessageWrites crates offered permits db w) : Moves crates db w :=
  Relation.ReflTransGen.mono (fun _ _ hwrite => Move.mailbox offered permits _ hwrite) _ _ h

theorem saveTaskResult_triple (h : Inputs crates db) (historical current task : LocalCliTask) (output : String) :
    Triple (fun w => w = db) (saveTaskResult crates historical current task output) (fun _ => Moves crates db)
      (fun _ _ => True) := by
  rw [saveTaskResult]
  split
  · exact Triple.ret fun w hw => hw ▸ .refl
  · split
    · exact Triple.ret fun w hw => hw ▸ .refl
    · refine Triple.ofResult_then (fun revision _ => ?_) fun _ _ => trivial
      dsimp only
      split
      · refine Triple.bind (Triple.of_imp (fun _ h => h) (checkpoint_triple h.posted _ _) (fun _ _ h => h)
          fun _ _ _ => trivial) fun _ => Triple.ret ?_
        rintro w (rfl | hdone)
        · exact .refl
        · refine .head (.tasks (db.putTask _) ?_ rfl) (moves_of_writes hdone.messages)
          intro taskId other hother
          rw [Tables.readTask_putTask] at hother
          split at hother
          · rename_i heq
            rw [← Option.some.inj hother, heq]
          · exact h.keyed taskId other hother
      · refine Triple.bind (Q := fun _ => Moves crates db) ?_ fun _ => Triple.ret fun _ hw => hw
        refine Triple.read_then (Triple.ensure_then (fun _ => Triple.modify ?_) fun _ => trivial)
        rintro w rfl
        exact .single (.tasks _ h.keyed rfl)

theorem saveVerifiedExact_triple (h : Inputs crates db) (expected : GrokTerminalDelivery)
    (verified : GrokTerminalVerifiedResult) :
    Triple (fun w => w = db) (saveVerifiedExact crates expected verified) (fun _ => Moves crates db)
      (fun _ w => w = db) := by
  refine transaction_triple (Triple.read_then (Triple.ofResult_then (fun found hfound => ?_) fun _ _ => trivial))
  cases found with
  | none => exact Triple.fail fun _ _ => trivial
  | some pair =>
    obtain ⟨data, record⟩ := pair
    obtain ⟨row, hread, rfl, rfl, hchecked⟩ := readRecord_checked hfound
    obtain ⟨hrow, -⟩ := Tables.mem_of_messageRow hread
    refine Triple.ofResult_then (fun stored hstored => ?_) fun _ _ => trivial
    refine Triple.ensure_then (fun _ => ?_) fun _ => trivial
    have hd : row.data.grokTerminalDelivery = some stored := eq_of_present hstored
    split
    · refine Triple.ensure_then (fun _ => Triple.ret ?_) fun _ => trivial
      rintro w rfl
      exact .refl
    · rename_i hnone
      refine Triple.ofResult_then (fun historical hhistorical => ?_) fun _ _ => trivial
      refine Triple.ofResult_then (fun owned _ => ?_) fun _ _ => trivial
      refine Triple.ensure_then (fun _ => ?_) fun _ => trivial
      refine Triple.bind (writeRecord_turn h.posted hrow ?_) fun _ => ?_
      · exact h.posted.messageId_eq hrow
      · have hturn : Turn crates db row ⟨row.data.message, some stored, some verified⟩ := by
          have hkept := h.claimed hrow hd
          refine ⟨hrow, ⟨rfl, ?_, fun v hv => absurd (hnone.symm.trans hv) (by simp)⟩, stored, ⟨rfl, hkept.parsed,
            hkept.checked.subject, hkept.checked.named, ?_⟩, ?_⟩
          · intro d hd'
            obtain rfl := Option.some.inj (hd.symm.trans hd')
            exact ⟨stored.status, rfl, fun _ => rfl⟩
          · rintro d ⟨⟩
            exact hkept.checked.claimed stored hd
          · exact fun other hother hne d' => h.apart row hrow other hother hne.symm stored d' hd
        have hmove : Move crates db (turned db row ⟨row.data.message, some stored, some verified⟩) :=
          .turn row _ hturn
        refine Triple.read_bind fun db' => ?_
        rintro w ⟨rfl, rfl⟩
        refine Triple.of_imp (fun _ hw => hw) (Triple.ofResult_then (S := fun _ => Moves crates (turned db row _))
          (fun order _ => ?_) fun _ _ => trivial) (fun _ w hw => hw.head hmove) (fun _ _ h => h) _ rfl
        obtain ⟨afterThis, later⟩ := order
        dsimp only
        split
        · exact Triple.ret fun w hw => hw ▸ .refl
        · refine Triple.ensure_then (fun _ => ?_) fun _ => trivial
          refine Triple.ofResult_then (fun current _ => ?_) fun _ _ => trivial
          exact saveTaskResult_triple (hmove.inputs h) _ _ _ _

theorem moves_of_effect {request : LocalCli.Request} {w : Tables} (h : Effect crates request db w)
    (hinputs : Inputs crates db) : Moves crates db w := by
  obtain ⟨middle, hmessages, hwrites⟩ := h.messages
  refine .head (.tasks middle ?_ hmessages) (moves_of_writes hwrites)
  intro taskId task htask
  rw [Tables.readTask, ← hwrites.tasks.1] at htask
  exact h.tasks.keyed hinputs.keyed taskId task htask

end Handlers

/-- The mailbox and the ledger share the tables. -/
inductive Served where
  | mailbox (request : LocalCli.Request)
  | terminal (request : Request)

def handle (crates : Crates) : Served → Transact (LocalCli.Answer ⊕ Answer)
  | .mailbox request => do return .inl (← LocalCli.handleRequest crates request)
  | .terminal request => do return .inr (← handleRequest crates request)

/-- The message that an answer hands out to its claim. -/
def granted : Served → Except String (LocalCli.Answer ⊕ Answer) → Option String
  | .terminal (.claim claim), .ok (.inr (.record (some _))) => some claim.message.messageId
  | _, _ => none

/-- The messages handed out by these requests, and the tables behind them. -/
def serve (crates : Crates) : List Served → Tables → List String × Tables
  | [], db => ([], db)
  | served :: rest, db =>
    ((granted served (handle crates served db).1).toList ++ (serve crates rest (handle crates served db).2).1,
      (serve crates rest (handle crates served db).2).2)

section Runs

variable {crates : Crates} {db w : Tables}

theorem Moves.inputs (h : Moves crates db w) (hinputs : Inputs crates db) : Inputs crates w := by
  induction h with
  | refl => exact hinputs
  | tail _ hmove ih => exact hmove.inputs ih

theorem Moves.advances (h : Moves crates db w) (hinputs : Inputs crates db) {row : MessageRow}
    (hrow : row ∈ db.messages) : ∃ row' ∈ w.messages, row'.messageId = row.messageId ∧ Advances row.data row'.data := by
  induction h with
  | refl => exact ⟨row, hrow, rfl, .refl _⟩
  | tail hmoves hmove ih =>
    obtain ⟨middle, hmiddle, hid, hadvances⟩ := ih
    obtain ⟨row', hrow', hid', hadvances'⟩ := hmove.advances (Moves.inputs hmoves hinputs) hmiddle
    exact ⟨row', hrow', hid'.trans hid, hadvances.trans hadvances'⟩

/-- The message is that of a claimed input. -/
def IsClaimed (db : Tables) (messageId : String) : Prop :=
  ∃ row ∈ db.messages, row.messageId = messageId ∧ row.data.grokTerminalDelivery ≠ none

theorem Moves.isClaimed (h : Moves crates db w) (hinputs : Inputs crates db) {messageId : String}
    (hout : IsClaimed db messageId) : IsClaimed w messageId := by
  obtain ⟨row, hrow, hid, hd⟩ := hout
  obtain ⟨row', hrow', hid', hadvances⟩ := h.advances hinputs hrow
  obtain ⟨d, hd⟩ := Option.ne_none_iff_exists'.mp hd
  obtain ⟨status, hd', -⟩ := hadvances.delivery d hd
  exact ⟨row', hrow', hid'.trans hid, hd' ▸ Option.some_ne_none _⟩

/-- A claim is granted for a message that is not handed out, and hands it out. -/
theorem terminal_triple (h : Inputs crates db) (request : Request) :
    Triple (fun w => w = db) (handleRequest crates request)
      (fun answer w => Moves crates db w ∧ ∀ messageId ∈ granted (.terminal request) (.ok (.inr answer)),
        ¬IsClaimed db messageId ∧ IsClaimed w messageId) (fun _ w => w = db) := by
  have hquiet : ∀ w : Tables, w = db → Moves crates db w := fun w hw => hw ▸ .refl
  cases request with
  | claim claim =>
    refine Triple.bind (claimOnce_triple h claim) fun record => Triple.ret ?_
    intro w heffect
    cases heffect with
    | refused => exact ⟨.refl, fun _ hid => absurd hid (by simp [granted])⟩
    | granted row next hturn hid hnew =>
      refine ⟨.single (.turn row next hturn), ?_⟩
      rintro _ ⟨⟩
      have hmessageId := (h.posted.messageId_eq hturn.mem).symm.trans hid
      constructor
      · rintro ⟨other, hother, hid', hd⟩
        rw [List.inj_on_of_nodup_map h.posted.nodup hother hturn.mem (hid'.trans hmessageId.symm)] at hd
        exact hd hnew
      · obtain ⟨d, hclaimed, -⟩ := hturn.claimed
        refine ⟨row.set next.toData, List.mem_map.mpr ⟨row, hturn.mem, if_pos rfl⟩, hmessageId, ?_⟩
        rw [hclaimed.delivery]
        exact Option.some_ne_none d
  | acknowledge expected response =>
    refine Triple.bind (acknowledgeExact_triple h expected response) fun _ => Triple.ret ?_
    exact fun w hw => ⟨hw, fun _ hid => absurd hid (by simp [granted])⟩
  | load messageId =>
    refine Triple.read_then (Triple.ofResult_then (fun row _ => Triple.ret ?_) fun _ _ => rfl)
    exact fun w hw => ⟨hquiet w hw, fun _ hid => absurd hid (by simp [granted])⟩
  | saveVerifiedResult expected verified =>
    refine Triple.bind (saveVerifiedExact_triple h expected verified) fun _ => Triple.ret ?_
    exact fun w hw => ⟨hw, fun _ hid => absurd hid (by simp [granted])⟩
  | missingHistoricalResults currentTask =>
    refine Triple.bind (Q := fun _ => Moves crates db) ?_ fun _ => Triple.ret ?_
    · refine Triple.read_then (Triple.ofResult_then (fun _ _ => ?_) fun _ _ => rfl)
      refine Triple.ofResult_then (fun _ _ => Triple.ofResult_then (fun _ _ => ?_) fun _ _ => rfl) fun _ _ => rfl
      refine Triple.ensure_then (fun _ => ?_) fun _ => rfl
      exact Triple.ofResult_cases (fun _ w hw _ => hquiet w hw) fun _ _ hw _ => hw
    · exact fun w hw => ⟨hw, fun _ hid => absurd hid (by simp [granted])⟩

theorem handle_triple (h : Inputs crates db) (served : Served) :
    Triple (fun w => w = db) (handle crates served)
      (fun answer w => Moves crates db w ∧ ∀ messageId ∈ granted served (.ok answer),
        ¬IsClaimed db messageId ∧ IsClaimed w messageId) (fun _ w => w = db) := by
  cases served with
  | mailbox request =>
    refine Triple.bind (LocalCli.handleRequest_triple crates h.keyed h.posted request) fun _ => Triple.ret ?_
    exact fun w hw => ⟨moves_of_effect hw.1 h, fun _ hid => absurd hid (by simp [granted])⟩
  | terminal request => exact Triple.bind (terminal_triple h request) fun _ => Triple.ret fun _ hw => hw

theorem handle_moves (h : Inputs crates db) (served : Served) :
    Moves crates db (handle crates served db).2 ∧ ∀ messageId ∈ granted served (handle crates served db).1,
      ¬IsClaimed db messageId ∧ IsClaimed (handle crates served db).2 messageId := by
  obtain ⟨hok, herror⟩ := handle_triple h served db rfl
  cases hrun : handle crates served db with
  | mk result w =>
    cases result with
    | ok answer => exact hok answer w hrun
    | error e =>
      rw [herror e w hrun]
      exact ⟨.refl, fun _ hid => absurd hid (by cases served <;> simp [granted])⟩

theorem serve_moves (h : Inputs crates db) (served : List Served) :
    Moves crates db (serve crates served db).2 ∧ (serve crates served db).1.Nodup ∧
      ∀ messageId ∈ (serve crates served db).1,
        ¬IsClaimed db messageId ∧ IsClaimed (serve crates served db).2 messageId := by
  induction served generalizing db with
  | nil => exact ⟨.refl, List.nodup_nil, fun _ hid => absurd hid List.not_mem_nil⟩
  | cons one rest ih =>
    obtain ⟨hmoves, hgranted⟩ := handle_moves h one
    have hinputs := hmoves.inputs h
    obtain ⟨hrest, hnodup, hids⟩ := ih hinputs
    refine ⟨hmoves.trans hrest, ?_, ?_⟩
    · refine List.nodup_append'.mpr ⟨Option.toList_nodup _, hnodup, ?_⟩
      intro messageId hone hlater
      exact (hids messageId hlater).1 (hgranted messageId (Option.mem_toList.mp hone)).2
    · intro messageId hid
      cases List.mem_append.mp hid with
      | inl hone =>
        obtain ⟨hnew, hout⟩ := hgranted messageId (Option.mem_toList.mp hone)
        exact ⟨hnew, hrest.isClaimed hinputs hout⟩
      | inr hlater =>
        obtain ⟨hnew, hout⟩ := hids messageId hlater
        exact ⟨fun hbefore => hnew (hmoves.isClaimed h hbefore), hout⟩

theorem Inputs.empty : Inputs crates Tables.empty where
  keyed := Ledger.empty.keyed
  posted := Tables.Posted.empty
  kept := fun _ hrow => absurd hrow List.not_mem_nil
  apart := fun _ hrow => absurd hrow List.not_mem_nil

end Runs

/-- The ledger hands out no message, no draft and no native prompt twice. -/
theorem inputs_claimed_once (crates : Crates) (served : List Served) :
    let ids := (serve crates served .empty).1
    let db := (serve crates served .empty).2
    ids.Nodup ∧ (∀ messageId ∈ ids, IsClaimed db messageId) ∧
    (∀ messageId, IsClaimed db messageId → ∀ later, messageId ∉ (serve crates later db).1) ∧
    ∀ row ∈ db.messages, ∀ other ∈ db.messages, row ≠ other → ∀ d d', row.data.grokTerminalDelivery = some d →
      other.data.grokTerminalDelivery = some d' → Apart d d' := by
  intro ids db
  obtain ⟨hmoves, hnodup, hids⟩ := @serve_moves crates _ Inputs.empty served
  have hinputs : Inputs crates db := hmoves.inputs Inputs.empty
  refine ⟨hnodup, fun messageId hid => (hids messageId hid).2, ?_, hinputs.apart⟩
  exact fun messageId hclaimed later hid => ((serve_moves hinputs later).2.2 messageId hid).1 hclaimed

/-- What is recorded of an input is not taken back, whatever comes later. -/
theorem claimed_inputs_kept (crates : Crates) (served : List Served) :
    let db := (serve crates served .empty).2
    (∀ row ∈ db.messages, ∀ d, row.data.grokTerminalDelivery = some d →
      row.state = if d.status = .unknown then .sent else .acknowledged) ∧
    (∀ one e, (handle crates one db).1 = .error e → (handle crates one db).2 = db) ∧
    ∀ later, ∀ row ∈ db.messages, ∃ row' ∈ (serve crates later db).2.messages,
      row'.messageId = row.messageId ∧ Advances row.data row'.data := by
  intro db
  have hinputs : Inputs crates db := (serve_moves Inputs.empty served).1.inputs Inputs.empty
  refine ⟨fun row hrow d hd => ?_, ?_, ?_⟩
  · rw [hinputs.posted.columns row hrow]
    exact ((hinputs.claimed hrow hd).checked.claimed d hd).1
  · exact fun one e herror => (handle_triple hinputs one db rfl).2 e _ (Prod.ext herror rfl)
  · exact fun later row hrow => (serve_moves hinputs later).1.advances hinputs hrow

end InfiniShell.LocalCli.GrokTerminal
