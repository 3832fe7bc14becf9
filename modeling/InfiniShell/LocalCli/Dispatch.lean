import InfiniShell.LocalCli.TaskLedger

namespace InfiniShell.LocalCli

open Effects Effects.Program

structure Moves (permits : LocalCliMessage → LocalCliMessage → Prop) (before after : LocalCliMessage) : Prop where
  original : after.original = before.original
  allowed : allowed before.state after.state = true
  permitted : permits before after

section Writes

variable {crates : Crates} {offered : LocalCliMessage → Prop} {permits : LocalCliMessage → LocalCliMessage → Prop}
  {db w : Tables} {messageId : String} {message : LocalCliMessage}

theorem MessageWrite.readMessage (h : MessageWrite crates offered permits db w)
    (hread : db.readMessage messageId = some message) :
    ∃ message', w.readMessage messageId = some message' ∧ (message' = message ∨ Moves permits message message') := by
  cases h with
  | enqueued =>
    rw [Tables.readMessage_addMessage, hread]
    exact ⟨message, rfl, .inl rfl⟩
  | result =>
    rw [Tables.readMessage_addMessage, hread]
    exact ⟨message, rfl, .inl rfl⟩
  | moved before after hstored hsame hallowed _ hpermits =>
    rw [Tables.readMessage_move hstored hsame]
    by_cases heq : messageId = before.messageId
    · rw [if_pos heq]
      rw [heq, hstored] at hread
      obtain rfl := Option.some.inj hread
      exact ⟨after, rfl, .inr ⟨hsame, hallowed, hpermits⟩⟩
    · rw [if_neg heq]
      exact ⟨message, hread, .inl rfl⟩

theorem MessageWrites.readMessage (h : MessageWrites crates offered permits db w)
    (hread : db.readMessage messageId = some message) :
    ∃ message', w.readMessage messageId = some message' ∧ Relation.ReflTransGen (Moves permits) message message' := by
  induction h with
  | refl => exact ⟨message, hread, .refl⟩
  | tail _ hwrite ih =>
    obtain ⟨middle, hmiddle, hmoves⟩ := ih
    obtain ⟨message', hmessage', hcases⟩ := hwrite.readMessage hmiddle
    refine ⟨message', hmessage', ?_⟩
    cases hcases with
    | inl hsame => exact hsame ▸ hmoves
    | inr hmove => exact hmoves.tail hmove

end Writes

variable {a b c : LocalCliMessageState}

theorem allowed_trans (h : allowed a b = true) (h' : allowed b c = true) : allowed a c = true := by
  cases a <;> cases b <;> cases c <;> first | rfl | exact h | exact h'

/-- The states that a message may be found in later. -/
def StateFollows (before after : LocalCliMessageState) : Prop := after = before ∨ allowed before after = true

theorem StateFollows.trans (h : StateFollows a b) (h' : StateFollows b c) : StateFollows a c := by
  cases h with
  | inl hsame => exact hsame ▸ h'
  | inr hmove =>
    cases h' with
    | inl hsame => exact .inr (hsame ▸ hmove)
    | inr hmove' => exact .inr (allowed_trans hmove hmove')

theorem StateFollows.queued {before after : LocalCliMessageState} (h : StateFollows before after)
    (hqueued : after = .queued) : before = .queued := by
  cases h with
  | inl hsame => exact hsame ▸ hqueued
  | inr hmove =>
    rw [hqueued] at hmove
    cases before <;> nomatch hmove

section Paths

variable {permits : LocalCliMessage → LocalCliMessage → Prop} {before after : LocalCliMessage}

theorem follows_of_moves (h : Relation.ReflTransGen (Moves permits) before after) :
    after.original = before.original ∧ StateFollows before.state after.state := by
  induction h with
  | refl => exact ⟨rfl, .inl rfl⟩
  | tail _ hmove ih => exact ⟨hmove.original.trans ih.1, ih.2.trans (.inr hmove.allowed)⟩

theorem eq_of_moves (h : Relation.ReflTransGen (Moves permits) before after) (hstuck : ∀ next, ¬permits before next) :
    after = before := by
  induction h with
  | refl => rfl
  | tail _ hmove ih =>
    rw [ih] at hmove
    exact absurd hmove.permitted (hstuck _)

end Paths

def Request.reports : Request → Option String
  | .acknowledgeMessage messageId _ _ _ => some messageId
  | .acknowledgeApplicationHistory messageId _ _ => some messageId
  | _ => none

theorem Request.permits_of_left {crates : Crates} {request : Request} {before after : LocalCliMessage}
    (h : request.permits crates before after) (hleft : before.state ≠ .queued) :
    request.reports = some before.messageId := by
  cases request with
  | checkpointTask => exact absurd h.1.1 hleft
  | checkpointTaskWithMessage => exact absurd h.1.1 hleft
  | enqueueTaskResult => exact absurd h.1.1 hleft
  | claimTaskResult => exact absurd h.2.1 hleft
  | claimParentHistoryMessage => exact absurd h.2.1 hleft
  | claimManagedMessage => exact absurd h.2.1 hleft
  | acknowledgeMessage => exact congrArg some h.1.symm
  | acknowledgeApplicationHistory => exact congrArg some h.1.symm
  | enqueueMessage => exact h.elim
  | loadTasks => exact h.elim
  | loadTaskGenerations => exact h.elim
  | loadMessages => exact h.elim
  | loadTaskMessages => exact h.elim

section Runs

variable {crates : Crates} {db : Tables} {messageId : String} {message : LocalCliMessage} {request : Request}

theorem Effect.readMessage {w : Tables} (h : Effect crates request db w)
    (hread : db.readMessage messageId = some message) :
    ∃ message', w.readMessage messageId = some message' ∧
      Relation.ReflTransGen (Moves (request.permits crates)) message message' := by
  obtain ⟨middle, hmessages, hwrites⟩ := h.messages
  refine hwrites.readMessage ?_
  rw [Tables.readMessage, Tables.messageRow, hmessages]
  exact hread

theorem Tables.Sound.message_step (hsound : db.Sound) (crates : Crates) (request : Request)
    (hread : db.readMessage messageId = some message) :
    ∃ message', (handleRequest crates request db).2.readMessage messageId = some message' ∧
      message'.original = message.original ∧ StateFollows message.state message'.state := by
  obtain ⟨message', hmessage', hmoves⟩ := (hsound.effect crates request).readMessage hread
  exact ⟨message', hmessage', follows_of_moves hmoves⟩

theorem Tables.Sound.message_serve (hsound : db.Sound) (crates : Crates) (requests : List Request)
    (hread : db.readMessage messageId = some message) :
    ∃ message', (LocalCli.serve crates requests db).2.readMessage messageId = some message' ∧
      message'.original = message.original ∧ StateFollows message.state message'.state := by
  induction requests generalizing db message with
  | nil => exact ⟨message, hread, rfl, .inl rfl⟩
  | cons request requests ih =>
    obtain ⟨middle, hmiddle, hsame, hfollows⟩ := hsound.message_step crates request hread
    obtain ⟨message', hmessage', hsame', hfollows'⟩ := ih (hsound.step request) hmiddle
    exact ⟨message', hmessage', hsame'.trans hsame, hfollows.trans hfollows'⟩

theorem Tables.Sound.handedOut (hsound : db.Sound) {handed : LocalCliMessage}
    (hanswer : (handleRequest crates request db).1 = .ok (.claimed (some handed))) :
    HandedOut crates db (handleRequest crates request db).2 handed :=
  ((handleRequest_triple _ hsound.ledger.keyed hsound.posted request db rfl).1 _ _ (Prod.ext hanswer rfl)).2 handed rfl

theorem Tables.Sound.left_step (hsound : db.Sound) (hread : db.readMessage messageId = some message)
    (hleft : message.state ≠ .queued) (hother : request.reports ≠ some messageId) :
    (handleRequest crates request db).2.readMessage messageId = some message := by
  obtain ⟨message', hmessage', hmoves⟩ := (hsound.effect crates request).readMessage hread
  have hid := hsound.posted.messageId_of_readMessage hread
  rw [hmessage', eq_of_moves hmoves]
  intro next hnext
  exact hother (hid ▸ Request.permits_of_left hnext hleft)

end Runs

def handedIds (answers : List (Except String Answer)) : List String :=
  answers.filterMap fun
    | .ok (.claimed (some handed)) => some handed.messageId
    | _ => none

section Handed

variable {crates : Crates} {db : Tables} {messageId : String} {message : LocalCliMessage}

theorem mem_handedIds {answers : List (Except String Answer)} :
    messageId ∈ handedIds answers ↔ ∃ handed, .ok (.claimed (some handed)) ∈ answers ∧ handed.messageId = messageId := by
  rw [handedIds, List.mem_filterMap]
  constructor
  · rintro ⟨answer, hanswer, hid⟩
    split at hid
    · rename_i handed
      exact ⟨handed, hanswer, Option.some.inj hid⟩
    · exact absurd hid nofun
  · rintro ⟨handed, hanswer, hid⟩
    exact ⟨_, hanswer, congrArg some hid⟩

theorem handedIds_cons (answer : Except String Answer) (answers : List (Except String Answer)) :
    handedIds (answer :: answers) = handedIds [answer] ++ handedIds answers := by
  rw [handedIds, handedIds, handedIds, ← List.filterMap_append, List.singleton_append]

theorem Tables.Sound.not_handed (hsound : db.Sound) (requests : List Request)
    (hread : db.readMessage messageId = some message) (hleft : message.state ≠ .queued) :
    messageId ∉ handedIds (LocalCli.serve crates requests db).1 := by
  induction requests generalizing db message with
  | nil => exact List.not_mem_nil
  | cons request requests ih =>
    change messageId ∉ handedIds (_ :: _)
    rw [handedIds_cons, List.mem_append, not_or]
    constructor
    · intro hmem
      obtain ⟨handed, hanswer, rfl⟩ := mem_handedIds.mp hmem
      obtain ⟨stored, hstored, hqueued, -⟩ := (hsound.handedOut (List.mem_singleton.mp hanswer).symm).before
      obtain rfl := Option.some.inj (hread.symm.trans hstored)
      exact hleft hqueued
    · obtain ⟨middle, hmiddle, -, hfollows⟩ := hsound.message_step crates request hread
      exact ih (hsound.step request) hmiddle fun hqueued => hleft (hfollows.queued hqueued)

theorem Tables.Sound.handed_nodup (hsound : db.Sound) (requests : List Request) :
    (handedIds (LocalCli.serve crates requests db).1).Nodup := by
  induction requests generalizing db with
  | nil => exact List.nodup_nil
  | cons request requests ih =>
    change (handedIds (_ :: _)).Nodup
    rw [handedIds_cons]
    refine List.nodup_append'.mpr ⟨?_, ih (hsound.step request), ?_⟩
    · rw [handedIds, List.filterMap_cons]
      split
      · exact List.nodup_nil
      · exact List.nodup_singleton _
    · intro messageId hmem
      obtain ⟨handed, hanswer, rfl⟩ := mem_handedIds.mp hmem
      have hhanded := hsound.handedOut (List.mem_singleton.mp hanswer).symm
      refine (hsound.step request).not_handed requests hhanded.after ?_
      rw [hhanded.sent]
      nofun

theorem Tables.Sound.handed_left (hsound : db.Sound) (requests : List Request)
    (hmem : messageId ∈ handedIds (LocalCli.serve crates requests db).1) :
    ∃ message, (LocalCli.serve crates requests db).2.readMessage messageId = some message ∧
      message.state ≠ .queued := by
  induction requests generalizing db with
  | nil => exact absurd hmem List.not_mem_nil
  | cons request requests ih =>
    change messageId ∈ handedIds (_ :: _) at hmem
    rw [handedIds_cons, List.mem_append] at hmem
    cases hmem with
    | inl hmem =>
      obtain ⟨handed, hanswer, rfl⟩ := mem_handedIds.mp hmem
      have hhanded := hsound.handedOut (List.mem_singleton.mp hanswer).symm
      obtain ⟨message, hmessage, -, hfollows⟩ :=
        (hsound.step request).message_serve crates requests hhanded.after
      refine ⟨message, hmessage, fun hqueued => ?_⟩
      have hback := hfollows.queued hqueued
      rw [hhanded.sent] at hback
      exact absurd hback nofun
    | inr hmem => exact ih (hsound.step request) hmem

end Handed

section Started

variable {crates : Crates} {db w : Tables} {offered : LocalCliMessage → Prop}
  {permits : LocalCliMessage → LocalCliMessage → Prop}

/-- Every message was put into the queue once. -/
def Tables.Started (db : Tables) : Prop :=
  ∀ messageId message, db.readMessage messageId = some message → StateFollows .queued message.state

variable {message : LocalCliMessage}

theorem queued_of_valid (h : messageInvalid message = false) :
    message.state = .queued ∧ message.receiptKind = none := by
  simp only [messageInvalid, Bool.or_eq_false_iff, decide_eq_false_iff_not, ne_eq, not_not, Option.isSome_eq_false_iff,
    Option.isNone_iff_eq_none] at h
  exact ⟨h.1.1.1.2, h.1.1.2⟩

theorem Tables.Started.empty : Tables.empty.Started := by
  intro messageId message hread
  have hnone : Tables.empty.readMessage messageId = none := rfl
  exact absurd (hnone.symm.trans hread) nofun

theorem Tables.Started.add (h : db.Started) (hvalid : messageInvalid message = false) :
    (db.addMessage message.toData).Started := by
  intro messageId other hread
  rw [Tables.readMessage_addMessage, Option.or_eq_some_iff] at hread
  cases hread with
  | inl hold => exact h messageId other hold
  | inr hnew =>
    obtain ⟨-, heq⟩ := Option.ite_none_right_eq_some.mp hnew.2
    rw [← Option.some.inj heq]
    exact .inl (queued_of_valid hvalid).1

theorem MessageWrite.started (hwrite : MessageWrite crates offered permits db w) (h : db.Started) : w.Started := by
  cases hwrite with
  | enqueued message sender recipient haccepted => exact h.add haccepted.valid
  | result message sender recipient parent haccepted => exact h.add haccepted.valid
  | moved before after hstored hsame hallowed =>
    intro messageId other hread
    rw [Tables.readMessage_move hstored hsame] at hread
    split at hread
    · rw [← Option.some.inj hread]
      exact (h _ _ hstored).trans (.inr hallowed)
    · exact h messageId other hread

theorem MessageWrites.started (hwrites : MessageWrites crates offered permits db w) (h : db.Started) : w.Started := by
  induction hwrites with
  | refl => exact h
  | tail _ hwrite ih => exact hwrite.started ih

theorem Tables.Started.serve (h : db.Started) (hsound : db.Sound) (requests : List Request) :
    (LocalCli.serve crates requests db).2.Started := by
  refine (serve_induction (P := fun db => db.Sound ∧ db.Started) ?_ requests db ⟨hsound, h⟩).2
  rintro request db ⟨hsound, h⟩
  refine ⟨hsound.step request, ?_⟩
  obtain ⟨middle, hmessages, hwrites⟩ := (hsound.effect crates request).messages
  refine hwrites.started ?_
  intro messageId message hread
  rw [Tables.readMessage, Tables.messageRow, hmessages] at hread
  exact h messageId message hread

end Started

/-- A message is handed out once at most, and it never goes back. -/
theorem messages_dispatched_once (crates : Crates) (requests : List Request) :
    let db := (serve crates requests .empty).2
    (db.messages.map (·.data.message.messageId)).Nodup ∧
    (∀ messageId message, db.readMessage messageId = some message → StateFollows .queued message.state) ∧
    (∀ later : List Request, ∀ messageId message, db.readMessage messageId = some message →
      ∃ message', (serve crates later db).2.readMessage messageId = some message' ∧
        message'.original = message.original ∧ StateFollows message.state message'.state) ∧
    (handedIds (serve crates requests .empty).1).Nodup ∧
    (∀ messageId ∈ handedIds (serve crates requests .empty).1,
      ∃ message, db.readMessage messageId = some message ∧ message.state ≠ .queued) ∧
    (∀ messageId message, db.readMessage messageId = some message → message.state ≠ .queued →
      ∀ later : List Request, messageId ∉ handedIds (serve crates later db).1 ∧
        ∃ message', (serve crates later db).2.readMessage messageId = some message' ∧ message'.state ≠ .queued) ∧
    ∀ messageId message, db.readMessage messageId = some message → message.state = .sent →
      ∀ request : Request, request.reports ≠ some messageId →
        (handleRequest crates request db).2.readMessage messageId = some message := by
  intro db
  have hsound : db.Sound := Tables.Sound.empty.serve requests
  refine ⟨?_, Tables.Started.empty.serve Tables.Sound.empty requests, ?_, Tables.Sound.empty.handed_nodup requests,
    ?_, ?_, ?_⟩
  · have hmap : db.messages.map (·.data.message.messageId) = db.messages.map (·.messageId) :=
      List.map_congr_left fun row hrow => hsound.posted.messageId_eq hrow
    rw [hmap]
    exact hsound.posted.nodup
  · exact fun later _ _ => hsound.message_serve _ later
  · exact fun _ hmem => Tables.Sound.empty.handed_left requests hmem
  · intro messageId message hread hleft later
    refine ⟨hsound.not_handed later hread hleft, ?_⟩
    obtain ⟨message', hmessage', -, hfollows⟩ := hsound.message_serve crates later hread
    exact ⟨message', hmessage', fun hqueued => hleft (hfollows.queued hqueued)⟩
  · intro messageId message hread hsent request hother
    exact hsound.left_step hread (by rw [hsent]; nofun) hother

end InfiniShell.LocalCli
