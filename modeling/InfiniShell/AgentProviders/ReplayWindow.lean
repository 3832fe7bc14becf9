import InfiniShell.AgentProviders.ResponseState
import Mathlib.Data.List.Perm.Subperm
import Mathlib.Data.List.Induction

namespace InfiniShell.AgentProviders.Responses

def inputItems : Option Value → List Value
  | none => []
  | some (.array items) => items
  | some value => [value]

def number (event : ResponseStreamEvent) : Nat := event.sequenceNumber.getD 0

/-- The events that arrive, by position: each was seen before or is the next one, and all are seen in the end. -/
def Reconnects (total : Nat) : Nat → List Nat → Prop
  | seen, [] => seen = total
  | seen, i :: rest => i ≤ seen ∧ i < total ∧ Reconnects total (max seen (i + 1)) rest

variable {E : Type}

/-- A successful response and the stream it arrives through. -/
structure Round (decode : Decode E) where
  before : List ResponseStreamEvent
  last : ResponseStreamEvent
  response : ResponseObject
  deliveries : List Nat
  recorded : Bool
  before_kind : ∀ event ∈ before, event.kind ≠ .completed
  last_kind : last.kind = .completed
  decoded : last.response decode = some (.ok response)
  success : response.isSuccess = true
  numbered : ∀ event ∈ before ++ [last], event.sequenceNumber = some (number event)
  increasing : (before ++ [last]).Pairwise fun a b => number a < number b
  done_items : (before.filterMap doneItem).Subperm response.output
  reconnects : Reconnects (before.length + 1) 0 deliveries

namespace Round

variable {decode : Decode E}

def events (r : Round decode) : List ResponseStreamEvent := r.before ++ [r.last]

def deliver (r : Round decode) (s : ResponseSessionState) (i : Nat) : ResponseSessionState :=
  match r.events[i]? with
  | some event => (s.recordEvent decode event).1
  | none => s

def play (fingerprint : Text) (s : ResponseSessionState) (r : Round decode) : ResponseSessionState :=
  let s := (s.invalidateIfContextChanged fingerprint).1
  let s := r.deliveries.foldl r.deliver s
  if r.recorded then s.recordResponse r.response else s

def doneFirst (r : Round decode) (watermark : Option Nat) : List ResponseItem :=
  (r.before.filter fun event => !ResponseSessionState.passed watermark (number event)).filterMap doneItem

def reached (r : Round decode) (watermark : Option Nat) : Bool :=
  !ResponseSessionState.passed watermark (number r.last)

/-- The condition on a response and the number the watermark stands at. -/
structure Kept (r : Round decode) (watermark : Option Nat) : Prop where
  taken : r.reached watermark = true ∨ r.recorded = true ∨ r.response.output = []
  in_order : r.doneFirst watermark <+: r.response.output
  known : ∀ item ∈ r.doneFirst watermark, item.id.isSome = true
  once : r.reached watermark = true → r.recorded = true → ∀ item ∈ r.response.output, item.id.isSome = true

end Round

inductive SessionStep (decode : Decode E) where
  | round (r : Round decode)
  | compact (items : List ResponseItem)

section Session

variable (decode : Decode E) (fingerprint : Text)

def start : ResponseSessionState := (ResponseSessionState.invalidateIfContextChanged {} fingerprint).1

def stepSession (s : ResponseSessionState) : SessionStep decode → ResponseSessionState
  | .round r => r.play fingerprint s
  | .compact items => s.replaceWithCompaction items

def session (steps : List (SessionStep decode)) : ResponseSessionState :=
  steps.foldl (stepSession decode fingerprint) (start fingerprint)

end Session

variable {decode : Decode E}

def conversation (steps : List (SessionStep decode)) : List ResponseItem :=
  steps.foldl (fun window step =>
    match step with
    | .round r => window ++ r.response.output
    | .compact items => items) []

/-- The number of the last event that counted since the last compaction. -/
def watermark (steps : List (SessionStep decode)) : Option Nat :=
  steps.foldl (fun mark step =>
    match step with
    | .round r => if r.reached mark then some (number r.last) else mark
    | .compact _ => none) none

def ids (items : List ResponseItem) : List Text := items.filterMap ResponseItem.id

def DistinctIds (steps : List (SessionStep decode)) : Prop :=
  ∀ done rest, steps = done ++ rest → (ids (conversation done)).Nodup

structure Replays (fingerprint : Text) (steps : List (SessionStep decode)) : Prop where
  window : (session decode fingerprint steps).replayItems = conversation steps
  again : ∀ earlier r, steps = earlier ++ [.round r] → ∀ event ∈ r.events,
    (session decode fingerprint steps).recordEvent decode event = (session decode fingerprint steps, .duplicate)
  prepared : ∀ (X : Type) (request : ResponseCreateRequest X) transport, request.background ≠ some true →
    ∃ sent, (session decode fingerprint steps).prepareRequest request transport = (sent, .ok ()) ∧
      inputItems sent.input = (conversation steps).map ResponseItem.raw ++ inputItems request.input

/-! What the operations leave. -/

open ResponseSessionState

def payloadItems (decode : Decode E) (event : ResponseStreamEvent) : List ResponseItem :=
  (if event.kind = .completed then (((event.response decode).bind Except.toOption).map (·.output)).getD [] else []) ++
    (doneItem event).toList

def settings (s : ResponseSessionState) : ResponseStateMode × Option Nat × Option Text :=
  (s.mode, s.lastSequenceNumber, s.requestContextFingerprint)

variable {s : ResponseSessionState} {event : ResponseStreamEvent}

theorem settings_recordEventResponse : settings (s.recordEventResponse decode event) = settings s := by
  unfold recordEventResponse
  split
  next =>
    split
    next => rfl
    next => rfl
  next =>
    split
    next => rfl
    next => rfl

theorem settings_payload : settings (s.recordEventPayload decode event) = settings s := by
  unfold recordEventPayload
  simp only
  split
  next => exact settings_recordEventResponse
  next => exact settings_recordEventResponse

theorem replayItems_recordEventResponse :
    (s.recordEventResponse decode event).replayItems =
      (if event.kind = .completed then (((event.response decode).bind Except.toOption).map (·.output)).getD []
        else []).foldl pushNew s.replayItems := by
  unfold recordEventResponse
  cases hresponse : (event.response decode).bind Except.toOption with
  | some response =>
    simp only [Option.map_some, Option.getD_some]
    by_cases hkind : event.kind = .completed
    · rw [if_pos hkind, if_pos hkind]
      rfl
    · rw [if_neg hkind, if_neg hkind]
      rfl
  | none =>
    simp only [Option.map_none, Option.getD_none, ite_self, List.foldl_nil]
    split
    next => rfl
    next => rfl

theorem replayItems_payload :
    (s.recordEventPayload decode event).replayItems = (payloadItems decode event).foldl pushNew s.replayItems := by
  have hextend : ((s.recordEventResponse decode event).extendReplay (doneItem event).toList).replayItems =
      (payloadItems decode event).foldl pushNew s.replayItems := by
    rw [extendReplay, replayItems_recordEventResponse, ← List.foldl_append]
    rfl
  unfold recordEventPayload
  simp only
  split
  next => exact hextend
  next => exact hextend

theorem recordEvent_passed (hnumber : event.sequenceNumber = some (number event))
    (hpassed : passed s.lastSequenceNumber (number event) = true) :
    s.recordEvent decode event = (s, .duplicate) := by
  unfold recordEvent
  rw [hnumber]
  simp only
  rw [if_pos hpassed]

theorem recordEvent_taken (hnumber : event.sequenceNumber = some (number event))
    (hpassed : passed s.lastSequenceNumber (number event) = false) :
    (s.recordEvent decode event).1 =
      ({ s with lastSequenceNumber := some (number event) } : ResponseSessionState).recordEventPayload decode event := by
  unfold recordEvent
  rw [hnumber]
  simp only
  rw [if_neg (by rw [hpassed]; exact Bool.false_ne_true)]

variable {mark : Option Nat} {n : Nat}

theorem passed_iff : passed mark n = true ↔ ∃ last, mark = some last ∧ n ≤ last := by
  cases mark with
  | none => simp [passed]
  | some last => simp [passed]

theorem passed_le {m n : Nat} (hle : m ≤ n) (h : passed mark n = true) : passed mark m = true := by
  obtain ⟨last, hlast, hn⟩ := passed_iff.mp h
  exact passed_iff.mpr ⟨last, hlast, Nat.le_trans hle hn⟩

theorem passed_ext {a b : Option Nat} (h : ∀ n, passed a n = true ↔ passed b n = true) : a = b := by
  simp only [passed_iff] at h
  cases a with
  | none =>
    cases b with
    | none => rfl
    | some b =>
      obtain ⟨a, ha, -⟩ := (h b).mpr ⟨b, rfl, Nat.le_refl b⟩
      cases ha
  | some a =>
    obtain ⟨b, rfl, hle⟩ := (h a).mp ⟨a, rfl, Nat.le_refl a⟩
    obtain ⟨a', ha, hge⟩ := (h b).mpr ⟨b, rfl, Nat.le_refl b⟩
    cases ha
    rw [Nat.le_antisymm hle hge]

theorem lastSequenceNumber_taken (hnumber : event.sequenceNumber = some (number event))
    (hpassed : passed s.lastSequenceNumber (number event) = false) :
    (s.recordEvent decode event).1.lastSequenceNumber = some (number event) := by
  rw [recordEvent_taken hnumber hpassed]
  exact congrArg (fun p => p.2.1) settings_payload

theorem passed_recordEvent_iff (hnumber : event.sequenceNumber = some (number event)) :
    passed (s.recordEvent decode event).1.lastSequenceNumber n = true ↔
      n ≤ number event ∨ passed s.lastSequenceNumber n = true := by
  cases hpassed : passed s.lastSequenceNumber (number event) with
  | true =>
    rw [recordEvent_passed hnumber hpassed]
    exact (or_iff_right_of_imp fun hle => passed_le hle hpassed).symm
  | false =>
    rw [lastSequenceNumber_taken hnumber hpassed, passed_iff]
    constructor
    · rintro ⟨last, hlast, hle⟩
      cases hlast
      exact .inl hle
    · intro h
      refine ⟨_, rfl, ?_⟩
      cases h with
      | inl hle => exact hle
      | inr hold =>
        apply Nat.le_of_not_lt
        intro hlt
        rw [passed_le (Nat.le_of_lt hlt) hold] at hpassed
        cases hpassed

def takeEvent (decode : Decode E) (s : ResponseSessionState) (event : ResponseStreamEvent) : ResponseSessionState :=
  (s.recordEvent decode event).1

variable {events : List ResponseStreamEvent}

theorem passed_takeEvents_iff (hnumbers : ∀ event ∈ events, event.sequenceNumber = some (number event)) :
    passed (events.foldl (takeEvent decode) s).lastSequenceNumber n = true ↔
      (∃ event ∈ events, n ≤ number event) ∨ passed s.lastSequenceNumber n = true := by
  induction events generalizing s with
  | nil => simp
  | cons event events ih =>
    obtain ⟨hnumber, hnumbers⟩ := List.forall_mem_cons.mp hnumbers
    rw [List.foldl_cons, ih hnumbers, takeEvent, passed_recordEvent_iff hnumber, List.exists_mem_cons_iff]
    exact or_left_comm.trans or_assoc.symm

theorem deliver_eq (r : Round decode) {deliveries : List Nat} {seen : Nat}
    (h : Reconnects r.events.length seen deliveries)
    (hseen : ∀ i event, i < seen → r.events[i]? = some event → passed s.lastSequenceNumber (number event) = true) :
    deliveries.foldl r.deliver s = (r.events.drop seen).foldl (takeEvent decode) s := by
  induction deliveries generalizing s seen with
  | nil =>
    rw [Reconnects] at h
    rw [h, List.drop_length]
    rfl
  | cons i deliveries ih =>
    obtain ⟨hle, hlt, hrest⟩ := h
    have hget := List.getElem?_eq_getElem hlt
    have hnumber := r.numbered r.events[i] (List.getElem_mem hlt)
    have hdeliver : r.deliver s i = (s.recordEvent decode r.events[i]).1 := by
      rw [Round.deliver, hget]
    rw [List.foldl_cons, hdeliver]
    by_cases hold : i < seen
    · rw [recordEvent_passed hnumber (hseen i _ hold hget)]
      rw [Nat.max_eq_left hold] at hrest
      exact ih hrest hseen
    · obtain rfl : i = seen := by omega
      rw [Nat.max_eq_right (Nat.le_succ i)] at hrest
      rw [ih hrest, List.drop_eq_getElem_cons hlt, List.foldl_cons]
      · rfl
      · intro j event hj hevent
        apply (passed_recordEvent_iff hnumber).mpr
        by_cases hji : j = i
        · subst hji
          rw [hget] at hevent
          exact .inl (Nat.le_of_eq (congrArg number (Option.some.inj hevent).symm))
        · exact .inr (hseen j event (by omega) hevent)

theorem replayItems_takeEvents (hnumbers : ∀ event ∈ events, event.sequenceNumber = some (number event))
    (hincreasing : events.Pairwise fun a b => number a < number b) :
    (events.foldl (takeEvent decode) s).replayItems =
      ((events.filter fun event => !passed s.lastSequenceNumber (number event)).flatMap
        (payloadItems decode)).foldl pushNew s.replayItems := by
  induction events generalizing s with
  | nil => rfl
  | cons event events ih =>
    obtain ⟨hnumber, hnumbers⟩ := List.forall_mem_cons.mp hnumbers
    obtain ⟨hless, hincreasing⟩ := List.pairwise_cons.mp hincreasing
    rw [List.foldl_cons, takeEvent, ih hnumbers hincreasing]
    cases hpassed : passed s.lastSequenceNumber (number event) with
    | true =>
      rw [recordEvent_passed hnumber hpassed, List.filter_cons_of_neg (by rw [hpassed]; decide)]
    | false =>
      have hfresh : ∀ mark, (∀ n, passed mark n = true → n ≤ number event) →
          events.filter (fun event => !passed mark (number event)) = events := by
        intro mark hmark
        apply List.filter_eq_self.mpr
        intro later hlater
        rw [Bool.not_eq_true', Bool.eq_false_iff]
        intro hlate
        exact absurd (hmark _ hlate) (Nat.not_le_of_lt (hless later hlater))
      rw [lastSequenceNumber_taken hnumber hpassed, recordEvent_taken hnumber hpassed, replayItems_payload,
        List.filter_cons_of_pos (by rw [hpassed]; rfl), List.flatMap_cons, List.foldl_append, hfresh, hfresh]
      · intro n hn
        apply Nat.le_of_not_lt
        intro hlt
        rw [passed_le (Nat.le_of_lt hlt) hn] at hpassed
        cases hpassed
      · intro n hn
        obtain ⟨last, hlast, hle⟩ := passed_iff.mp hn
        cases hlast
        exact hle

theorem settings_takeEvents (events : List ResponseStreamEvent) :
    (events.foldl (takeEvent decode) s).mode = s.mode ∧
      (events.foldl (takeEvent decode) s).requestContextFingerprint = s.requestContextFingerprint := by
  induction events generalizing s with
  | nil => exact ⟨rfl, rfl⟩
  | cons event events ih =>
    have hstep : (takeEvent decode s event).mode = s.mode ∧
        (takeEvent decode s event).requestContextFingerprint = s.requestContextFingerprint := by
      unfold takeEvent recordEvent
      split
      next => exact ⟨congrArg Prod.fst settings_payload, congrArg (fun p => p.2.2) settings_payload⟩
      next =>
        split
        next => exact ⟨rfl, rfl⟩
        next =>
          exact ⟨(congrArg Prod.fst settings_payload).trans rfl, (congrArg (fun p => p.2.2) settings_payload).trans rfl⟩
    rw [List.foldl_cons]
    exact ⟨ih.1.trans hstep.1, ih.2.trans hstep.2⟩

/-! The window of one response. -/

variable {item : ResponseItem}

theorem held_iff {window : List ResponseItem} :
    held window item = true ↔ ∃ id, item.id = some id ∧ id ∈ ids window := by
  rw [held, ids]
  cases item.id with
  | none => simp
  | some id => simp

theorem ids_append (a b : List ResponseItem) : ids (a ++ b) = ids a ++ ids b := List.filterMap_append

variable {items : List ResponseItem}

theorem mem_ids {id : Text} (hmem : item ∈ items)
    (hid : item.id = some id) : id ∈ ids items := List.mem_filterMap.mpr ⟨item, hmem, hid⟩

theorem foldl_pushNew (hnodup : (ids items).Nodup) (window : List ResponseItem) :
    items.foldl pushNew window = window ++ items.filter fun item => !held window item := by
  induction items generalizing window with
  | nil => exact (List.append_nil _).symm
  | cons item items ih =>
    have htail : (ids items).Nodup := by
      rw [ids, List.filterMap_cons] at hnodup
      split at hnodup
      next => exact hnodup
      next => exact hnodup.of_cons
    rw [List.foldl_cons, ih htail]
    cases hheld : held window item with
    | true =>
      rw [pushNew, if_pos hheld, List.filter_cons_of_neg (by rw [hheld]; decide)]
    | false =>
      rw [pushNew, if_neg (by rw [hheld]; exact Bool.false_ne_true), List.filter_cons_of_pos (by rw [hheld]; rfl),
        List.append_assoc, List.singleton_append]
      congr 2
      apply List.filter_congr
      intro later hlater
      rw [Bool.not_inj_iff, Bool.eq_iff_iff, held_iff, held_iff]
      constructor
      · rintro ⟨id, hid, hmem⟩
        rw [ids_append] at hmem
        cases List.mem_append.mp hmem with
        | inl hmem => exact ⟨id, hid, hmem⟩
        | inr hmem =>
          obtain ⟨same, hsame, hid'⟩ := List.mem_filterMap.mp hmem
          rw [List.mem_singleton.mp hsame] at hid'
          rw [ids, List.filterMap_cons, hid'] at hnodup
          exact absurd (mem_ids hlater hid) (List.nodup_cons.mp hnodup).1
      · rintro ⟨id, hid, hmem⟩
        exact ⟨id, hid, by rw [ids_append]; exact List.mem_append_left _ hmem⟩

/-- The items of the output that are added behind those that were done before. -/
def remaining (done output : List ResponseItem) : List ResponseItem := output.filter fun item => !held done item

def unnamed (output : List ResponseItem) : List ResponseItem := output.filter fun item => item.id.isNone

section Output

variable {window done output : List ResponseItem}

theorem ids_subperm (hdone : done.Subperm output) : (ids done).Subperm (ids output) := by
  obtain ⟨same, hperm, hsub⟩ := hdone
  exact ⟨ids same, hperm.filterMap _, hsub.filterMap _⟩

theorem push_done (hnodup : (ids (window ++ output)).Nodup) (hdone : done.Subperm output) :
    done.foldl pushNew window = window ++ done := by
  rw [ids_append] at hnodup
  obtain ⟨-, houtput, hdisjoint⟩ := List.nodup_append.mp hnodup
  have hids : (ids done).Nodup := by
    obtain ⟨same, hperm, hsub⟩ := ids_subperm hdone
    exact hperm.nodup_iff.mp (houtput.sublist hsub)
  rw [foldl_pushNew hids, List.filter_eq_self.mpr]
  intro item hitem
  rw [Bool.not_eq_true', Bool.eq_false_iff, ne_eq, held_iff]
  rintro ⟨id, hid, hmem⟩
  exact hdisjoint id hmem id ((ids_subperm hdone).subset (mem_ids hitem hid)) rfl

theorem held_append_iff {more : List ResponseItem} :
    held (window ++ more) item = true ↔ held window item = true ∨ held more item = true := by
  rw [held_iff, held_iff, held_iff, ids_append]
  constructor
  · rintro ⟨id, hid, hmem⟩
    cases List.mem_append.mp hmem with
    | inl hmem => exact .inl ⟨id, hid, hmem⟩
    | inr hmem => exact .inr ⟨id, hid, hmem⟩
  · intro h
    cases h with
    | inl h =>
      obtain ⟨id, hid, hmem⟩ := h
      exact ⟨id, hid, List.mem_append_left _ hmem⟩
    | inr h =>
      obtain ⟨id, hid, hmem⟩ := h
      exact ⟨id, hid, List.mem_append_right _ hmem⟩

theorem push_output (hnodup : (ids (window ++ output)).Nodup) (seen : List ResponseItem) :
    output.foldl pushNew (window ++ seen) = window ++ seen ++ remaining seen output := by
  rw [ids_append] at hnodup
  obtain ⟨-, houtput, hdisjoint⟩ := List.nodup_append.mp hnodup
  rw [foldl_pushNew houtput, remaining]
  congr 1
  apply List.filter_congr
  intro item hitem
  rw [Bool.not_inj_iff, Bool.eq_iff_iff, held_append_iff]
  apply or_iff_right
  rw [held_iff]
  rintro ⟨id, hid, hmem⟩
  exact hdisjoint id hmem id (mem_ids hitem hid) rfl

theorem remaining_again : remaining (done ++ remaining done output) output = unnamed output := by
  apply List.filter_congr
  intro item hitem
  cases hid : item.id with
  | none =>
    have hnot : held (done ++ remaining done output) item = false := by
      rw [held, hid]
      rfl
    rw [hnot]
    rfl
  | some id =>
    have hheld : held (done ++ remaining done output) item = true := by
      rw [held_append_iff]
      cases hdone : held done item with
      | true => exact .inl rfl
      | false =>
        apply Or.inr
        apply held_iff.mpr
        exact ⟨id, hid, mem_ids (List.mem_filter.mpr ⟨hitem, by rw [hdone]; rfl⟩) hid⟩
    rw [hheld]
    rfl

theorem countP_remaining : (remaining done output).countP (fun item => item.id.isNone) =
    output.countP fun item => item.id.isNone := by
  rw [remaining, List.countP_filter]
  apply List.countP_congr
  intro item _
  rw [Bool.and_eq_true]
  refine ⟨fun h => h.1, fun h => ⟨h, ?_⟩⟩
  rw [held, Option.isNone_iff_eq_none.mp h]
  rfl

theorem countP_unnamed : (unnamed output).countP (fun item => item.id.isNone) =
    output.countP fun item => item.id.isNone := by
  rw [unnamed, List.countP_filter]
  simp

theorem isSome_of_countP (h : output.countP (fun item => item.id.isNone) = 0) : ∀ item ∈ output, item.id.isSome = true := by
  intro item hitem
  simpa [Option.isSome_iff_ne_none] using List.countP_eq_zero.mp h item hitem

theorem remaining_append {rest : List ResponseItem} (hnodup : (ids (done ++ rest)).Nodup)
    (hknown : ∀ item ∈ done, item.id.isSome = true) : remaining done (done ++ rest) = rest := by
  rw [remaining, List.filter_append, List.filter_eq_nil_iff.mpr, List.nil_append, List.filter_eq_self.mpr]
  · intro item hitem
    rw [Bool.not_eq_true', Bool.eq_false_iff, ne_eq, held_iff]
    rintro ⟨id, hid, hmem⟩
    rw [ids_append] at hnodup
    exact (List.nodup_append.mp hnodup).2.2 id hmem id (mem_ids hitem hid) rfl
  · intro item hitem
    obtain ⟨id, hid⟩ := Option.isSome_iff_exists.mp (hknown item hitem)
    rw [held_iff.mpr ⟨id, hid, mem_ids hitem hid⟩]
    decide

theorem once_iff (hnodup : (ids output).Nodup) :
    done ++ remaining done output = output ↔ done <+: output ∧ ∀ item ∈ done, item.id.isSome = true := by
  constructor
  · intro h
    refine ⟨⟨_, h⟩, isSome_of_countP ?_⟩
    have hcount := congrArg (List.countP fun item => item.id.isNone) h
    rw [List.countP_append, countP_remaining] at hcount
    omega
  · rintro ⟨⟨rest, rfl⟩, hknown⟩
    rw [remaining_append hnodup hknown]

theorem unnamed_eq_nil (h : ∀ item ∈ output, item.id.isSome = true) : unnamed output = [] := by
  apply List.filter_eq_nil_iff.mpr
  intro item hitem
  simpa [Option.isSome_iff_ne_none] using h item hitem

theorem twice_iff (hnodup : (ids output).Nodup) :
    done ++ remaining done output ++ unnamed output = output ↔
      (done <+: output ∧ ∀ item ∈ done, item.id.isSome = true) ∧ ∀ item ∈ output, item.id.isSome = true := by
  constructor
  · intro h
    have hcount := congrArg (List.countP fun item => item.id.isNone) h
    rw [List.countP_append, List.countP_append, countP_remaining, countP_unnamed] at hcount
    have hnamed := @isSome_of_countP output (by omega)
    rw [unnamed_eq_nil hnamed, List.append_nil] at h
    exact ⟨(once_iff hnodup).mp h, hnamed⟩
  · rintro ⟨honce, hnamed⟩
    rw [unnamed_eq_nil hnamed, List.append_nil]
    exact (once_iff hnodup).mpr honce

end Output

/-! A response, and a session of them. -/

namespace Round

variable (r : Round decode) {fingerprint : Text}

theorem increasing_last (event : ResponseStreamEvent) (h : event ∈ r.before) : number event < number r.last :=
  (List.pairwise_append.mp r.increasing).2.2 event h r.last List.mem_cons_self

theorem numbered_events (event : ResponseStreamEvent) (h : event ∈ r.events) :
    event.sequenceNumber = some (number event) := r.numbered event h

theorem number_le_last (event : ResponseStreamEvent) (h : event ∈ r.events) : number event ≤ number r.last := by
  cases List.mem_append.mp h with
  | inl hbefore => exact Nat.le_of_lt (r.increasing_last event hbefore)
  | inr hlast => exact Nat.le_of_eq (congrArg number (List.mem_singleton.mp hlast))

theorem doneFirst_subperm (mark : Option Nat) : (r.doneFirst mark).Subperm r.response.output :=
  (List.Sublist.filterMap _ List.filter_sublist).subperm.trans r.done_items

theorem doneFirst_eq_nil (h : r.reached mark = false) : r.doneFirst mark = [] := by
  have hpassed : passed mark (number r.last) = true := by
    rw [reached, Bool.not_eq_false'] at h
    exact h
  rw [doneFirst, List.filter_eq_nil_iff.mpr, List.filterMap_nil]
  intro event hevent
  rw [passed_le (Nat.le_of_lt (r.increasing_last event hevent)) hpassed]
  decide

theorem flatMap_payloadItems (mark : Option Nat) :
    (r.events.filter fun event => !passed mark (number event)).flatMap (payloadItems decode) =
      r.doneFirst mark ++ if r.reached mark then r.response.output else [] := by
  have hbefore : ∀ events : List ResponseStreamEvent, (∀ event ∈ events, event.kind ≠ .completed) →
      events.flatMap (payloadItems decode) = events.filterMap doneItem := by
    intro events hkinds
    induction events with
    | nil => rfl
    | cons event events ih =>
      obtain ⟨hkind, hkinds⟩ := List.forall_mem_cons.mp hkinds
      rw [List.flatMap_cons, ih hkinds, payloadItems, if_neg hkind, List.nil_append, List.filterMap_cons]
      cases doneItem event with
      | none => rfl
      | some item => rfl
  have hlast : payloadItems decode r.last = r.response.output := by
    rw [payloadItems, if_pos r.last_kind, r.decoded, doneItem, r.last_kind, if_neg (by decide)]
    exact List.append_nil _
  rw [events, List.filter_append, List.flatMap_append, doneFirst, hbefore]
  · congr 1
    cases hreached : passed mark (number r.last) with
    | true =>
      rw [List.filter_cons_of_neg (by rw [hreached]; decide), reached, hreached]
      rfl
    | false =>
      rw [List.filter_cons_of_pos (by rw [hreached]; rfl), reached, hreached]
      exact (List.append_nil _).trans hlast
  · intro event hevent
    exact r.before_kind event (List.mem_of_mem_filter hevent)

variable {s : ResponseSessionState}

theorem deliveries_eq : r.deliveries.foldl r.deliver s = r.events.foldl (takeEvent decode) s := by
  have hlength : r.events.length = r.before.length + 1 := by
    rw [events, List.length_append]
    rfl
  have h := @deliver_eq _ _ s r r.deliveries 0 (by rw [hlength]; exact r.reconnects) fun i _ hi => absurd hi (Nat.not_lt_zero i)
  rwa [List.drop_zero] at h

variable (hfingerprint : s.requestContextFingerprint = some fingerprint)
include hfingerprint

theorem play_eq : r.play fingerprint s =
      if r.recorded then (r.events.foldl (takeEvent decode) s).recordResponse r.response
      else r.events.foldl (takeEvent decode) s := by
  rw [play, invalidateIfContextChanged, if_pos hfingerprint, deliveries_eq]

theorem replayItems_play : (r.play fingerprint s).replayItems =
      (r.doneFirst s.lastSequenceNumber ++ (if r.reached s.lastSequenceNumber then r.response.output else []) ++
        if r.recorded then r.response.output else []).foldl pushNew s.replayItems := by
  have hevents := @replayItems_takeEvents _ decode s _ r.numbered r.increasing
  rw [← events, flatMap_payloadItems] at hevents
  rw [r.play_eq hfingerprint, List.foldl_append, ← hevents]
  cases r.recorded with
  | false => rfl
  | true =>
    rw [if_pos rfl, if_pos rfl, recordResponse, if_pos r.success]
    rfl

theorem settings_play : (r.play fingerprint s).mode = s.mode ∧
      (r.play fingerprint s).requestContextFingerprint = some fingerprint ∧
      (r.play fingerprint s).lastSequenceNumber = (r.events.foldl (takeEvent decode) s).lastSequenceNumber := by
  have hframe := @settings_takeEvents _ decode s r.events
  rw [hfingerprint] at hframe
  rw [r.play_eq hfingerprint]
  cases r.recorded with
  | false => exact ⟨hframe.1, hframe.2, rfl⟩
  | true =>
    rw [if_pos rfl, recordResponse, if_pos r.success]
    exact ⟨hframe.1, hframe.2, rfl⟩

theorem lastSequenceNumber_play : (r.play fingerprint s).lastSequenceNumber =
      if r.reached s.lastSequenceNumber then some (number r.last) else s.lastSequenceNumber := by
  rw [(r.settings_play hfingerprint).2.2]
  have hpassed : ∀ n, passed (r.events.foldl (takeEvent decode) s).lastSequenceNumber n = true ↔
      n ≤ number r.last ∨ passed s.lastSequenceNumber n = true := by
    intro n
    rw [passed_takeEvents_iff r.numbered_events]
    apply or_congr_left
    constructor
    · rintro ⟨event, hevent, hle⟩
      exact Nat.le_trans hle (r.number_le_last event hevent)
    · exact fun hle => ⟨r.last, List.mem_append_right _ List.mem_cons_self, hle⟩
  apply passed_ext
  intro n
  rw [hpassed]
  cases hreached : passed s.lastSequenceNumber (number r.last) with
  | true =>
    rw [reached, hreached]
    exact or_iff_right_of_imp fun hle => passed_le hle hreached
  | false =>
    rw [reached, hreached]
    change _ ↔ passed (some (number r.last)) n = true
    constructor
    · intro h
      apply passed_iff.mpr
      refine ⟨_, rfl, ?_⟩
      cases h with
      | inl hle => exact hle
      | inr hold =>
        apply Nat.le_of_not_lt
        intro hlt
        rw [passed_le (Nat.le_of_lt hlt) hold] at hreached
        cases hreached
    · intro h
      obtain ⟨last, hlast, hle⟩ := passed_iff.mp h
      cases hlast
      exact .inl hle

/-- After a response, the window is longer by its output exactly where the response is kept. -/
theorem play_window_iff (hids : (ids (s.replayItems ++ r.response.output)).Nodup) :
    (r.play fingerprint s).replayItems = s.replayItems ++ r.response.output ↔ r.Kept s.lastSequenceNumber := by
  have houtput : (ids r.response.output).Nodup := by
    rw [ids_append] at hids
    exact (List.nodup_append.mp hids).2.1
  have hdone := push_done hids (r.doneFirst_subperm s.lastSequenceNumber)
  have hfirst := push_output hids (r.doneFirst s.lastSequenceNumber)
  have hkept : r.Kept s.lastSequenceNumber ↔
      (r.reached s.lastSequenceNumber = true ∨ r.recorded = true ∨ r.response.output = []) ∧
      (r.doneFirst s.lastSequenceNumber <+: r.response.output ∧
        ∀ item ∈ r.doneFirst s.lastSequenceNumber, item.id.isSome = true) ∧
      (r.reached s.lastSequenceNumber = true → r.recorded = true →
        ∀ item ∈ r.response.output, item.id.isSome = true) :=
    ⟨fun h => ⟨h.taken, ⟨h.in_order, h.known⟩, h.once⟩, fun h => ⟨h.1, h.2.1.1, h.2.1.2, h.2.2⟩⟩
  rw [r.replayItems_play hfingerprint, List.foldl_append, List.foldl_append, hdone, hkept]
  cases hreached : r.reached s.lastSequenceNumber with
  | true =>
    rw [if_pos rfl, hfirst]
    cases hrecorded : r.recorded with
    | true =>
      have hagain := push_output hids (r.doneFirst s.lastSequenceNumber ++
        remaining (r.doneFirst s.lastSequenceNumber) r.response.output)
      rw [← List.append_assoc, remaining_again] at hagain
      rw [if_pos rfl, hagain, List.append_assoc, List.append_assoc, List.append_cancel_left_eq, ← List.append_assoc,
        twice_iff houtput]
      simp
    | false =>
      rw [if_neg Bool.false_ne_true, List.foldl_nil, List.append_assoc, List.append_cancel_left_eq, once_iff houtput]
      simp
  | false =>
    rw [r.doneFirst_eq_nil hreached] at hfirst ⊢
    have hremaining : remaining [] r.response.output = r.response.output := remaining_append houtput (by simp)
    rw [List.append_nil, hremaining] at hfirst
    rw [if_neg Bool.false_ne_true, List.foldl_nil, List.append_nil]
    cases hrecorded : r.recorded with
    | true =>
      rw [if_pos rfl, hfirst]
      simp
    | false =>
      rw [if_neg Bool.false_ne_true, List.foldl_nil]
      simp

end Round

section Session

variable (fingerprint : Text) (steps : List (SessionStep decode))

theorem session_settings :
    (session decode fingerprint steps).mode = .localReplay ∧
      (session decode fingerprint steps).requestContextFingerprint = some fingerprint ∧
      (session decode fingerprint steps).lastSequenceNumber = watermark steps := by
  induction steps using List.reverseRecOn with
  | nil => exact ⟨rfl, rfl, rfl⟩
  | append_singleton steps step ih =>
    rw [session, List.foldl_concat, watermark, List.foldl_concat]
    cases step with
    | compact items => exact ⟨ih.1, ih.2.1, rfl⟩
    | round r =>
      have hframe := r.settings_play ih.2.1
      refine ⟨hframe.1.trans ih.1, hframe.2.1, (r.lastSequenceNumber_play ih.2.1).trans ?_⟩
      rw [ih.2.2]
      rfl

theorem replays_iff : Replays fingerprint steps ↔
    (session decode fingerprint steps).replayItems = conversation steps := by
  constructor
  · exact Replays.window
  · intro hwindow
    refine ⟨hwindow, ?_, ?_⟩
    · rintro earlier r rfl event hevent
      apply recordEvent_passed (r.numbered event hevent)
      obtain ⟨-, hfingerprint, -⟩ := session_settings fingerprint earlier
      rw [session, List.foldl_concat]
      change passed (r.play fingerprint (session decode fingerprint earlier)).lastSequenceNumber _ = true
      rw [(r.settings_play hfingerprint).2.2, passed_takeEvents_iff r.numbered_events]
      exact .inl ⟨event, hevent, Nat.le_refl _⟩
    · intro X request transport hbackground
      obtain ⟨hmode, -, -⟩ := session_settings fingerprint steps
      rw [prepareRequest, hmode, hwindow]
      simp only
      rw [if_neg hbackground]
      refine ⟨_, rfl, ?_⟩
      simp only [prependReplayItems]
      cases hitems : conversation steps with
      | nil => rfl
      | cons item items =>
        rw [if_neg (by simp)]
        cases hinput : request.input with
        | none => simp [inputItems]
        | some value =>
          cases value <;> simp [inputItems]

end Session

/-- The local window is the conversation after every step of a session exactly when every response is kept. -/
theorem replay_window_iff (decode : Decode E) (fingerprint : Text) (steps : List (SessionStep decode))
    (hids : DistinctIds steps) :
    (∀ done rest, steps = done ++ rest → Replays fingerprint done) ↔
      ∀ done r rest, steps = done ++ .round r :: rest → r.Kept (watermark done) := by
  simp only [replays_iff]
  have hstep : ∀ done r rest, steps = done ++ .round r :: rest →
      (session decode fingerprint done).replayItems = conversation done →
      ((session decode fingerprint (done ++ [.round r])).replayItems = conversation (done ++ [.round r]) ↔
        r.Kept (watermark done)) := by
    intro done r rest hsteps hwindow
    obtain ⟨-, hfingerprint, hmark⟩ := session_settings fingerprint done
    have hnodup := hids (done ++ [.round r]) rest (by rw [hsteps, List.append_assoc]; rfl)
    rw [conversation, List.foldl_concat] at hnodup
    rw [session, List.foldl_concat, conversation, List.foldl_concat]
    change (r.play fingerprint (session decode fingerprint done)).replayItems = conversation done ++ _ ↔ _
    rw [← hmark, ← hwindow]
    exact r.play_window_iff hfingerprint (by rw [hwindow]; exact hnodup)
  constructor
  · intro hall done r rest hsteps
    apply (hstep done r rest hsteps (hall done _ hsteps)).mp
    exact hall (done ++ [.round r]) rest (by rw [hsteps, List.append_assoc]; rfl)
  · intro hall done
    induction done using List.reverseRecOn with
    | nil => exact fun _ _ => rfl
    | append_singleton done step ih =>
      intro rest hsteps
      rw [List.append_assoc] at hsteps
      cases step with
      | round r => exact (hstep done r rest hsteps (ih _ hsteps)).mpr (hall done r rest hsteps)
      | compact items =>
        rw [session, List.foldl_concat, conversation, List.foldl_concat]
        rfl

/-! A response with one message, which has no id. -/

def message : ResponseItem := ⟨"message".toList, none, none, none, none, .object [("type", .string "message".toList)]⟩

def greeting : ResponseObject := ⟨"resp_1".toList, "completed".toList, [message], none⟩

def decodeGreeting : Decode Unit := fun _ => .ok greeting

def completedEvent : ResponseStreamEvent where
  kind := .completed
  sequenceNumber := some 0
  responseId := some "resp_1".toList
  outputIndex := none
  raw := .object [("response", .object [("id", .string "resp_1".toList), ("output", .array [message.raw]),
    ("status", .string "completed".toList)]), ("type", .string "response.completed".toList)]

theorem decoded_greeting : completedEvent.response decodeGreeting = some (.ok greeting) := by
  have hfield : (field "response" completedEvent.raw).isSome = true := by decide +kernel
  obtain ⟨raw, hraw⟩ := Option.isSome_iff_exists.mp hfield
  rw [ResponseStreamEvent.response, hraw]
  rfl

def greeted (recorded : Bool) : Round decodeGreeting where
  before := []
  last := completedEvent
  response := greeting
  deliveries := [0]
  recorded
  before_kind := fun _ h => absurd h List.not_mem_nil
  last_kind := rfl
  decoded := decoded_greeting
  success := by decide +kernel
  numbered := fun event h => by rw [List.mem_singleton.mp h]; rfl
  increasing := List.pairwise_singleton _ _
  done_items := List.nil_subperm
  reconnects := ⟨Nat.le_refl 0, Nat.zero_lt_one, rfl⟩

theorem replay_window_iff_greeted : Replays [] [.round (greeted false)] := by
  apply (replay_window_iff decodeGreeting [] [.round (greeted false)] ?_).mpr ?_ _ [] rfl
  · rintro (_ | ⟨step, _ | ⟨next, done⟩⟩) rest hsteps
    · exact List.nodup_nil
    · cases hsteps
      exact List.nodup_nil
    · cases hsteps
  · rintro (_ | ⟨step, done⟩) r rest hsteps
    · cases hsteps
      exact ⟨.inl rfl, List.nil_prefix, fun _ h => absurd h List.not_mem_nil, nofun⟩
    · obtain ⟨-, hrest⟩ := List.cons.inj hsteps
      cases done <;> cases hrest

theorem greeting_recorded_twice :
    ¬Replays [] [.round (greeted true)] ∧
      (session decodeGreeting [] [.round (greeted true)]).replayItems.length = 2 := by
  have hlength : (session decodeGreeting [] [.round (greeted true)]).replayItems.length = 2 := by decide +kernel
  refine ⟨?_, hlength⟩
  intro h
  rw [h.window] at hlength
  exact absurd hlength (by decide)

end InfiniShell.AgentProviders.Responses
