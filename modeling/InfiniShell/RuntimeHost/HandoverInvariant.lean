import InfiniShell.RuntimeHost.HandoverRequests
import InfiniShell.RuntimeHost.JournalMemory

namespace InfiniShell.RuntimeHost

open Relation

section Events

variable {codec : Codec} {torn : Bool} {p p' : Past} {w : World} {move : Move} {events more : List HostedEvent}

def Numbered (events : List HostedEvent) : Prop := events.map HostedEvent.sequence = List.range' 1 events.length

variable {hosted : HostedEvent}

theorem Numbered.mem_le (h : Numbered events) (hmem : hosted ∈ events) :
    0 < hosted.sequence ∧ hosted.sequence ≤ events.length := by
  have hsequence := List.mem_map_of_mem (f := HostedEvent.sequence) hmem
  rw [h, List.mem_range'_1] at hsequence
  omega

theorem Numbered.unique (h : Numbered events) {a b : HostedEvent} (ha : a ∈ events) (hb : b ∈ events)
    (hsame : a.sequence = b.sequence) : a = b := by
  have hnodup : (events.map HostedEvent.sequence).Nodup := h ▸ List.nodup_range'
  exact List.inj_on_of_nodup_map hnodup ha hb hsame

theorem Numbered.old (h : Numbered (events ++ more)) (hmem : hosted ∈ events ++ more)
    (hle : hosted.sequence ≤ events.length) : hosted ∈ events := by
  cases List.mem_append.mp hmem with
  | inl hold => exact hold
  | inr hnew =>
    have hsuffix : more.map HostedEvent.sequence = List.range' (1 + events.length) more.length := by
      have hdrop := congrArg (List.drop events.length) h
      rw [List.map_append, List.drop_left' (List.length_map _), List.drop_range', List.length_append,
        Nat.add_sub_cancel_left, Nat.mul_one] at hdrop
      exact hdrop
    have hsequence := List.mem_map_of_mem (f := HostedEvent.sequence) hnew
    rw [hsuffix, List.mem_range'_1] at hsequence
    omega

theorem Change.events_extend (h : Change codec torn p p') : p.1.events <+: p'.1.events := by
  cases h with
  | event s trace hosted => exact List.prefix_append _ _
  | _ => exact List.prefix_rfl

theorem Changes.events_extend (h : Changes codec torn p p') : p.1.events <+: p'.1.events := by
  induction h with
  | refl => exact List.prefix_rfl
  | tail _ hlast ih => exact ih.trans hlast.events_extend

structure World.Extends (codec : Codec) (w w' : World) : Prop where
  remembers : w'.Remembers codec
  record : w'.record = w.record
  events : w.state.events <+: w'.state.events
  exited : w.hostExit.isSome = true → w'.hostExit.isSome = true

theorem World.Remembers.extends_refl (h : w.Remembers codec) : w.Extends codec w := ⟨h, rfl, List.prefix_rfl, id⟩

theorem World.Remembers.extends_step (hlawful : codec.Lawful) (h : w.Remembers codec) :
    w.Extends codec (w.step codec move).1 := by
  have hcalls : w.CallsSound codec := h.elim fun _ hrecoverable => hrecoverable.calls
  have hstep : Changes codec true w.past (w.step codec move).1.past ∧ (w.step codec move).1.CallsSound codec :=
    World.step_changes hcalls nofun
  obtain ⟨hrecord, hexit⟩ := World.step_frame codec w move
  refine ⟨h.step hlawful, hrecord, hstep.1.events_extend, fun hsome => ?_⟩
  cases hexit with
  | inr hsame => exact hsame ▸ hsome
  | inl hexit =>
    obtain ⟨evidence, haction⟩ := hexit
    have hstep : (w.step codec move).1 = w.writeExitReceipt codec evidence := by
      rw [World.step]
      dsimp only
      rw [haction]
    rw [hstep, World.writeExitReceipt]
    simp [hsome]

theorem World.Remembers.numbered (h : w.Remembers codec) : Numbered w.state.events :=
  h.elim fun _ hrecoverable => hrecoverable.synced.numbered

theorem World.Remembers.lastEventSequence_eq (h : w.Remembers codec) :
    w.state.lastEventSequence = w.state.events.length :=
  h.elim fun _ hrecoverable => hrecoverable.synced.lastEventSequence_eq

theorem World.Remembers.acknowledged_le (h : w.Remembers codec) :
    w.state.acknowledgedSequence ≤ w.state.events.length :=
  h.elim fun _ hrecoverable => hrecoverable.synced.acknowledged_le

end Events

namespace Handover

/-- Every event up to `n` has been handed to the commit function by someone. -/
structure Handed (s : Handover) (n : Nat) : Prop where
  recorded : n ≤ s.world.state.events.length
  handed : ∀ hosted ∈ s.world.state.events, hosted.sequence ≤ n → ∃ c ∈ s.consumers, hosted ∈ c.handed

/-- Events of the host, numbered without a gap from the one after `after`. -/
structure Follows (s : Handover) (after : Nat) (hosted : List HostedEvent) : Prop where
  recorded : ∀ event ∈ hosted, event ∈ s.world.state.events
  sequence : hosted.map HostedEvent.sequence = List.range' (after + 1) hosted.length

/-- No event that was handed over is forgotten. -/
structure Grows (codec : Codec) (s s' : Handover) : Prop where
  world : s.world.Extends codec s'.world
  consumers : ∀ c ∈ s.consumers, ∃ c' ∈ s'.consumers, ∀ hosted ∈ c.handed, hosted ∈ c'.handed

variable {codec : Codec} {s s' : Handover} {n m : Nat} {hosted : HostedEvent} {rest : List HostedEvent}

theorem Handed.mono (h : s.Handed n) (hle : m ≤ n) : s.Handed m :=
  ⟨hle.trans h.recorded, fun hosted hmem hm => h.handed hosted hmem (hm.trans hle)⟩

theorem Handed.grow (h : s.Handed n) (hgrows : s.Grows codec s') : s'.Handed n := by
  have hnumbered := hgrows.world.remembers.numbered
  obtain ⟨more, hevents⟩ := hgrows.world.events
  refine ⟨h.recorded.trans hgrows.world.events.length_le, fun hosted hmem hle => ?_⟩
  rw [← hevents] at hnumbered hmem
  obtain ⟨c, hc, hhanded⟩ := h.handed hosted (hnumbered.old hmem (hle.trans h.recorded)) hle
  obtain ⟨c', hc', hkeeps⟩ := hgrows.consumers c hc
  exact ⟨c', hc', hkeeps hosted hhanded⟩

theorem Follows.grow (h : s.Follows n rest) (hgrows : s.Grows codec s') : s'.Follows n rest :=
  ⟨fun event hmem => hgrows.world.events.subset (h.recorded event hmem), h.sequence⟩

theorem Follows.head (h : s.Follows n (hosted :: rest)) : hosted.sequence = n + 1 := by
  have hsequence := h.sequence
  rw [List.map_cons, List.length_cons, List.range'_succ] at hsequence
  exact (List.cons.inj hsequence).1

theorem Follows.tail (h : s.Follows n (hosted :: rest)) : s.Follows (n + 1) rest := by
  have hsequence := h.sequence
  rw [List.map_cons, List.length_cons, List.range'_succ] at hsequence
  exact ⟨fun event hmem => h.recorded event (List.mem_cons_of_mem _ hmem), (List.cons.inj hsequence).2⟩

theorem Follows.nil : s.Follows n [] := ⟨fun _ h => absurd h List.not_mem_nil, rfl⟩

theorem Follows.concat (h : s.Follows n rest) (hmem : hosted ∈ s.world.state.events)
    (hnext : hosted.sequence = n + rest.length + 1) : s.Follows n (rest ++ [hosted]) := by
  constructor
  · intro event hevent
    cases List.mem_append.mp hevent with
    | inl hold => exact h.recorded event hold
    | inr hnew => exact List.mem_singleton.mp hnew ▸ hmem
  · rw [List.map_append, h.sequence, List.length_append, List.length_singleton, List.range'_concat, List.map_singleton,
      hnext, Nat.one_mul]
    have hsum : n + rest.length + 1 = n + 1 + rest.length := by omega
    rw [hsum]

theorem Handed.next (h : s.Handed n) (hnumbered : Numbered s.world.state.events)
    (hmem : hosted ∈ s.world.state.events) (hnext : hosted.sequence = n + 1)
    (hhanded : ∃ c ∈ s.consumers, hosted ∈ c.handed) : s.Handed (n + 1) := by
  constructor
  · have hle := (hnumbered.mem_le hmem).2
    omega
  · intro other hother hle
    by_cases hold : other.sequence ≤ n
    · exact h.handed other hother hold
    · have hsame : other.sequence = hosted.sequence := by omega
      exact hnumbered.unique hother hmem hsame ▸ hhanded

end Handover

def Consumer.reached (c : Consumer) : Nat := c.watermark + c.handed.length

/-- Every pull of a catch-up has handed an event over, but for `pending` of them. -/
def Consumer.CatchesUp (c : Consumer) (link : Link) (pending : Nat) : Prop :=
  ∀ through, link.catchUpThrough = some through → through = c.target ∧ c.rounds ≤ c.handed.length + pending

/-- What a consumer knows when it is about to do something. -/
def ConsumerState.Sound (s : Handover) (c : Consumer) : ConsumerState → Prop
  | .inspecting _ _ | .claiming _ _ _ => c.handed = [] ∧ c.rounds = 0
  | .pulling link => link.cursor = c.reached ∧ s.Handed c.reached ∧ c.CatchesUp link 0
  | .reading link hosted progressed => link.cursor = c.reached ∧ s.Handed c.reached ∧ s.Follows c.reached hosted ∧
      c.CatchesUp link (if progressed then 0 else 1)
  | .committed link sequence hosted => link.cursor + 1 = c.reached ∧ sequence = c.reached ∧ s.Handed c.reached ∧
      s.Follows c.reached hosted ∧ c.CatchesUp link 0
  | .recovering hosted unsaved => s.world.hostExit.isSome = true ∧ s.Handed c.reached ∧ s.Follows c.reached hosted ∧
      ∀ recovered, unsaved = some recovered → recovered ≤ c.reached
  | .saving sequence hosted unsaved => s.world.hostExit.isSome = true ∧ sequence = c.reached ∧ s.Handed c.reached ∧
      s.Follows c.reached hosted ∧ ∀ recovered, unsaved = some recovered → recovered ≤ c.reached
  | .ended => True

structure Consumer.Sound (s : Handover) (c : Consumer) : Prop where
  handed : s.Follows c.watermark c.handed
  rounds : c.rounds ≤ c.target - c.watermark
  state : c.state.Sound s c

/-- What holds of the hand-over at every moment. -/
structure Handover.Sound (codec : Codec) (s : Handover) : Prop where
  world : s.world.Remembers codec
  acknowledged : s.Handed s.world.state.acknowledgedSequence
  saved : ∀ checkpoint ∈ s.saved, checkpoint.runtimeGeneration = s.world.record.manifest.runtimeGeneration →
    s.world.hostExit.isSome = true ∧ s.Handed checkpoint.recoveredThrough
  consumers : ∀ c ∈ s.consumers, c.Sound s

section Grow

variable {codec : Codec} {s s' : Handover} {c : Consumer} {state : ConsumerState}

theorem ConsumerState.Sound.grow (h : state.Sound s c) (hgrows : s.Grows codec s') : state.Sound s' c := by
  cases state with
  | inspecting | claiming => exact h
  | pulling link => exact ⟨h.1, h.2.1.grow hgrows, h.2.2⟩
  | reading link hosted progressed => exact ⟨h.1, h.2.1.grow hgrows, h.2.2.1.grow hgrows, h.2.2.2⟩
  | committed link sequence hosted => exact ⟨h.1, h.2.1, h.2.2.1.grow hgrows, h.2.2.2.1.grow hgrows, h.2.2.2.2⟩
  | recovering hosted unsaved =>
    exact ⟨hgrows.world.exited h.1, h.2.1.grow hgrows, h.2.2.1.grow hgrows, h.2.2.2⟩
  | saving sequence hosted unsaved =>
    exact ⟨hgrows.world.exited h.1, h.2.1, h.2.2.1.grow hgrows, h.2.2.2.1.grow hgrows, h.2.2.2.2⟩
  | ended => trivial

theorem Consumer.Sound.grow (h : c.Sound s) (hgrows : s.Grows codec s') : c.Sound s' :=
  ⟨h.handed.grow hgrows, h.rounds, h.state.grow hgrows⟩

theorem Consumer.Sound.become (h : c.Sound s) (hstate : state.Sound s (c.become state)) :
    (c.become state).Sound s :=
  ⟨h.handed, h.rounds, hstate⟩

theorem Handover.Sound.grow (h : s.Sound codec) (hgrows : s.Grows codec s')
    (hacknowledged : s'.world.state.acknowledgedSequence = s.world.state.acknowledgedSequence ∨
      s'.Handed s'.world.state.acknowledgedSequence)
    (hsaved : ∀ checkpoint ∈ s'.saved, checkpoint ∈ s.saved ∨
      s'.world.hostExit.isSome = true ∧ s'.Handed checkpoint.recoveredThrough)
    (hconsumers : ∀ c ∈ s'.consumers, c ∈ s.consumers ∨ c.Sound s') : s'.Sound codec where
  world := hgrows.world.remembers
  acknowledged := by
    cases hacknowledged with
    | inl hsame => exact hsame ▸ h.acknowledged.grow hgrows
    | inr hnew => exact hnew
  saved := by
    intro checkpoint hmem hgeneration
    cases hsaved checkpoint hmem with
    | inl hold =>
      rw [hgrows.world.record] at hgeneration
      obtain ⟨hexited, hhanded⟩ := h.saved checkpoint hold hgeneration
      exact ⟨hgrows.world.exited hexited, hhanded.grow hgrows⟩
    | inr hnew => exact hnew
  consumers := by
    intro c hmem
    cases hconsumers c hmem with
    | inl hold => exact (h.consumers c hold).grow hgrows
    | inr hnew => exact hnew

end Grow

end InfiniShell.RuntimeHost
