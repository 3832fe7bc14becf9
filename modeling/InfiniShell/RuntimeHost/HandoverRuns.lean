import InfiniShell.RuntimeHost.HandoverInvariant

namespace InfiniShell.RuntimeHost

section Requests

variable {codec : Codec} {w : World} {c : Consumer} {clientId : Uuid} {link : Link} {reattached : Bool}
  {faults : List WriteFault}

theorem Consumer.inspect_cases (codec : Codec) (w : World) (c : Consumer) (clientId : Uuid) (reattached : Bool)
    (faults : List WriteFault) :
    ∃ state, c.inspect codec w clientId reattached faults =
      ((w.step codec ⟨.request (.inspect w.credentials), faults⟩).1, c.become state) ∧
      (state = .ended ∨ ∃ observedEpoch, state = .claiming clientId reattached observedEpoch) := by
  rw [Consumer.inspect]
  split
  · rename_i w' hostInstanceId ownerEpoch last acknowledged snapshot hstep
    rw [hstep]
    exact ⟨_, rfl, .inr ⟨ownerEpoch, rfl⟩⟩
  · rename_i w' outcome hother hstep
    rw [hstep]
    exact ⟨_, rfl, .inl rfl⟩

theorem Consumer.claim_cases (codec : Codec) (w : World) (c : Consumer) (clientId : Uuid) (reattached : Bool)
    (observedEpoch : Nat) (faults : List WriteFault) :
    let w' := (w.step codec ⟨.request (.claimOwner w.credentials observedEpoch clientId), faults⟩).1
    c.claim codec w clientId reattached observedEpoch faults = (w', c.become .ended) ∨
      ∃ ownerEpoch, c.claim codec w clientId reattached observedEpoch faults =
        (w', { c with
          watermark := w'.state.acknowledgedSequence
          target := w'.state.lastEventSequence
          state := .pulling ⟨ownerEpoch, clientId, if reattached then some w'.state.lastEventSequence else none,
            w'.state.acknowledgedSequence⟩ }) := by
  intro w'
  rw [Consumer.claim]
  split
  · rename_i v ownerEpoch last acknowledged snapshot hstep
    obtain ⟨hlast, hacknowledged⟩ := World.step_claim (congrArg Prod.snd hstep)
    have hworld : w' = v := congrArg Prod.fst hstep
    rw [hstep] at hlast hacknowledged
    subst hworld
    dsimp only at hlast hacknowledged
    rw [hlast, hacknowledged]
    exact .inr ⟨ownerEpoch, rfl⟩
  · rename_i v outcome hother hstep
    have hworld : w' = v := congrArg Prod.fst hstep
    exact .inl (hworld ▸ rfl)

def World.pullStep (codec : Codec) (w : World) (link : Link) (faults : List WriteFault) : World :=
  (w.step codec ⟨.request (.pullEvents (w.ownerCredentials link) link.cursor), faults⟩).1

theorem Consumer.pull_cases (codec : Codec) (w : World) (c : Consumer) (link : Link) (faults : List WriteFault) :
    (∃ state, (c.pull codec w link faults = (w, c.become state) ∨
        c.pull codec w link faults = (w.pullStep codec link faults, c.become state)) ∧
      (state = .ended ∨ state = .pulling { link with catchUpThrough := none })) ∨
    ∃ rounds, c.pull codec w link faults = (w.pullStep codec link faults, { c with
        rounds := rounds
        state := .reading link (((w.pullStep codec link faults).state.events.filter
          fun event => event.sequence > link.cursor).take maxPullEvents) false }) ∧
      (link.catchUpThrough = none ∧ rounds = c.rounds ∨
        ∃ through, link.catchUpThrough = some through ∧ link.cursor < through ∧ rounds = c.rounds + 1) := by
  rw [Consumer.pull]
  split
  · rename_i through hthrough
    split
    · rename_i hlt
      split
      · rename_i v hosted hstep
        have hhosted := World.step_pull (congrArg Prod.snd hstep)
        have hworld : w.pullStep codec link faults = v := congrArg Prod.fst hstep
        rw [hstep] at hhosted
        subst hworld
        exact .inr ⟨c.rounds + 1, hhosted ▸ rfl, .inr ⟨through, hthrough, hlt, rfl⟩⟩
      · rename_i v outcome hother hstep
        have hworld : w.pullStep codec link faults = v := congrArg Prod.fst hstep
        exact .inl ⟨.ended, .inr (hworld ▸ rfl), .inl rfl⟩
    · split
      · exact .inl ⟨_, .inl rfl, .inr rfl⟩
      · exact .inl ⟨_, .inl rfl, .inl rfl⟩
  · rename_i hnone
    split
    · rename_i v hosted hstep
      have hhosted := World.step_pull (congrArg Prod.snd hstep)
      have hworld : w.pullStep codec link faults = v := congrArg Prod.fst hstep
      rw [hstep] at hhosted
      subst hworld
      exact .inr ⟨c.rounds, hhosted ▸ rfl, .inl ⟨hnone, rfl⟩⟩
    · rename_i v outcome hother hstep
      have hworld : w.pullStep codec link faults = v := congrArg Prod.fst hstep
      exact .inl ⟨.ended, .inr (hworld ▸ rfl), .inl rfl⟩

theorem Consumer.acknowledge_cases (codec : Codec) (w : World) (c : Consumer) (link : Link) (sequence : Nat)
    (hosted : List HostedEvent) (faults : List WriteFault) :
    ∃ state, c.acknowledge codec w link sequence hosted faults =
      ((w.step codec ⟨.request (.ackEvents (w.ownerCredentials link) sequence), faults⟩).1, c.become state) ∧
      (state = .ended ∨ state = .reading { link with cursor := sequence } hosted true) := by
  rw [Consumer.acknowledge]
  split
  · rename_i v actual hstep
    rw [hstep]
    split
    · exact ⟨_, rfl, .inr rfl⟩
    · exact ⟨_, rfl, .inl rfl⟩
  · rename_i v outcome hother hstep
    rw [hstep]
    exact ⟨_, rfl, .inl rfl⟩

end Requests

section Steps

variable {codec : Codec} {s s' : Handover} {i : Nat} {c c' : Consumer} {faults : List WriteFault}

theorem Handover.grows_set (hget : s.consumers[i]? = some c) (hworld : s.world.Extends codec s'.world)
    (hconsumers : s'.consumers = s.consumers.set i c') (hhanded : ∀ hosted ∈ c.handed, hosted ∈ c'.handed) :
    s.Grows codec s' := by
  obtain ⟨hi, hgetElem⟩ := List.getElem?_eq_some_iff.mp hget
  refine ⟨hworld, fun other hother => ?_⟩
  obtain ⟨j, hj, rfl⟩ := List.getElem_of_mem hother
  rw [hconsumers]
  by_cases heq : i = j
  · subst heq
    exact ⟨c', List.mem_set hi c', hgetElem ▸ hhanded⟩
  · refine ⟨s.consumers[j], ?_, fun _ => id⟩
    exact List.mem_iff_getElem.mpr ⟨j, by simpa using hj, List.getElem_set_ne heq _⟩

theorem Handover.Sound.set (h : s.Sound codec) (hgrows : s.Grows codec s')
    (hconsumers : s'.consumers = s.consumers.set i c') (hsound : c'.Sound s')
    (hacknowledged : s'.world.state.acknowledgedSequence = s.world.state.acknowledgedSequence ∨
      s'.Handed s'.world.state.acknowledgedSequence)
    (hsaved : ∀ checkpoint ∈ s'.saved, checkpoint ∈ s.saved ∨
      s'.world.hostExit.isSome = true ∧ s'.Handed checkpoint.recoveredThrough) : s'.Sound codec := by
  refine h.grow hgrows hacknowledged hsaved fun other hmem => ?_
  rw [hconsumers] at hmem
  cases List.mem_or_eq_of_mem_set hmem with
  | inl hold => exact .inl hold
  | inr hnew => exact .inr (hnew ▸ hsound)

theorem Handover.Sound.request (h : s.Sound codec) (hget : s.consumers[i]? = some c) {w' : World}
    (hworld : s.world.Extends codec w') (hwatermark : w'.state.acknowledgedSequence = s.world.state.acknowledgedSequence)
    (hhanded : ∀ hosted ∈ c.handed, hosted ∈ c'.handed)
    (hsound : s.Grows codec (s.setWorld i (w', c')) → c'.Sound (s.setWorld i (w', c'))) :
    (s.setWorld i (w', c')).Sound codec := by
  have hgrows : s.Grows codec (s.setWorld i (w', c')) := Handover.grows_set hget hworld rfl hhanded
  exact h.set hgrows rfl (hsound hgrows) (.inl hwatermark) fun _ => .inl

theorem Handover.Sound.setConsumer (h : s.Sound codec) (hget : s.consumers[i]? = some c)
    (hhanded : ∀ hosted ∈ c.handed, hosted ∈ c'.handed)
    (hsound : s.Grows codec (s.setConsumer i c') → c'.Sound (s.setConsumer i c')) : (s.setConsumer i c').Sound codec := by
  have hgrows : s.Grows codec (s.setConsumer i c') := Handover.grows_set hget h.world.extends_refl rfl hhanded
  exact h.set hgrows rfl (hsound hgrows) (.inl rfl) fun _ => .inl

theorem Handover.Sound.consumer (h : s.Sound codec) (hget : s.consumers[i]? = some c) : c.Sound s :=
  h.consumers c (List.mem_of_getElem? hget)

variable {clientId : Uuid} {reattached : Bool}

theorem Handover.Sound.inspect (hlawful : codec.Lawful) (h : s.Sound codec) (hget : s.consumers[i]? = some c) (hstate : c.state = .inspecting clientId reattached) :
    (s.setWorld i (c.inspect codec s.world clientId reattached faults)).Sound codec := by
  have hc := h.consumer hget
  have hfresh := hc.state
  rw [hstate] at hfresh
  obtain ⟨state, hinspect, hnext⟩ := c.inspect_cases codec s.world clientId reattached faults
  rw [hinspect]
  refine h.request hget (h.world.extends_step hlawful) (World.step_watermark codec nofun) (fun _ => id) fun hgrows => ?_
  refine (hc.grow hgrows).become ?_
  cases hnext with
  | inl hended =>
    rw [hended]
    trivial
  | inr hclaiming =>
    obtain ⟨observedEpoch, rfl⟩ := hclaiming
    exact hfresh

theorem Handover.Sound.claim (hlawful : codec.Lawful) (h : s.Sound codec) (hget : s.consumers[i]? = some c) {observedEpoch : Nat}
    (hstate : c.state = .claiming clientId reattached observedEpoch) :
    (s.setWorld i (c.claim codec s.world clientId reattached observedEpoch faults)).Sound codec := by
  have hc := h.consumer hget
  have hfresh := hc.state
  rw [hstate] at hfresh
  obtain ⟨hhanded, hrounds⟩ := hfresh
  have hwatermark : (s.world.step codec ⟨.request (.claimOwner s.world.credentials observedEpoch clientId),
      faults⟩).1.state.acknowledgedSequence = s.world.state.acknowledgedSequence := World.step_watermark codec nofun
  cases c.claim_cases codec s.world clientId reattached observedEpoch faults with
  | inl hended =>
    rw [hended]
    exact h.request hget (h.world.extends_step hlawful) hwatermark (fun _ => id) fun hgrows => (hc.grow hgrows).become trivial
  | inr hclaimed =>
    obtain ⟨ownerEpoch, hclaim⟩ := hclaimed
    rw [hclaim]
    refine h.request hget (h.world.extends_step hlawful) hwatermark (fun _ => id) fun hgrows => ?_
    have hall := h.acknowledged.grow hgrows
    rw [← hwatermark] at hall
    refine ⟨?_, ?_, ?_⟩
    · dsimp only
      rw [hhanded]
      exact Handover.Follows.nil
    · dsimp only
      rw [hrounds]
      exact Nat.zero_le _
    · refine ⟨?_, ?_, ?_⟩
      · simp [Consumer.reached, hhanded]
      · simpa [Consumer.reached, hhanded] using hall
      · intro through hthrough
        dsimp only at hthrough
        split at hthrough
        · refine ⟨(Option.some.inj hthrough).symm, ?_⟩
          dsimp only
          omega
        · cases hthrough

theorem Handover.follows_pull {n : Nat} (hnumbered : Numbered s.world.state.events) :
    s.Follows n ((s.world.state.events.filter fun event => event.sequence > n).take maxPullEvents) := by
  constructor
  · intro event hmem
    exact List.mem_of_mem_filter (List.mem_of_mem_take hmem)
  · rw [filter_numbered hnumbered (Nat.le_add_left 1 n), Nat.add_sub_cancel, List.map_take, List.map_drop, hnumbered,
      List.drop_range', Nat.mul_one, Nat.add_comm 1 n, List.length_take, List.length_drop]
    cases Nat.le_total maxPullEvents (s.world.state.events.length - n) with
    | inl hmany => rw [List.take_range'_of_length_ge hmany, min_eq_left hmany]
    | inr hfew => rw [List.take_range'_of_length_le hfew, min_eq_right hfew]

variable {link : Link}

theorem Handover.Sound.pull (hlawful : codec.Lawful) (h : s.Sound codec) (hget : s.consumers[i]? = some c)
    (hstate : c.state = .pulling link) : (s.setWorld i (c.pull codec s.world link faults)).Sound codec := by
  have hc := h.consumer hget
  have hpulling := hc.state
  rw [hstate] at hpulling
  obtain ⟨hcursor, hhanded, hcatch⟩ := hpulling
  have hextends : s.world.Extends codec (s.world.pullStep codec link faults) := h.world.extends_step hlawful
  have hwatermark : (s.world.pullStep codec link faults).state.acknowledgedSequence =
      s.world.state.acknowledgedSequence := World.step_watermark codec nofun
  cases c.pull_cases codec s.world link faults with
  | inl hquiet =>
    obtain ⟨state, hpull, hnext⟩ := hquiet
    have hstate' : ∀ s' : Handover, s.Grows codec s' → (c.become state).Sound s' := by
      intro s' hgrows
      refine (hc.grow hgrows).become ?_
      cases hnext with
      | inl hended =>
        rw [hended]
        trivial
      | inr hlive =>
        rw [hlive]
        exact ⟨hcursor, hhanded.grow hgrows, nofun⟩
    cases hpull with
    | inl hsame =>
      rw [hsame]
      exact h.request hget h.world.extends_refl rfl (fun _ => id) (hstate' _)
    | inr hserved =>
      rw [hserved]
      exact h.request hget hextends hwatermark (fun _ => id) (hstate' _)
  | inr hpulled =>
    obtain ⟨rounds, hpull, hrounds⟩ := hpulled
    rw [hpull]
    refine h.request hget hextends hwatermark (fun _ => id) fun hgrows => ⟨hc.handed.grow hgrows, ?_, ?_⟩
    · cases hrounds with
      | inl hlive =>
        obtain ⟨-, rfl⟩ := hlive
        exact hc.rounds
      | inr hcatching =>
        obtain ⟨through, hthrough, hlt, rfl⟩ := hcatching
        obtain ⟨rfl, hle⟩ := hcatch through hthrough
        rw [hcursor, Consumer.reached] at hlt
        dsimp only
        omega
    · refine ⟨hcursor, hhanded.grow hgrows, ?_, ?_⟩
      · rw [hcursor]
        exact Handover.follows_pull (s := s.setWorld i (s.world.pullStep codec link faults, _)) hextends.remembers.numbered
      · intro through hthrough
        obtain ⟨htarget, hle⟩ := hcatch through hthrough
        refine ⟨htarget, ?_⟩
        dsimp only
        cases hrounds with
        | inl hlive => exact absurd (hlive.1.symm.trans hthrough) nofun
        | inr hcatching =>
          obtain ⟨-, -, -, rfl⟩ := hcatching
          rw [if_neg nofun]
          omega

variable {success : Bool}

theorem Handover.Sound.handOver (h : s.Sound codec) (hget : s.consumers[i]? = some c) {hosted : HostedEvent}
    {rest : List HostedEvent} {next : ConsumerState} (hall : s.Handed c.reached)
    (hfollows : s.Follows c.reached (hosted :: rest))
    (hnext : ∀ s' c', s.Grows codec s' → c'.watermark = c.watermark → c'.target = c.target → c'.rounds = c.rounds →
      c'.handed = c.handed ++ [hosted] → s'.Handed c'.reached → s'.Follows c'.reached rest → next.Sound s' c') :
    (s.setConsumer i (c.handOver s.world hosted success next)).Sound codec := by
  have hc := h.consumer hget
  rw [Consumer.handOver]
  split
  · exact h.setConsumer hget (fun _ => id) fun hgrows => (hc.grow hgrows).become trivial
  · refine h.setConsumer hget (fun _ => List.mem_append_left _) fun hgrows => ?_
    have hmem : hosted ∈ s.world.state.events := hfollows.recorded hosted List.mem_cons_self
    have hsequence : hosted.sequence = c.reached + 1 := hfollows.head
    refine ⟨(hc.handed.grow hgrows).concat (hgrows.world.events.subset hmem) hsequence, hc.rounds, ?_⟩
    cases success with
    | false => trivial
    | true =>
      have hreached : ∀ state, Consumer.reached ⟨c.watermark, c.target, c.rounds, c.handed ++ [hosted], state⟩ =
          c.reached + 1 := by
        intro state
        rw [Consumer.reached, List.length_append, List.length_singleton]
        rfl
      refine hnext _ _ hgrows rfl rfl rfl rfl ?_ ?_
      · rw [hreached]
        refine (hall.grow hgrows).next hgrows.world.remembers.numbered (hgrows.world.events.subset hmem) hsequence ?_
        have hi : i < s.consumers.length := (List.getElem?_eq_some_iff.mp hget).1
        exact ⟨_, List.mem_set hi _, List.mem_append_right _ (List.mem_singleton_self hosted)⟩
      · rw [hreached]
        exact (hfollows.grow hgrows).tail

variable {hosted : List HostedEvent}

theorem Handover.Sound.read (h : s.Sound codec) (hget : s.consumers[i]? = some c) {progressed success : Bool} (hstate : c.state = .reading link hosted progressed) :
    (s.setConsumer i (c.read s.world link progressed success hosted)).Sound codec := by
  have hc := h.consumer hget
  have hreading := hc.state
  rw [hstate] at hreading
  obtain ⟨hcursor, hall, hfollows, hcatch⟩ := hreading
  cases hosted with
  | nil =>
    rw [Consumer.read]
    split
    · exact h.setConsumer hget (fun _ => id) fun hgrows => (hc.grow hgrows).become trivial
    · rename_i hgoes
      refine h.setConsumer hget (fun _ => id) fun hgrows => (hc.grow hgrows).become ?_
      refine ⟨hcursor, hall.grow hgrows, fun through hthrough => ?_⟩
      obtain ⟨htarget, hle⟩ := hcatch through hthrough
      cases progressed with
      | false => exact absurd (by rw [hthrough]; rfl) hgoes
      | true => exact ⟨htarget, hle⟩
  | cons hosted rest =>
    have hnext : ∀ s' c', s.Grows codec s' → c'.watermark = c.watermark → c'.target = c.target → c'.rounds = c.rounds →
        c'.handed = c.handed ++ [hosted] → s'.Handed c'.reached → s'.Follows c'.reached rest →
        (ConsumerState.committed link hosted.sequence rest).Sound s' c' := by
      intro s' c' hgrows hwatermark htarget hrounds hhanded hall' hfollows'
      have hlength : c'.handed.length = c.handed.length + 1 := by
        rw [hhanded, List.length_append, List.length_singleton]
      have hreached : c'.reached = c.reached + 1 := by
        rw [Consumer.reached, hwatermark, hlength, Consumer.reached, Nat.add_assoc]
      refine ⟨?_, ?_, hall', hfollows', fun through hthrough => ?_⟩
      · rw [hreached, hcursor]
      · rw [hreached, hfollows.head]
      · obtain ⟨htarget', hle⟩ := hcatch through hthrough
        refine ⟨htarget'.trans htarget.symm, ?_⟩
        rw [hrounds, hlength]
        split at hle
        · omega
        · omega
    rw [Consumer.read]
    split
    · split
      · split
        · exact h.setConsumer hget (fun _ => id) fun hgrows => (hc.grow hgrows).become trivial
        · split
          · refine h.setConsumer hget (fun _ => id) fun hgrows => (hc.grow hgrows).become ?_
            exact ⟨hcursor, hall.grow hgrows, Follows.nil, hcatch⟩
          · exact h.handOver hget hall hfollows hnext
      · exact h.setConsumer hget (fun _ => id) fun hgrows => (hc.grow hgrows).become trivial
    · exact h.handOver hget hall hfollows hnext

variable {sequence : Nat}

theorem Handover.Sound.acknowledge (hlawful : codec.Lawful) (h : s.Sound codec) (hget : s.consumers[i]? = some c) (hstate : c.state = .committed link sequence hosted) :
    (s.setWorld i (c.acknowledge codec s.world link sequence hosted faults)).Sound codec := by
  have hc := h.consumer hget
  have hcommitted := hc.state
  rw [hstate] at hcommitted
  obtain ⟨hcursor, hsequence, hall, hfollows, hcatch⟩ := hcommitted
  obtain ⟨state, hacknowledge, hnext⟩ := c.acknowledge_cases codec s.world link sequence hosted faults
  rw [hacknowledge]
  have hgrows : s.Grows codec (s.setWorld i
      ((s.world.step codec ⟨.request (.ackEvents (s.world.ownerCredentials link) sequence), faults⟩).1, c.become state)) :=
    Handover.grows_set hget (h.world.extends_step hlawful) rfl fun _ => id
  have hstate' : ∀ s', s.Grows codec s' → state.Sound s' (c.become state) := by
    intro s' hgrows'
    cases hnext with
    | inl hended =>
      rw [hended]
      trivial
    | inr hreading =>
      rw [hreading]
      exact ⟨hsequence, hall.grow hgrows', hfollows.grow hgrows', hcatch⟩
  refine h.set hgrows rfl ((hc.grow hgrows).become (hstate' _ hgrows)) ?_ fun _ => .inl
  refine (World.step_acknowledge codec s.world (s.world.ownerCredentials link) sequence faults).imp id fun hmoved => ?_
  have hreached : (s.setWorld i ((s.world.step codec ⟨.request (.ackEvents (s.world.ownerCredentials link) sequence),
      faults⟩).1, c.become state)).world.state.acknowledgedSequence = c.reached := hmoved.1.trans hsequence
  rw [hreached]
  exact hall.grow hgrows

theorem Handover.Sound.save (h : s.Sound codec) (hget : s.consumers[i]? = some c)
    {state : ConsumerState} (hexited : s.world.hostExit.isSome = true) (hall : s.Handed sequence)
    (hstate : ∀ s', s.Grows codec s' → state.Sound s' (c.become state)) :
    ((s.save success sequence).setConsumer i (c.become state)).Sound codec := by
  have hc := h.consumer hget
  cases success with
  | false => exact h.setConsumer hget (fun _ => id) fun hgrows => (hc.grow hgrows).become (hstate _ hgrows)
  | true =>
    have hgrows : s.Grows codec ((s.save true sequence).setConsumer i (c.become state)) :=
      Handover.grows_set hget h.world.extends_refl rfl fun _ => id
    refine h.set hgrows rfl ((hc.grow hgrows).become (hstate _ hgrows)) (.inl rfl) fun checkpoint hmem => ?_
    cases List.mem_append.mp hmem with
    | inl hold => exact .inl hold
    | inr hnew =>
      obtain rfl := List.mem_singleton.mp hnew
      exact .inr ⟨hexited, hall.grow hgrows⟩

theorem Handover.Sound.proceed (hlawful : codec.Lawful) (h : s.Sound codec) (hget : s.consumers[i]? = some c)
    (success : Bool) (faults : List WriteFault) : (s.proceed codec i c success faults).Sound codec := by
  have hc := h.consumer hget
  rw [Handover.proceed]
  split
  · rename_i hstate
    exact h.inspect hlawful hget hstate
  · rename_i hstate
    exact h.claim hlawful hget hstate
  · rename_i hstate
    exact h.pull hlawful hget hstate
  · rename_i hstate
    exact h.read hget hstate
  · rename_i hstate
    exact h.acknowledge hlawful hget hstate
  · rename_i hosted rest unsaved hstate
    have hrecovering := hc.state
    rw [hstate] at hrecovering
    obtain ⟨hexited, hall, hfollows, hunsaved⟩ := hrecovering
    refine h.handOver hget hall hfollows fun s' c' hgrows hwatermark _ _ hhanded hall' hfollows' => ?_
    have hreached : c'.reached = c.reached + 1 := by
      rw [Consumer.reached, hwatermark, hhanded, List.length_append, List.length_singleton, Consumer.reached, Nat.add_assoc]
    refine ⟨hgrows.world.exited hexited, hfollows.head.trans hreached.symm, hall', hfollows', ?_⟩
    intro recovered hrecovered
    have hle := hunsaved recovered hrecovered
    omega
  · rename_i recovered hstate
    have hrecovering := hc.state
    rw [hstate] at hrecovering
    obtain ⟨hexited, hall, hfollows, hunsaved⟩ := hrecovering
    exact h.save hget hexited (hall.mono (hunsaved recovered rfl)) fun _ _ => trivial
  · exact h.setConsumer hget (fun _ => id) fun hgrows => (hc.grow hgrows).become trivial
  · rename_i sequence hosted unsaved hstate
    have hsaving := hc.state
    rw [hstate] at hsaving
    obtain ⟨hexited, hsequence, hall, hfollows, hunsaved⟩ := hsaving
    refine h.save hget hexited (hsequence ▸ hall) fun s' hgrows => ?_
    cases success with
    | false => trivial
    | true => exact ⟨hgrows.world.exited hexited, hall.grow hgrows, hfollows.grow hgrows, hunsaved⟩
  · exact h

theorem Handover.Sound.addConsumer (h : s.Sound codec) (hsound : ∀ s', s.Grows codec s' → c.Sound s') :
    (s.addConsumer c).Sound codec := by
  have hgrows : s.Grows codec (s.addConsumer c) :=
    ⟨h.world.extends_refl, fun other hmem => ⟨other, List.mem_append_left _ hmem, fun _ => id⟩⟩
  refine h.grow hgrows (.inl rfl) (fun _ => .inl) fun other hmem => ?_
  cases List.mem_append.mp hmem with
  | inl hold => exact .inl hold
  | inr hnew => exact .inr (List.mem_singleton.mp hnew ▸ hsound _ hgrows)

theorem Handover.Sound.recovered (h : s.Sound codec) {receipt : RuntimeHostExitReceipt} (hof : receipt.Of s.world)
    {known recovered : Nat}
    (hrecovered : recoveredThrough s.world.record receipt (s.saved.take known).getLast? = some recovered) :
    s.Handed recovered ∧ s.world.state.acknowledgedSequence ≤ recovered := by
  have hacknowledged := hof.acknowledgedSequence
  rw [recoveredThrough.eq_def] at hrecovered
  split at hrecovered
  · rename_i checkpoint hcheckpoint
    split at hrecovered
    · rename_i hmatches
      obtain rfl := Option.some.inj hrecovered
      have hmem : checkpoint ∈ s.saved := List.mem_of_mem_take (List.mem_of_getLast? hcheckpoint)
      obtain ⟨hgeneration, -, -, hle, -⟩ := hmatches
      exact ⟨(h.saved checkpoint hmem hgeneration).2, hacknowledged ▸ hle⟩
    · split at hrecovered
      · exact absurd hrecovered nofun
      · obtain rfl := Option.some.inj hrecovered
        exact ⟨hacknowledged ▸ h.acknowledged, hacknowledged.ge⟩
  · obtain rfl := Option.some.inj hrecovered
    exact ⟨hacknowledged ▸ h.acknowledged, hacknowledged.ge⟩

theorem Handover.Sound.recover (hlawful : codec.Lawful) (h : s.Sound codec) (native : Option Bytes) (known : Nat) :
    (s.recover codec native known).Sound codec := by
  unfold Handover.recover
  dsimp only
  split
  · rename_i receipt pending snapshot hrecovery
    obtain ⟨hof, hpending⟩ := h.world.recovered hlawful hrecovery
    have hexited : s.world.hostExit.isSome = true := by
      obtain ⟨hexit, -⟩ := confirmedExit_matches (recoverExitedEvents_exit hrecovery).1
      rw [hexit]
      rfl
    split
    · rename_i recovered hrecovered
      obtain ⟨hall, hle⟩ := h.recovered hof hrecovered
      refine h.addConsumer fun s' hgrows => ⟨Handover.Follows.nil, Nat.zero_le _, ?_⟩
      refine ⟨hgrows.world.exited hexited, hall.grow hgrows, ?_, ?_⟩
      · refine Handover.Follows.grow ?_ hgrows
        rw [hpending, List.filter_filter]
        have hsame : (s.world.state.events.filter fun event =>
            decide (event.sequence > recovered) && decide (event.sequence > s.world.state.acknowledgedSequence)) =
            s.world.state.events.drop recovered := by
          rw [← Nat.add_sub_cancel recovered 1, ← filter_numbered h.world.numbered (Nat.le_add_left 1 recovered)]
          refine List.filter_congr fun event _ => ?_
          rw [← Bool.decide_and]
          exact decide_eq_decide.mpr ⟨And.left, fun hgt => ⟨hgt, lt_of_le_of_lt hle hgt⟩⟩
        rw [hsame]
        constructor
        · exact fun event hmem => List.mem_of_mem_drop hmem
        · rw [List.map_drop, h.world.numbered, List.drop_range', Nat.mul_one, Nat.add_comm 1, List.length_drop]
          rfl
      · intro n hunsaved
        split at hunsaved
        · exact (Option.some.inj hunsaved).ge
        · cases hunsaved
    · exact h
  · exact h

end Steps

end InfiniShell.RuntimeHost
