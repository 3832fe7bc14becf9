import InfiniShell.LocalCli.RequestEffects

namespace InfiniShell.LocalCli

open Effects Effects.Program
open RuntimeHost (Uuid)

/-- A completed run has a native session and some evidence. -/
def LocalCliTask.Proven (task : LocalCliTask) : Prop :=
  task.state = .completed → task.nativeSessionId.isSome ∧ ∃ evidence, task.terminalEvidence = some evidence ∧
    blank evidence = false

structure SameOrigin (a b : LocalCliTask) : Prop where
  harness : a.harness = b.harness
  parentTaskId : a.parentTaskId = b.parentTaskId
  parentGeneration : a.parentGeneration = b.parentGeneration

structure Forward (before after : LocalCliTask) : Prop where
  revision : after.revision = before.revision + 1
  terminal : before.state.isTerminal = true → after.state = before.state
  queued : before.state ≠ .queued → after.state ≠ .queued
  session : before.nativeSessionId.isSome = true → after.nativeSessionId = before.nativeSessionId
  evidence : before.terminalEvidence.isSome = true → after.terminalEvidence = before.terminalEvidence
  result : before.result.isSome = true → after.result.isSome = true

theorem SameOrigin.refl (task : LocalCliTask) : SameOrigin task task := ⟨rfl, rfl, rfl⟩

theorem SameOrigin.trans {a b c : LocalCliTask} (h : SameOrigin a b) (h' : SameOrigin b c) : SameOrigin a c :=
  ⟨h.harness.trans h'.harness, h.parentTaskId.trans h'.parentTaskId, h.parentGeneration.trans h'.parentGeneration⟩

theorem SameOrigin.symm {a b : LocalCliTask} (h : SameOrigin a b) : SameOrigin b a :=
  ⟨h.harness.symm, h.parentTaskId.symm, h.parentGeneration.symm⟩

inductive RunOf (db : Tables) (task : LocalCliTask) : Prop
  | first (hnone : db.readTask task.taskId = none) (hgeneration : task.generation = 1)
  | same (previous) (hprevious : db.readTask task.taskId = some previous) (horigin : SameOrigin task previous)
      (hgeneration : task.generation = previous.generation) (hforward : Forward previous task)
  | next (previous) (hprevious : db.readTask task.taskId = some previous) (horigin : SameOrigin task previous)
      (hgeneration : task.generation = previous.generation + 1) (hinactive : previous.state.isActive = false)
      (hknown : previous.state ≠ .unknown)

section Writes

variable {crates : Crates} {db : Tables} {task previous : LocalCliTask}

theorem proven_of_valid (h : validateTask crates task = .ok ()) : task.Proven := by
  intro hcompleted
  obtain ⟨-, -, -, hproven⟩ := validateTask_eq_ok.mp h
  rw [LocalCliTask.unproven, hcompleted] at hproven
  simp only [decide_true, Bool.true_and, Bool.or_eq_false_iff] at hproven
  obtain ⟨hsession, hevidence⟩ := hproven
  refine ⟨by simpa using hsession, ?_⟩
  cases htext : task.terminalEvidence with
  | none =>
    rw [htext] at hevidence
    exact absurd hevidence nofun
  | some evidence =>
    rw [htext, Option.all_some] at hevidence
    exact ⟨evidence, rfl, hevidence⟩

theorem sameOrigin_of_superseded (h : superseded task previous (some previous.generation) = false) :
    SameOrigin task previous := by
  simp only [superseded, Bool.or_eq_false_iff, decide_eq_false_iff_not, ne_eq, not_not] at h
  exact ⟨h.1.1.2, h.1.2, h.2⟩

theorem forward_of_regresses (h : regresses task previous = false) : Forward previous task := by
  simp only [regresses, Bool.or_eq_false_iff, decide_eq_false_iff_not, ne_eq, not_not, Bool.and_eq_false_imp,
    decide_eq_true_eq] at h
  obtain ⟨⟨⟨⟨⟨hrevision, hterminal⟩, hsession⟩, hqueued⟩, hresult⟩, hevidence⟩ := h
  constructor
  · exact eq_add_of_checkedAdd hrevision
  · exact hterminal
  · exact hqueued
  · exact hsession
  · exact hevidence
  · intro hsome
    simpa using hresult hsome

theorem inactive_of_cannotContinue (h : cannotContinue task previous = false) :
    task.generation = previous.generation + 1 ∧ previous.state.isActive = false ∧ previous.state ≠ .unknown := by
  simp only [cannotContinue, Bool.or_eq_false_iff, decide_eq_false_iff_not, ne_eq, not_not] at h
  exact ⟨eq_add_of_checkedAdd h.1.1.1, h.1.1.2, h.1.2⟩

theorem Forward.disconnectedAt (hinterrupted : interrupted crates task = true) {revision : Int}
    (hrevision : checkedAdd task.revision 1 = some revision) : Forward task (task.disconnectedAt revision) := by
  simp only [interrupted, Bool.and_eq_true, decide_eq_true_eq] at hinterrupted
  have hactive := hinterrupted.1.1.2
  constructor
  · exact eq_add_of_checkedAdd hrevision
  · intro hterminal
    cases hstate : task.state <;> rw [hstate] at hactive hterminal <;> nomatch hactive, hterminal
  · exact fun _ => nofun
  · exact fun _ => rfl
  · exact fun _ => rfl
  · exact id

theorem TaskWrite.runOf (h : TaskWrite crates db task) : RunOf db task ∧ task.Proven := by
  cases h with
  | created _ hnone hvalid _ hgeneration => exact ⟨.first hnone hgeneration, proven_of_valid hvalid⟩
  | updated _ previous hprevious hvalid _ hsame hgeneration hforward =>
    exact ⟨.same previous hprevious (sameOrigin_of_superseded hsame) hgeneration (forward_of_regresses hforward),
      proven_of_valid hvalid⟩
  | continued _ previous hprevious hvalid _ hsame hcontinue =>
    obtain ⟨hgeneration, hinactive, hknown⟩ := inactive_of_cannotContinue hcontinue
    exact ⟨.next previous hprevious (sameOrigin_of_superseded hsame) hgeneration hinactive hknown,
      proven_of_valid hvalid⟩
  | interrupted running revision hprevious hinterrupted hrevision =>
    exact ⟨.same running hprevious ⟨rfl, rfl, rfl⟩ rfl (Forward.disconnectedAt hinterrupted hrevision), nofun⟩

end Writes

structure RunRow (task : LocalCliTask) (generation : Int) (row : LocalCliTask) : Prop where
  taskId : row.taskId = task.taskId
  run : row.generation = generation
  origin : SameOrigin row task
  first : 1 ≤ generation
  last : generation ≤ task.generation
  ended : generation < task.generation → row.state.isActive = false ∧ row.state ≠ .unknown
  proven : row.Proven

/-- The rows of the runs of every task go from the first to the current one. -/
structure Ledger (db : Tables) : Prop where
  keyed : db.Keyed
  current : ∀ taskId task, db.readTask taskId = some task → db.readTaskGeneration taskId task.generation = some task
  complete : ∀ taskId task, db.readTask taskId = some task → ∀ generation, 1 ≤ generation →
    generation ≤ task.generation → (db.readTaskGeneration taskId generation).isSome
  rows : ∀ taskId generation row, db.readTaskGeneration taskId generation = some row →
    ∃ task, db.readTask taskId = some task ∧ RunRow task generation row

theorem Ledger.empty : Ledger .empty := by
  have hnone : ∀ taskId, Tables.empty.readTask taskId = none := fun _ => rfl
  have hrow : ∀ taskId generation, Tables.empty.readTaskGeneration taskId generation = none := fun _ _ => rfl
  constructor
  · exact fun taskId _ h => absurd ((hnone taskId).symm.trans h) nofun
  · exact fun taskId _ h => absurd ((hnone taskId).symm.trans h) nofun
  · exact fun taskId _ h => absurd ((hnone taskId).symm.trans h) nofun
  · exact fun taskId generation _ h => absurd ((hrow taskId generation).symm.trans h) nofun

section Steps

variable {crates : Crates} {db w : Tables} {task : LocalCliTask} {taskId : String}

theorem Ledger.first_le (h : Ledger db) (hread : db.readTask taskId = some task) : 1 ≤ task.generation := by
  obtain ⟨current, hcurrent, hrow⟩ := h.rows _ _ _ (h.current taskId task hread)
  exact hrow.first

variable {generation : Int} {row : LocalCliTask}

theorem Ledger.rows_written (h : Ledger db) (hrun : RunOf db task) (hproven : task.Proven)
    (hrow : (if generation = task.generation then some task else db.readTaskGeneration task.taskId generation) =
      some row) : RunRow task generation row := by
  have hfirst : 1 ≤ task.generation := by
    cases hrun with
    | first _ hgeneration => omega
    | same previous hprevious _ hgeneration =>
      have := h.first_le hprevious
      omega
    | next previous hprevious _ hgeneration =>
      have := h.first_le hprevious
      omega
  by_cases heq : generation = task.generation
  · rw [if_pos heq] at hrow
    obtain rfl := Option.some.inj hrow
    exact ⟨rfl, heq.symm, SameOrigin.refl _, heq ▸ hfirst, heq.le, fun hlt => absurd heq hlt.ne, hproven⟩
  · rw [if_neg heq] at hrow
    obtain ⟨previous, hprevious, hold⟩ := h.rows _ _ _ hrow
    have hid := h.keyed _ _ hprevious
    cases hrun with
    | first hnone => exact absurd (hnone.symm.trans hprevious) nofun
    | same before hbefore horigin hgeneration =>
      obtain rfl := Option.some.inj (hbefore.symm.trans hprevious)
      have hlast := hold.last
      exact ⟨hold.taskId.trans hid, hold.run, hold.origin.trans horigin.symm, hold.first, by omega,
        fun hlt => hold.ended (by omega), hold.proven⟩
    | next before hbefore horigin hgeneration hinactive hknown =>
      obtain rfl := Option.some.inj (hbefore.symm.trans hprevious)
      have hlast := hold.last
      refine ⟨hold.taskId.trans hid, hold.run, hold.origin.trans horigin.symm, hold.first, by omega, ?_,
        hold.proven⟩
      intro hlt
      by_cases hcurrent : generation = before.generation
      · rw [hcurrent, h.current _ _ hprevious] at hrow
        rw [← Option.some.inj hrow]
        exact ⟨hinactive, hknown⟩
      · exact hold.ended (by omega)

theorem TasksWritten.ledger (hwritten : TasksWritten crates db w) (h : Ledger db) : Ledger w := by
  refine ⟨hwritten.keyed h.keyed, ?_, ?_, ?_⟩
  · intro taskId task htask
    cases hwritten taskId with
    | inl hkept => rw [hkept.2, h.current taskId task (hkept.1 ▸ htask)]
    | inr hchanged =>
      obtain ⟨written, rfl, -, hrows⟩ := hchanged
      obtain rfl := Option.some.inj (hrows.1.symm.trans htask)
      rw [hrows.2, if_pos rfl]
  · intro taskId task htask generation hfirst hlast
    cases hwritten taskId with
    | inl hkept =>
      rw [hkept.2]
      exact h.complete taskId task (hkept.1 ▸ htask) generation hfirst hlast
    | inr hchanged =>
      obtain ⟨written, rfl, hwrite, hrows⟩ := hchanged
      obtain rfl := Option.some.inj (hrows.1.symm.trans htask)
      rw [hrows.2]
      by_cases heq : generation = written.generation
      · rw [if_pos heq]
        rfl
      · rw [if_neg heq]
        cases hwrite.runOf.1 with
        | first hnone hgeneration => omega
        | same previous hprevious _ hgeneration => exact h.complete _ previous hprevious generation hfirst (by omega)
        | next previous hprevious _ hgeneration => exact h.complete _ previous hprevious generation hfirst (by omega)
  · intro taskId generation row hrow
    cases hwritten taskId with
    | inl hkept =>
      rw [hkept.1]
      exact h.rows taskId generation row (hkept.2 generation ▸ hrow)
    | inr hchanged =>
      obtain ⟨written, rfl, hwrite, hrows⟩ := hchanged
      rw [hrows.2] at hrow
      exact ⟨written, hrows.1, h.rows_written hwrite.runOf.1 hwrite.runOf.2 hrow⟩

theorem TasksWritten.forward (hwritten : TasksWritten crates db w) (h : Ledger db) (hrow : db.readTaskGeneration taskId generation = some row) :
    ∃ row', w.readTaskGeneration taskId generation = some row' ∧
      (row' = row ∨ db.readTask taskId = some row ∧ Forward row row') := by
  cases hwritten taskId with
  | inl hkept => exact ⟨row, (hkept.2 generation).trans hrow, .inl rfl⟩
  | inr hchanged =>
    obtain ⟨written, rfl, hwrite, hrows⟩ := hchanged
    rw [hrows.2]
    by_cases heq : generation = written.generation
    · rw [if_pos heq]
      refine ⟨written, rfl, .inr ?_⟩
      obtain ⟨previous, hprevious, hold⟩ := h.rows _ _ _ hrow
      have hlast := hold.last
      cases hwrite.runOf.1 with
      | first hnone => exact absurd (hnone.symm.trans hprevious) nofun
      | same before hbefore _ hgeneration hforward =>
        have hcurrent := h.current _ _ hbefore
        rw [← hgeneration, ← heq, hrow] at hcurrent
        obtain rfl := Option.some.inj hcurrent
        exact ⟨hbefore, hforward⟩
      | next before hbefore _ hgeneration =>
        obtain rfl := Option.some.inj (hbefore.symm.trans hprevious)
        omega
    · rw [if_neg heq]
      exact ⟨row, hrow, .inl rfl⟩

end Steps

structure Tables.Sound (db : Tables) : Prop where
  ledger : Ledger db
  posted : db.Posted

theorem Tables.Sound.empty : Tables.empty.Sound := ⟨Ledger.empty, Tables.Posted.empty⟩

section Runs

variable {crates : Crates} {db : Tables} {request : Request}

theorem Effect.sound {w : Tables} (h : Effect crates request db w) (hsound : db.Sound) : w.Sound := by
  obtain ⟨middle, hmessages, hwrites⟩ := h.messages
  refine ⟨h.tasks.ledger hsound.ledger, hwrites.posted ⟨?_, ?_⟩⟩
  · rw [hmessages]
    exact hsound.posted.columns
  · rw [hmessages]
    exact hsound.posted.nodup

theorem Tables.Sound.effect (hsound : db.Sound) (crates : Crates) (request : Request) :
    Effect crates request db (handleRequest crates request db).2 := by
  have htriple := handleRequest_triple crates hsound.ledger.keyed hsound.posted request
  refine Triple.world (Triple.of_imp (fun _ h => h) htriple (fun _ _ h => h.1) ?_) rfl
  rintro _ w rfl
  exact Effect.refl _ _ _

theorem Tables.Sound.unchanged (hsound : db.Sound) {e : String}
    (herror : (handleRequest crates request db).1 = .error e) : (handleRequest crates request db).2 = db :=
  (handleRequest_triple _ hsound.ledger.keyed hsound.posted request db rfl).2 e _ (Prod.ext herror rfl)

theorem Tables.Sound.step (hsound : db.Sound) (request : Request) : (handleRequest crates request db).2.Sound :=
  (hsound.effect _ request).sound hsound

theorem Tables.Sound.serve (hsound : db.Sound) (requests : List Request) :
    (LocalCli.serve crates requests db).2.Sound :=
  serve_induction (fun request _ h => h.step request) requests db hsound

variable {taskId : String} {task : LocalCliTask}

theorem Tables.Sound.readTask_step (hsound : db.Sound) (request : Request)
    (htask : db.readTask taskId = some task) :
    ∃ task', (handleRequest crates request db).2.readTask taskId = some task' ∧ task.generation ≤ task'.generation := by
  cases (hsound.effect crates request).tasks taskId with
  | inl hkept => exact ⟨task, hkept.1.trans htask, le_rfl⟩
  | inr hchanged =>
    obtain ⟨written, rfl, hwrite, hrows⟩ := hchanged
    refine ⟨written, hrows.1, ?_⟩
    cases hwrite.runOf.1 with
    | first hnone => exact absurd (hnone.symm.trans htask) nofun
    | same previous hprevious _ hgeneration =>
      obtain rfl := Option.some.inj (hprevious.symm.trans htask)
      exact hgeneration.ge
    | next previous hprevious _ hgeneration =>
      obtain rfl := Option.some.inj (hprevious.symm.trans htask)
      omega

variable {generation : Int} {row : LocalCliTask}

theorem Tables.Sound.row_step (hsound : db.Sound) (crates : Crates) (request : Request) (hrow : db.readTaskGeneration taskId generation = some row) :
    ∃ row', (handleRequest crates request db).2.readTaskGeneration taskId generation = some row' ∧
      (row' = row ∨ db.readTask taskId = some row ∧ Forward row row') :=
  (hsound.effect _ request).tasks.forward hsound.ledger hrow

theorem Tables.Sound.closed_step (hsound : db.Sound) (request : Request) (htask : db.readTask taskId = some task)
    (hrow : db.readTaskGeneration taskId generation = some row) (hclosed : generation < task.generation) :
    (handleRequest crates request db).2.readTaskGeneration taskId generation = some row := by
  obtain ⟨row', hrow', hcases⟩ := hsound.row_step crates request hrow
  cases hcases with
  | inl hsame => rw [hrow', hsame]
  | inr hcurrent =>
    obtain ⟨current, hcurrent', hold⟩ := hsound.ledger.rows _ _ _ hrow
    have hgeneration : row.generation = generation := hold.run
    obtain rfl := Option.some.inj (htask.symm.trans hcurrent.1)
    omega

theorem Tables.Sound.closed_serve (hsound : db.Sound) (requests : List Request) (htask : db.readTask taskId = some task)
    (hrow : db.readTaskGeneration taskId generation = some row) (hclosed : generation < task.generation) :
    (LocalCli.serve crates requests db).2.readTaskGeneration taskId generation = some row := by
  induction requests generalizing db task with
  | nil => exact hrow
  | cons request requests ih =>
    obtain ⟨task', htask', hle⟩ := hsound.readTask_step request htask
    exact ih (hsound.step request) htask' (hsound.closed_step request htask hrow hclosed) (by omega)

theorem Tables.Sound.row_serve (hsound : db.Sound) (requests : List Request) (hrow : db.readTaskGeneration taskId generation = some row) :
    ∃ row', (LocalCli.serve crates requests db).2.readTaskGeneration taskId generation = some row' ∧
      Relation.ReflTransGen Forward row row' := by
  induction requests generalizing db row with
  | nil => exact ⟨row, hrow, .refl⟩
  | cons request requests ih =>
    obtain ⟨middle, hmiddle, hcases⟩ := hsound.row_step _ request hrow
    obtain ⟨row', hrow', hforward⟩ := ih (hsound.step request) hmiddle
    refine ⟨row', hrow', ?_⟩
    cases hcases with
    | inl hsame => exact hsame ▸ hforward
    | inr hmoved => exact .head hmoved.2 hforward

end Runs

/-- The runs of a task follow each other without a gap, and only the last of them still changes, forward. -/
theorem runs_only_move_forward (crates : Crates) (requests : List Request) :
    let db := (serve crates requests .empty).2
    (∀ taskId, db.readTask taskId = none → ∀ generation, db.readTaskGeneration taskId generation = none) ∧
    (∀ taskId task, db.readTask taskId = some task →
      db.readTaskGeneration taskId task.generation = some task ∧
      (∀ generation, (db.readTaskGeneration taskId generation).isSome ↔ 1 ≤ generation ∧ generation ≤ task.generation) ∧
      ∀ generation row, db.readTaskGeneration taskId generation = some row → RunRow task generation row) ∧
    (∀ request : Request,
      (∀ e, (handleRequest crates request db).1 = .error e → (handleRequest crates request db).2 = db) ∧
      ∀ taskId generation row, db.readTaskGeneration taskId generation = some row →
        ∃ row', (handleRequest crates request db).2.readTaskGeneration taskId generation = some row' ∧
          (row' = row ∨ db.readTask taskId = some row ∧ Forward row row')) ∧
    ∀ later : List Request,
      (∀ taskId generation row, db.readTaskGeneration taskId generation = some row →
        ∃ row', (serve crates later db).2.readTaskGeneration taskId generation = some row' ∧
          Relation.ReflTransGen Forward row row') ∧
      ∀ taskId task generation row, db.readTask taskId = some task → generation < task.generation →
        db.readTaskGeneration taskId generation = some row →
        (serve crates later db).2.readTaskGeneration taskId generation = some row := by
  intro db
  have hsound : db.Sound := Tables.Sound.empty.serve requests
  refine ⟨?_, ?_, ?_, ?_⟩
  · intro taskId hnone generation
    cases hrow : db.readTaskGeneration taskId generation with
    | none => rfl
    | some row =>
      obtain ⟨task, htask, -⟩ := hsound.ledger.rows _ _ _ hrow
      exact absurd (hnone.symm.trans htask) nofun
  · intro taskId task htask
    have hrows : ∀ generation row, db.readTaskGeneration taskId generation = some row → RunRow task generation row := by
      intro generation row hrow
      obtain ⟨current, hcurrent, hold⟩ := hsound.ledger.rows _ _ _ hrow
      obtain rfl := Option.some.inj (htask.symm.trans hcurrent)
      exact hold
    refine ⟨hsound.ledger.current taskId task htask, ?_, hrows⟩
    intro generation
    constructor
    · intro hsome
      obtain ⟨row, hrow⟩ := Option.isSome_iff_exists.mp hsome
      exact ⟨(hrows _ _ hrow).first, (hrows _ _ hrow).last⟩
    · exact fun h => hsound.ledger.complete taskId task htask generation h.1 h.2
  · exact fun request => ⟨fun _ => hsound.unchanged, fun _ _ _ => hsound.row_step _ request⟩
  · exact fun later => ⟨fun _ _ _ => hsound.row_serve later, fun _ _ _ _ htask hclosed hrow =>
      hsound.closed_serve later htask hrow hclosed⟩

end InfiniShell.LocalCli
