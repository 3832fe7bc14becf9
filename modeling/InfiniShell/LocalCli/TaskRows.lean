import InfiniShell.LocalCli.Checkpoint

namespace InfiniShell.LocalCli

open Collections Effects Effects.Program
open RuntimeHost (Uuid)

theorem Tables.readTaskGeneration_putTask (db : Tables) (task : LocalCliTask) (taskId : String) (generation : Int) :
    (db.putTask task).readTaskGeneration taskId generation =
      if taskId = task.taskId ∧ generation = task.generation then some task
      else db.readTaskGeneration taskId generation := by
  have hkey : toLex (taskId, generation) = toLex (task.taskId, task.generation) ↔
      taskId = task.taskId ∧ generation = task.generation := by
    rw [toLex_inj, Prod.mk.injEq]
  rw [readTaskGeneration, putTask, BTreeMap.get_insert]
  exact if_congr hkey rfl rfl


def RowsKept (taskId : String) (db w : Tables) : Prop :=
  w.readTask taskId = db.readTask taskId ∧
    ∀ generation, w.readTaskGeneration taskId generation = db.readTaskGeneration taskId generation

def RowsWritten (task : LocalCliTask) (db w : Tables) : Prop :=
  w.readTask task.taskId = some task ∧
    ∀ generation, w.readTaskGeneration task.taskId generation =
      if generation = task.generation then some task else db.readTaskGeneration task.taskId generation

theorem RowsKept.refl (taskId : String) (db : Tables) : RowsKept taskId db db := ⟨rfl, fun _ => rfl⟩

theorem RowsKept.of_eq {db w : Tables} (htasks : w.tasks = db.tasks) (hgenerations : w.generations = db.generations)
    (taskId : String) : RowsKept taskId db w := by
  constructor
  · rw [Tables.readTask, Tables.readTask, htasks]
  · intro generation
    rw [Tables.readTaskGeneration, Tables.readTaskGeneration, hgenerations]

theorem RowsKept.trans {db middle w : Tables} {taskId : String} (h : RowsKept taskId db middle)
    (h' : RowsKept taskId middle w) : RowsKept taskId db w :=
  ⟨h'.1.trans h.1, fun generation => (h'.2 generation).trans (h.2 generation)⟩

theorem RowsWritten.of_kept {db before w : Tables} {task : LocalCliTask} (h : RowsKept task.taskId db before)
    (hwritten : RowsWritten task before w) : RowsWritten task db w := by
  refine ⟨hwritten.1, ?_⟩
  intro generation
  rw [hwritten.2, h.2]

theorem RowsWritten.kept {db w after : Tables} {task : LocalCliTask} (hwritten : RowsWritten task db w)
    (h : RowsKept task.taskId w after) : RowsWritten task db after :=
  ⟨h.1.trans hwritten.1, fun generation => (h.2 generation).trans (hwritten.2 generation)⟩

theorem RowsWritten.putTask (db : Tables) (task : LocalCliTask) : RowsWritten task db (db.putTask task) := by
  constructor
  · rw [Tables.readTask_putTask, if_pos rfl]
  · intro generation
    rw [Tables.readTaskGeneration_putTask]
    exact if_congr (and_iff_right rfl) rfl rfl

theorem RowsKept.putTask (db : Tables) {task : LocalCliTask} {taskId : String} (h : taskId ≠ task.taskId) :
    RowsKept taskId db (db.putTask task) := by
  constructor
  · rw [Tables.readTask_putTask, if_neg h]
  · intro generation
    rw [Tables.readTaskGeneration_putTask, if_neg fun heq => h heq.1]

/-- The row that a recovery leaves of an interrupted run. -/
def LocalCliTask.disconnectedAt (task : LocalCliTask) (revision : Int) : LocalCliTask :=
  { task with state := .disconnected, revision := revision }

inductive TaskWrite (crates : Crates) (db : Tables) : LocalCliTask → Prop
  | created (task) (hprevious : db.readTask task.taskId = none) (hvalid : validateTask crates task = .ok ())
      (hbridge : NativeBridge.isTask crates task = false) (hgeneration : task.generation = 1)
      (hfresh : notFresh task = false) (hparent : checkParent db task true = .ok ()) : TaskWrite crates db task
  | updated (task previous) (hprevious : db.readTask task.taskId = some previous)
      (hvalid : validateTask crates task = .ok ()) (hbridge : NativeBridge.isTask crates task = false)
      (hsame : superseded task previous (some previous.generation) = false)
      (hgeneration : task.generation = previous.generation) (hforward : regresses task previous = false) :
      TaskWrite crates db task
  | continued (task previous) (hprevious : db.readTask task.taskId = some previous)
      (hvalid : validateTask crates task = .ok ()) (hbridge : NativeBridge.isTask crates task = false)
      (hsame : superseded task previous (some previous.generation) = false)
      (hcontinue : cannotContinue task previous = false) : TaskWrite crates db task
  | interrupted (task revision) (hprevious : db.readTask task.taskId = some task)
      (hinterrupted : interrupted crates task = true) (hrevision : checkedAdd task.revision 1 = some revision) :
      TaskWrite crates db (task.disconnectedAt revision)

def TasksWritten (crates : Crates) (db w : Tables) : Prop :=
  ∀ taskId, RowsKept taskId db w ∨ ∃ task, task.taskId = taskId ∧ TaskWrite crates db task ∧ RowsWritten task db w

theorem TasksWritten.of_eq (crates : Crates) {db w : Tables} (htasks : w.tasks = db.tasks)
    (hgenerations : w.generations = db.generations) : TasksWritten crates db w :=
  fun taskId => .inl (RowsKept.of_eq htasks hgenerations taskId)

theorem TasksWritten.messages {crates : Crates} {db middle w : Tables} (h : TasksWritten crates db middle)
    (htasks : w.tasks = middle.tasks) (hgenerations : w.generations = middle.generations) :
    TasksWritten crates db w := by
  intro taskId
  have hkept := RowsKept.of_eq htasks hgenerations taskId
  cases h taskId with
  | inl hsame => exact .inl (hsame.trans hkept)
  | inr hwritten =>
    obtain ⟨task, rfl, hwrite, hrows⟩ := hwritten
    exact .inr ⟨task, rfl, hwrite, hrows.kept hkept⟩

theorem TasksWritten.putTask {crates : Crates} {db : Tables} {task : LocalCliTask} (h : TaskWrite crates db task) :
    TasksWritten crates db (db.putTask task) := by
  intro taskId
  by_cases heq : taskId = task.taskId
  · exact .inr ⟨task, heq.symm, h, RowsWritten.putTask db task⟩
  · exact .inl (RowsKept.putTask db heq)

theorem TaskWrite.of_admitted {crates : Crates} {db : Tables} {task : LocalCliTask} {expectedGeneration : Option Int}
    (hvalid : validateTask crates task = .ok ()) (hbridge : NativeBridge.isTask crates task = false)
    (hgate : admitCheckpoint task expectedGeneration (db.readTask task.taskId) = .ok true)
    (hparent : checkParent db task (db.readTask task.taskId).isNone = .ok ()) : TaskWrite crates db task := by
  cases hprevious : db.readTask task.taskId with
  | none =>
    rw [hprevious] at hgate hparent
    simp only [admitCheckpoint] at hgate
    split at hgate
    · exact absurd hgate nofun
    · rename_i hguard
      simp only [Bool.or_eq_true, not_or, decide_eq_true_eq, ne_eq, not_not, Bool.not_eq_true] at hguard
      exact .created task hprevious hvalid hbridge hguard.1.2 hguard.2 hparent
  | some previous =>
    rw [hprevious] at hgate
    simp only [admitCheckpoint] at hgate
    split at hgate
    · exact absurd hgate nofun
    · rename_i hsuperseded
      have hsame : superseded task previous (some previous.generation) = false := by
        simp only [superseded, Bool.not_eq_true, Bool.or_eq_false_iff] at hsuperseded ⊢
        refine ⟨⟨⟨⟨hsuperseded.1.1.1.1, ?_⟩, hsuperseded.1.1.2⟩, hsuperseded.1.2⟩, hsuperseded.2⟩
        simp
      split at hgate
      · exact absurd hgate nofun
      · split at hgate
        · rename_i hgeneration
          split at hgate
          · exact absurd hgate nofun
          · rename_i hforward
            exact .updated task previous hprevious hvalid hbridge hsame hgeneration (by simpa using hforward)
        · split at hgate
          · exact absurd hgate nofun
          · rename_i hcontinue
            exact .continued task previous hprevious hvalid hbridge hsame (by simpa using hcontinue)

section Recovery

variable {crates : Crates} {db w : Tables}

def Tables.Keyed (db : Tables) : Prop := ∀ taskId task, db.readTask taskId = some task → task.taskId = taskId

theorem TasksWritten.keyed (hkeyed : db.Keyed) (h : TasksWritten crates db w) : w.Keyed := by
  intro taskId task htask
  cases h taskId with
  | inl hkept => exact hkeyed taskId task (hkept.1 ▸ htask)
  | inr hwritten =>
    obtain ⟨written, rfl, -, hrows⟩ := hwritten
    rw [hrows.1] at htask
    rw [← Option.some.inj htask]

variable {task : LocalCliTask}

theorem Tables.readTask_of_mem_values (hkeyed : db.Keyed) (h : task ∈ db.tasks.values) :
    db.readTask task.taskId = some task := by
  obtain ⟨e, he, rfl⟩ := List.mem_map.mp h
  have hread : db.readTask e.1 = some e.2 := (BTreeMap.get_eq_some_iff _ _ _).mpr he
  rw [hkeyed _ _ hread]
  exact hread

theorem Tables.values_nodup (hkeyed : db.Keyed) : (db.tasks.values.map (·.taskId)).Nodup := by
  have hmap : db.tasks.values.map (·.taskId) = db.tasks.entries.map Prod.fst := by
    rw [BTreeMap.values, List.map_map]
    apply List.map_congr_left
    intro e he
    exact hkeyed _ _ ((BTreeMap.get_eq_some_iff _ _ _).mpr he)
  rw [hmap]
  exact db.tasks.keys_nodup

/-- A recovery that has still to go through the tasks of `rest`. -/
structure Recovering (crates : Crates) (db : Tables) (rest : List LocalCliTask) (w : Tables) : Prop where
  messages : w.messages = db.messages
  written : TasksWritten crates db w
  nodup : (rest.map (·.taskId)).Nodup
  pending : ∀ task ∈ rest, db.readTask task.taskId = some task ∧ RowsKept task.taskId db w

variable {rest : List LocalCliTask}

theorem Recovering.tail (h : Recovering crates db (task :: rest) w) : Recovering crates db rest w :=
  ⟨h.messages, h.written, (List.nodup_cons.mp h.nodup).2, fun other hother =>
    h.pending other (List.mem_cons_of_mem _ hother)⟩

theorem Recovering.interrupt
    (h : Recovering crates db (task :: rest) w) (hinterrupted : interrupted crates task = true) {revision : Int}
    (hrevision : checkedAdd task.revision 1 = some revision) :
    Recovering crates db rest (w.putTask (task.disconnectedAt revision)) := by
  obtain ⟨hread, hkept⟩ := h.pending task List.mem_cons_self
  have hnotin := (List.nodup_cons.mp h.nodup).1
  refine ⟨h.messages, ?_, (List.nodup_cons.mp h.nodup).2, ?_⟩
  · intro taskId
    by_cases heq : taskId = task.taskId
    · exact .inr ⟨task.disconnectedAt revision, heq.symm, .interrupted task revision hread hinterrupted hrevision,
        RowsWritten.of_kept hkept (RowsWritten.putTask w (task.disconnectedAt revision))⟩
    · cases h.written taskId with
      | inl hsame => exact .inl (hsame.trans (RowsKept.putTask _ heq))
      | inr hwritten =>
        obtain ⟨written, rfl, hwrite, hrows⟩ := hwritten
        exact .inr ⟨written, rfl, hwrite, hrows.kept (RowsKept.putTask _ heq)⟩
  · intro other hother
    obtain ⟨hother', hsame⟩ := h.pending other (List.mem_cons_of_mem _ hother)
    refine ⟨hother', hsame.trans (RowsKept.putTask _ ?_)⟩
    intro heq
    change other.taskId = task.taskId at heq
    exact hnotin (List.mem_map.mpr ⟨other, hother, heq⟩)

theorem recoverTask_triple : Triple (Recovering crates db (task :: rest)) (recoverTask crates task)
      (fun _ => Recovering crates db rest) (fun _ _ => True) := by
  rw [recoverTask]
  by_cases hinterrupted : interrupted crates task = true
  · rw [if_pos hinterrupted]
    cases hrevision : checkedAdd task.revision 1 with
    | none => exact Triple.fail fun _ _ => trivial
    | some revision =>
      intro w hw
      refine Triple.bind (writeTask_triple _) (fun _ => Triple.ret ?_) w rfl
      rintro w' ⟨rfl, -⟩
      exact hw.interrupt hinterrupted hrevision
  · rw [if_neg hinterrupted]
    exact Triple.ret fun w hw => hw.tail

theorem recoverTasks_triple (tasks : List LocalCliTask) :
    Triple (Recovering crates db tasks) (recoverTasks crates tasks) (fun _ => Recovering crates db [])
      (fun _ _ => True) := by
  induction tasks with
  | nil => exact Triple.ret fun w hw => hw
  | cons task rest ih =>
    exact Triple.bind recoverTask_triple fun _ => Triple.bind ih fun _ => Triple.ret fun w hw => hw

theorem readTasks_triple (hkeyed : db.Keyed) (recoverInterrupted : Bool) :
    Triple (fun w => w = db) (readTasks crates recoverInterrupted)
      (fun _ w => TasksWritten crates db w ∧ w.messages = db.messages) (fun _ w => w = db) := by
  apply transaction_triple
  apply Triple.read_then
  have hstart : Recovering crates db db.tasks.values db :=
    ⟨rfl, TasksWritten.of_eq crates rfl rfl, Tables.values_nodup hkeyed, fun task htask =>
      ⟨Tables.readTask_of_mem_values hkeyed htask, RowsKept.refl _ _⟩⟩
  cases recoverInterrupted with
  | true =>
    rintro w rfl
    exact Triple.bind (recoverTasks_triple _) (fun _ => Triple.ret fun w hw => ⟨hw.written, hw.messages⟩) w hstart
  | false =>
    apply Triple.ret
    rintro w rfl
    exact ⟨hstart.written, rfl⟩

end Recovery

end InfiniShell.LocalCli
