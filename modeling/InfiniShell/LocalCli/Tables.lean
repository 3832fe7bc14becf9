import InfiniShell.LocalCli.Records
import Mathlib.Data.Prod.Lex

namespace InfiniShell.LocalCli

open Collections Effects Effects.Program
open RuntimeHost (Uuid)

/-- What the data column of a message holds: the message and what the dedicated ledgers keep beside it. -/
structure MessageData where
  message : LocalCliMessage
  grokTerminalDelivery : Option GrokTerminalDelivery
  grokTerminalResult : Option GrokTerminalVerifiedResult
  nativeDelivery : Option NativeBridgeDelivery
deriving DecidableEq

def LocalCliMessage.toData (message : LocalCliMessage) : MessageData := ⟨message, none, none, none⟩

structure MessageRow where
  messageId : String
  senderTaskId : String
  recipientTaskId : String
  senderGeneration : Int
  recipientGeneration : Int
  state : LocalCliMessageState
  data : MessageData
deriving DecidableEq

def MessageData.toRow (data : MessageData) : MessageRow :=
  ⟨data.message.messageId, data.message.senderTaskId, data.message.recipientTaskId, data.message.senderGeneration,
    data.message.recipientGeneration, data.message.state, data⟩

/-- The three tables; the messages stand in the order of their sequence. -/
structure Tables where
  tasks : BTreeMap String LocalCliTask
  generations : BTreeMap (String ×ₗ Int) LocalCliTask
  messages : List MessageRow

def Tables.empty : Tables := ⟨.empty, .empty, []⟩

abbrev Transact (A : Type) := Program Tables String A

def transaction {A : Type} (body : Transact A) : Transact A := onErrorRestore (fun before _ => before) body

theorem transaction_triple {A : Type} {body : Transact A} {db : Tables} {Q : A → Tables → Prop}
    (h : Triple (fun w => w = db) body Q fun _ _ => True) :
    Triple (fun w => w = db) (transaction body) Q fun _ w => w = db :=
  Triple.onErrorRestore (Triple.of_imp (fun _ hw => hw) h (fun _ _ hq => hq) fun _ _ _ => rfl)

namespace Tables

def readTask (db : Tables) (taskId : String) : Option LocalCliTask := db.tasks.get taskId

def readTaskGeneration (db : Tables) (taskId : String) (generation : Int) : Option LocalCliTask :=
  db.generations.get (toLex (taskId, generation))

def readTaskGenerations (db : Tables) (taskId : String) : List LocalCliTask :=
  (db.generations.entries.filter fun e => (ofLex e.1).1 = taskId).map Prod.snd

def messageRow (db : Tables) (messageId : String) : Option MessageRow :=
  db.messages.find? fun row => row.messageId = messageId

def readMessage (db : Tables) (messageId : String) : Option LocalCliMessage :=
  (db.messageRow messageId).map (·.data.message)

def readMessages (db : Tables) (taskId : String) (generation : Int) : List LocalCliMessage :=
  (db.messages.filter fun row => row.recipientTaskId = taskId ∧ row.recipientGeneration = generation).map
    (·.data.message)

def readTaskMessages (db : Tables) (taskId : String) : List LocalCliMessage :=
  (db.messages.filter fun row => row.recipientTaskId = taskId ∨ row.senderTaskId = taskId).map (·.data.message)

/-- The rows of the unique index over the sessions of active tasks. -/
def sessionTaken (db : Tables) (task : LocalCliTask) : Bool :=
  task.nativeSessionId.isSome && task.state.isActive && db.tasks.values.any fun other =>
    other.taskId ≠ task.taskId && other.harness = task.harness && other.nativeSessionId = task.nativeSessionId &&
      other.state.isActive

def putTask (db : Tables) (task : LocalCliTask) : Tables :=
  { db with
    tasks := db.tasks.insert task.taskId task
    generations := db.generations.insert (toLex (task.taskId, task.generation)) task }

def mapMessages (db : Tables) (f : MessageRow → MessageRow) : Tables := { db with messages := db.messages.map f }

def addMessage (db : Tables) (data : MessageData) : Tables := { db with messages := db.messages ++ [data.toRow] }

end Tables

def writeTask (task : LocalCliTask) : Transact Unit := do
  ensure (0 < task.generation) "CHECK constraint failed: generation > 0"
  ensure (0 ≤ task.revision) "CHECK constraint failed: revision >= 0"
  let db ← read id
  ensure (db.sessionTaken task = false)
    "UNIQUE constraint failed: local_cli_tasks.harness, local_cli_tasks.native_session_id"
  modify (·.putTask task)

/-- `insert_into(local_cli_messages)`. -/
def insertRow (data : MessageData) : Transact Unit := do
  ensure (0 < data.message.senderGeneration) "CHECK constraint failed: sender_generation > 0"
  ensure (0 < data.message.recipientGeneration) "CHECK constraint failed: recipient_generation > 0"
  let db ← read id
  ensure (db.messageRow data.message.messageId = none) "UNIQUE constraint failed: local_cli_messages.message_id"
  modify (·.addMessage data)

def MessageRow.set (row : MessageRow) (data : MessageData) : MessageRow :=
  { row with state := data.message.state, data := data }

def MessageRow.isAt (row : MessageRow) (messageId : String) (state : LocalCliMessageState) (data : MessageData) : Bool :=
  row.messageId = messageId && row.state = state && row.data = data

def updateRow (state : LocalCliMessageState) (original data : MessageData) (superseded : String) : Transact Unit := do
  let db ← read id
  modify (·.mapMessages fun row => if row.isAt data.message.messageId state original then row.set data else row)
  ensure ((db.messages.filter (·.isAt data.message.messageId state original)).length = 1) superseded

section Specs

variable {db : Tables}

@[simp] theorem Tables.readTask_putTask (db : Tables) (task : LocalCliTask) (taskId : String) :
    (db.putTask task).readTask taskId = if taskId = task.taskId then some task else db.readTask taskId :=
  BTreeMap.get_insert _ _ _ _

theorem writeTask_triple (task : LocalCliTask) :
    Triple (fun w => w = db) (writeTask task) (fun _ w => w = db.putTask task ∧ db.sessionTaken task = false)
      (fun _ _ => True) := by
  refine Triple.ensure_then (fun _ => Triple.ensure_then (fun _ => Triple.read_then ?_) fun _ => trivial)
    fun _ => trivial
  refine Triple.ensure_then (fun hfree => Triple.modify ?_) fun _ => trivial
  rintro w rfl
  exact ⟨rfl, hfree⟩

theorem insertRow_triple (data : MessageData) :
    Triple (fun w => w = db) (insertRow data)
      (fun _ w => w = db.addMessage data ∧ db.messageRow data.message.messageId = none ∧
        0 < data.message.senderGeneration ∧ 0 < data.message.recipientGeneration) (fun _ _ => True) := by
  refine Triple.ensure_then (fun hsender => Triple.ensure_then (fun hrecipient => Triple.read_then ?_) fun _ => trivial)
    fun _ => trivial
  refine Triple.ensure_then (fun hnew => Triple.modify ?_) fun _ => trivial
  rintro w rfl
  exact ⟨rfl, hnew, hsender, hrecipient⟩

end Specs

def taskResultSubject : String := "local_task_result"

namespace GrokTerminal

def inputSubject : String := "grok_owned_terminal_input"

def richInputSubject : String := "grok_owned_terminal_rich_input_v1"

def isInputSubject (subject : String) : Bool := subject = inputSubject || subject = richInputSubject

def executionKind : String := "grok_owned_terminal"

end GrokTerminal

namespace NativeBridge

def inputSubject : String := "grok_native_terminal_input_v1"

def richInputSubject : String := "grok_native_terminal_rich_input_v1"

def isInputSubject (subject : String) : Bool := subject = inputSubject || subject = richInputSubject

def executionKind : String := inputSubject

def isTask (crates : Crates) (task : LocalCliTask) : Bool :=
  match crates.parseJson task.configJson with
  | .ok config => config.index "execution_kind" = .string executionKind
  | .error _ => false

end NativeBridge

/-- The fields of a task that `validate_task` looks at before anything else. -/
def LocalCliTask.fieldsInvalid (task : LocalCliTask) : Bool :=
  task.version ≠ 1 || task.generation < 1 || task.revision < 0 || blank task.taskId || blank task.harness ||
    task.workingDirectory = "" || task.state = .unknown || task.parentTaskId = some task.taskId ||
    task.parentTaskId.isSome ≠ task.parentGeneration.isSome || task.parentGeneration.any (· < 1) ||
    task.nativeSessionId.any blank

def LocalCliTask.tooLarge (task : LocalCliTask) : Bool :=
  task.configJson.utf8ByteSize > 1024 * 1024 || task.result.any fun text => text.utf8ByteSize > 10 * 1024 * 1024

/-- A completed run without a native session or without evidence. -/
def LocalCliTask.unproven (task : LocalCliTask) : Bool :=
  task.state = .completed && (task.nativeSessionId.isNone || task.terminalEvidence.all blank)

def validateTask (crates : Crates) (task : LocalCliTask) : Except String Unit := do
  if task.fieldsInvalid then throw "本地任务记录字段无效或版本不兼容"
  if task.tooLarge then throw "本地任务记录超过持久化大小限制"
  let config ← crates.parseJson task.configJson
  if !config.isObject then throw "本地任务配置必须是 JSON 对象"
  if task.unproven then throw "缺少原生会话或可信完成证据，不能将本地任务记为完成"

theorem validateTask_eq_ok {crates : Crates} {task : LocalCliTask} : validateTask crates task = .ok () ↔
    task.fieldsInvalid = false ∧ task.tooLarge = false ∧
      (∃ config, crates.parseJson task.configJson = .ok config ∧ config.isObject = true) ∧ task.unproven = false := by
  rw [validateTask]
  cases task.fieldsInvalid with
  | true => exact ⟨nofun, nofun⟩
  | false =>
    cases task.tooLarge with
    | true => exact ⟨nofun, nofun⟩
    | false =>
      rw [if_neg nofun, if_neg nofun, Results.bind_eq_ok]
      constructor
      · rintro ⟨config, hparse, h⟩
        cases hobject : config.isObject with
        | false =>
          rw [hobject] at h
          exact absurd h nofun
        | true =>
          cases hproven : task.unproven with
          | true =>
            rw [hobject, hproven] at h
            exact absurd h nofun
          | false => exact ⟨rfl, rfl, ⟨config, hparse, hobject⟩, rfl⟩
      · rintro ⟨-, -, ⟨config, hparse, hobject⟩, hproven⟩
        refine ⟨config, hparse, ?_⟩
        rw [hobject, hproven]
        rfl

end InfiniShell.LocalCli
