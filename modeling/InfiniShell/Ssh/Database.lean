import InfiniShell.Ssh.MachineMemory

namespace InfiniShell.Ssh

open Effects Effects.Program Collections

structure SshNodeRow where
  id : String
  parentId : Option String
  kind : NodeKind
  name : String
  sortOrder : Int
  isCollapsed : Bool

structure SshServerRow where
  nodeId : String
  host : String
  port : UInt16
  username : String
  authType : AuthType
  keyPath : Option String
  startupCommand : Option String
  notes : Option String
  credentialId : Option String

structure SshOneKeyCredentialRow where
  id : String
  label : String
  username : String
  kind : OneKeyCredentialKind
  keyPath : Option String

structure SshRouteRow where
  id : String
  name : String
  targetNodeId : Option String
  createdAt : Int
  updatedAt : Int
  lastConnectedAt : Option Int

structure SshRouteHopRow where
  routeId : String
  position : Nat
  nodeId : Option String
  targetAlias : String
  port : Option UInt16

structure Tables where
  nodes : List SshNodeRow := []
  servers : List SshServerRow := []
  oneKeyCredentials : List SshOneKeyCredentialRow := []
  routes : List SshRouteRow := []
  routeHops : List SshRouteHopRow := []
  machineMemories : MemoryMap := BTreeMap.empty

namespace Tables

def foreignKeyFailed : String := "FOREIGN KEY constraint failed"

def uniqueFailed (column : String) : String := s!"UNIQUE constraint failed: {column}"

def checkFailed (condition : String) : String := s!"CHECK constraint failed: {condition}"

/-- A nullable reference is unset or names an existing row. -/
def refers (ids : List String) : Option String → Bool
  | none => true
  | some id => ids.contains id

def nodeIds (t : Tables) : List String := t.nodes.map SshNodeRow.id

def credentialIds (t : Tables) : List String := t.oneKeyCredentials.map SshOneKeyCredentialRow.id

def routeIds (t : Tables) : List String := t.routes.map SshRouteRow.id

def insertOneKeyCredential (row : SshOneKeyCredentialRow) (t : Tables) : Except String Tables :=
  if t.credentialIds.contains row.id then throw (uniqueFailed "ssh_onekey_credentials.id")
  else pure { t with oneKeyCredentials := t.oneKeyCredentials ++ [row] }

def insertNode (row : SshNodeRow) (t : Tables) : Except String Tables :=
  if t.nodeIds.contains row.id then throw (uniqueFailed "ssh_nodes.id")
  else if !refers (row.id :: t.nodeIds) row.parentId then throw foreignKeyFailed
  else pure { t with nodes := t.nodes ++ [row] }

def setCollapsed (nodeId : String) (collapsed : Bool) (t : Tables) : Except String Tables :=
  if t.nodeIds.contains nodeId then
    pure { t with nodes := t.nodes.map fun row =>
      if row.id = nodeId then { row with isCollapsed := collapsed } else row }
  else throw s!"node not found: {nodeId}"

def insertServer (server : SyncServer) (t : Tables) : Except String Tables :=
  match AuthType.parse server.authType with
  | none => throw (checkFailed "auth_type IN ('password','key','onekey')")
  | some authType =>
    if (t.servers.map SshServerRow.nodeId).contains server.nodeId then
      throw (uniqueFailed "ssh_servers.node_id")
    else if !t.nodeIds.contains server.nodeId || !refers t.credentialIds server.credentialId then
      throw foreignKeyFailed
    else pure { t with servers := t.servers ++ [{
      nodeId := server.nodeId
      host := server.host
      port := server.port
      username := server.username
      authType
      keyPath := server.keyPath
      startupCommand := server.startupCommand
      notes := server.notes
      credentialId := server.credentialId }] }

def insertRoute (row : SshRouteRow) (t : Tables) : Except String Tables :=
  if t.routeIds.contains row.id then throw (uniqueFailed "ssh_routes.id")
  else if !refers t.nodeIds row.targetNodeId then throw foreignKeyFailed
  else pure { t with routes := t.routes ++ [row] }

def insertRouteHop (row : SshRouteHopRow) (t : Tables) : Except String Tables :=
  if !decide (row.position < 8) then throw (checkFailed "position >= 0 AND position < 8")
  else if row.targetAlias.isEmpty then throw (checkFailed "length(target_alias) > 0")
  else if row.port == some 0 then throw (checkFailed "port >= 1 AND port <= 65535")
  else if t.routeHops.any fun hop => hop.routeId == row.routeId && hop.position == row.position then
    throw (uniqueFailed "ssh_route_hops.route_id, ssh_route_hops.position")
  else if !t.routeIds.contains row.routeId || !refers t.nodeIds row.nodeId then
    throw foreignKeyFailed
  else pure { t with routeHops := t.routeHops ++ [row] }

def updateRouteTarget (routeId nodeId : String) (t : Tables) : Except String Tables :=
  if t.routeIds.contains routeId && !t.nodeIds.contains nodeId then throw foreignKeyFailed
  else pure { t with routes := t.routes.map fun row =>
    if row.id = routeId then { row with targetNodeId := some nodeId } else row }

def updateHopNode (routeId : String) (position : Nat) (nodeId : String) (t : Tables) :
    Except String Tables :=
  let found := t.routeHops.any fun hop => hop.routeId == routeId && hop.position == position
  if found && !t.nodeIds.contains nodeId then throw foreignKeyFailed
  else pure { t with routeHops := t.routeHops.map fun hop =>
    if hop.routeId = routeId ∧ hop.position = position then { hop with nodeId := some nodeId }
    else hop }

def deleteRoutes (t : Tables) : Except String Tables :=
  pure { t with routes := [], routeHops := [] }

/-- `DELETE FROM ssh_servers; DELETE FROM ssh_nodes; DELETE FROM ssh_onekey_credentials`.
References of the routes to a node are set to null. -/
def deleteNodes (t : Tables) : Except String Tables :=
  pure { t with
    nodes := []
    servers := []
    oneKeyCredentials := []
    routes := t.routes.map fun row => { row with targetNodeId := none }
    routeHops := t.routeHops.map fun hop => { hop with nodeId := none } }

/-- The row is replaced as a whole, its content cut to the limit. -/
def upsertFromSync (memory : MachineMemory) (t : Tables) : Except String Tables :=
  let row := { memory with content := truncateContent memory.content }
  pure { t with machineMemories := t.machineMemories.insert memory.machineKey row }

end Tables

/-- A connection to the tables, with the failures of its coming statements. -/
structure Database where
  tables : Tables
  faults : Faults

namespace Database

def call : Program Database String Unit :=
  mapError Fault.message (zoom Database.faults (fun faults db => { db with faults }) Faults.call)

def load {A : Type} (query : Tables → A) : Program Database String A := do
  call
  Program.read fun db => query db.tables

def execute (statement : Tables → Except String Tables) : Program Database String Unit := do
  call
  fun db =>
    match statement db.tables with
    | .ok tables => (.ok (), { db with tables })
    | .error e => (.error e, db)

/-- `with_conn`: opening the connection can fail. -/
def withConn {A : Type} (body : Program Database String A) : Program Database String A := do
  call
  body

/-- A body that fails, or whose commit fails, leaves the tables as they were. -/
def transaction {A : Type} (body : Program Database String A) : Program Database String A := do
  call
  onErrorRestore (fun before after => { after with tables := before.tables }) do
    let a ← body
    call
    pure a

variable {A : Type} {t : Tables}

theorem call_triple (t : Tables) : Triple (fun db : Database => db.tables = t) call
    (fun _ db => db.tables = t) (fun _ db => db.tables = t) :=
  Triple.mapError (Triple.zoom fun _ hv => fun _ _ => ⟨fun _ _ _ => hv, fun _ _ _ => hv⟩)

theorem load_triple (query : Tables → A) : Triple (fun db : Database => db.tables = t)
    (load query) (fun a db => a = query t ∧ db.tables = t) (fun _ db => db.tables = t) :=
  Triple.bind (call_triple t) fun _ => Triple.read fun _ h => ⟨by rw [h], h⟩

theorem execute_triple (statement : Tables → Except String Tables) :
    Triple (fun db : Database => db.tables = t) (execute statement)
      (fun _ db => statement t = .ok db.tables) (fun _ db => db.tables = t) := by
  refine Triple.bind (call_triple t) fun _ => ?_
  rintro db rfl
  cases h : statement db.tables with
  | ok tables =>
    refine ⟨fun a db' ha => ?_, fun e db' he => by simp [h] at he⟩
    simp only [h, Prod.mk.injEq] at ha
    rw [← ha.2]
  | error e =>
    refine ⟨fun a db' ha => by simp [h] at ha, fun e db' he => ?_⟩
    simp only [h, Prod.mk.injEq] at he
    rw [← he.2]

variable {body : Program Database String A}

theorem withConn_triple {Q : A → Database → Prop}
    (h : Triple (fun db : Database => db.tables = t) body Q (fun _ db => db.tables = t)) :
    Triple (fun db : Database => db.tables = t) (withConn body) Q (fun _ db => db.tables = t) :=
  Triple.bind (call_triple t) fun _ => h

theorem transaction_triple {Q : A → Tables → Prop} {R : String → Database → Prop}
    (h : Triple (fun db : Database => db.tables = t) body (fun a db => Q a db.tables) R) :
    Triple (fun db : Database => db.tables = t) (transaction body) (fun a db => Q a db.tables)
      (fun _ db => db.tables = t) := by
  refine Triple.bind (call_triple t) fun _ => ?_
  intro db hdb
  refine Triple.onErrorRestore (s := db) ?_ db rfl
  refine Triple.bind (Triple.of_imp (fun db' hdb' => hdb' ▸ hdb) h (fun _ _ hq => hq)
    fun _ _ _ => hdb) fun a => ?_
  rintro db' hq
  refine Triple.bind (Triple.of_imp (fun _ h => h) (call_triple db'.tables) (fun _ _ h => h)
    fun _ _ _ => hdb) (fun _ => ?_) db' rfl
  exact Triple.ret fun db'' hdb'' => hdb'' ▸ hq

end Database

end InfiniShell.Ssh
