import InfiniShell.Ssh.Database
import InfiniShell.Ssh.ConfigParser
import Mathlib.Data.List.Sort

namespace InfiniShell.Ssh

open Effects Effects.Program

def SshRouteHop.invalid (hop : SshRouteHop) : Bool :=
  hop.port == some 0 || (trim hop.targetAlias).isEmpty || trim hop.targetAlias != hop.targetAlias ||
    hop.targetAlias.toList.head? == some '-' || decide (255 < hop.targetAlias.utf8ByteSize) ||
      hop.targetAlias.toList.any fun c => isControl c || isWhitespace c

def validateRoute (name : String) (hops : List SshRouteHop) : Except String Unit :=
  if (trim name).isEmpty then throw "invalid SSH route: 路径名称不能为空"
  else if hops.isEmpty || decide (8 < hops.length) then
    throw "invalid SSH route: 路径必须包含 1 到 8 个跳点"
  else if hops.any SshRouteHop.invalid then throw "invalid SSH route: 跳点别名或端口无效"
  else pure ()

/-- `list_all_for_sync`: tombstones included, the newest row first. -/
def listAllForSync (t : Tables) : List MachineMemory :=
  t.machineMemories.values.insertionSort fun a b => b.updatedAt ≤ a.updatedAt

/-- Rows of `ORDER BY parent_id, sort_order`: no parent first, equal rows as inserted. -/
def nodeRowLe (a b : SshNodeRow) : Bool :=
  ((compare a.parentId b.parentId).then (compare a.sortOrder b.sortOrder)).isLE

def listNodes (t : Tables) : List SshNodeRow := t.nodes.insertionSort fun a b => nodeRowLe a b

def getServer (nodeId : String) (t : Tables) : Option SshServerRow :=
  t.servers.find? fun row => row.nodeId == nodeId

def listOneKeyCredentials (t : Tables) : List SshOneKeyCredentialRow :=
  t.oneKeyCredentials.insertionSort fun a b => a.label ≤ b.label

def hopsOf (routeId : String) (t : Tables) : List SshRouteHopRow :=
  (t.routeHops.filter fun hop => hop.routeId == routeId).insertionSort fun a b => a.position ≤ b.position

def routeFromRow (t : Tables) (row : SshRouteRow) : Except String SshRoute := do
  let hopRows := hopsOf row.id t
  if hopRows.map SshRouteHopRow.position ≠ List.range hopRows.length then
    throw s!"invalid SSH route: 路径 {row.id} 的跳点顺序或执行作用域无效"
  let hops := hopRows.map fun hop =>
    { nodeId := hop.nodeId, targetAlias := hop.targetAlias, port := hop.port : SshRouteHop }
  validateRoute row.name hops
  pure {
    id := row.id
    name := row.name
    targetNodeId := row.targetNodeId
    hops
    createdAt := row.createdAt
    updatedAt := row.updatedAt
    lastConnectedAt := row.lastConnectedAt }

def routeRowLe (a b : SshRouteRow) : Bool :=
  ((compare b.updatedAt a.updatedAt).then (compare a.id b.id)).isLE

def listRoutes (t : Tables) : Except String (List SshRoute) :=
  (t.routes.insertionSort fun a b => routeRowLe a b).mapM (routeFromRow t)

end InfiniShell.Ssh

namespace InfiniShell.Ssh

open Effects Effects.Program Collections Sync

def allSecretKinds : List SecretKind := [.password, .passphrase, .rootPassword, .oneKeyPassword]

inductive Warning where
  | rollbackFailed (nodeId : String) (kind : SecretKind) (error : SshSecretStoreError)
  | clearFailed (nodeId : String) (kind : SecretKind) (error : SshSecretStoreError)
  | orphanSecretFailed (nodeId : String) (kind : SecretKind) (error : SshSecretStoreError)
  | cycleNode (nodeId : String) (parentId : Option String)
  | orphanNode (nodeId : String) (parentId : Option String)

/-- The device a provider works on: its database, a credential store with state
`S`, and the warnings logged so far. -/
structure World (S : Type) where
  db : Database
  secrets : S
  log : List Warning := []

variable {S : Type}

def onDb {A : Type} (p : Program Database String A) : Program (World S) String A :=
  zoom World.db (fun db w => { w with db }) p

def onSecrets {A : Type} (p : Program S SshSecretStoreError A) :
    Program (World S) SshSecretStoreError A :=
  zoom World.secrets (fun secrets w => { w with secrets }) p

def warn (warnings : List Warning) : Program (World S) SshError Unit :=
  Program.modify fun w => { w with log := w.log ++ warnings }

/-! Memories -/

def sortByKey {M : Type} (key : M → String) (memories : List M) : List M :=
  memories.insertionSort fun a b => key a ≤ key b

def encryptContent (crypto : Crypto) (token : String) (nonce : Nat) (memory : MachineMemory) :
    Except CryptoError (Option String) :=
  if memory.deletedAt.isSome then pure none
  else some <$> crypto.encrypt token nonce memory.content

def encryptMachineMemory (crypto : Crypto) (rfc3339 : Rfc3339) (token : String) (nonce : Nat)
    (memory : MachineMemory) : Except CryptoError SyncMachineMemory := do
  let contentEncrypted ← encryptContent crypto token nonce memory
  pure {
    machineKey := memory.machineKey
    contentEncrypted
    hostnameAlias := memory.hostnameAlias
    sshNodeId := memory.sshNodeId
    lastReviewAt := memory.lastReviewAt.map rfc3339.format
    updatedAt := rfc3339.format memory.updatedAt
    deletedAt := memory.deletedAt.map rfc3339.format }

def encryptMachineMemories (crypto : Crypto) (rfc3339 : Rfc3339) (token : String) (nonce : Nat)
    (memories : List MachineMemory) : Except CryptoError (List SyncMachineMemory) := do
  let encrypted ← memories.mapM (encryptMachineMemory crypto rfc3339 token nonce)
  pure (sortByKey SyncMachineMemory.machineKey encrypted)

def parseMemoryTimestamp (rfc3339 : Rfc3339) (column machineKey value : String) :
    Except SshError Int :=
  match rfc3339.parse value with
  | some at' => pure at'
  | none => throw (.serialization s!"invalid {column} for machine memory {machineKey}: {value}")

def decryptContent (crypto : Crypto) (token : String) (memory : SyncMachineMemory) (deleted : Bool) :
    Except SshError String :=
  match memory.contentEncrypted with
  | some content => (crypto.decrypt token content).mapError .crypto
  | none =>
    if deleted then pure ""
    else throw (.serialization
      s!"active machine memory is missing encrypted content: {memory.machineKey}")

def decryptMachineMemory (crypto : Crypto) (rfc3339 : Rfc3339) (token : String)
    (memory : SyncMachineMemory) : Except SshError MachineMemory := do
  let lastReviewAt ← memory.lastReviewAt.mapM
    (parseMemoryTimestamp rfc3339 "last_review_at" memory.machineKey)
  let updatedAt ← parseMemoryTimestamp rfc3339 "updated_at" memory.machineKey memory.updatedAt
  let deletedAt ← memory.deletedAt.mapM
    (parseMemoryTimestamp rfc3339 "deleted_at" memory.machineKey)
  let content ← decryptContent crypto token memory deletedAt.isSome
  if deletedAt.isNone ∧ maxMemoryChars < content.length then
    throw (.serialization
      s!"machine memory exceeds {maxMemoryChars} characters: {memory.machineKey}")
  pure {
    machineKey := memory.machineKey
    content := if deletedAt.isSome then "" else content
    hostnameAlias := memory.hostnameAlias
    sshNodeId := memory.sshNodeId
    lastReviewAt
    updatedAt
    deletedAt }

/-- The loop of `decrypt_machine_memories`, with the keys seen so far. -/
def decryptEach (crypto : Crypto) (rfc3339 : Rfc3339) (token : String) :
    List String → List SyncMachineMemory → Except SshError (List MachineMemory)
  | _, [] => pure []
  | seen, memory :: rest => do
    if seen.contains memory.machineKey then
      throw (.serialization s!"duplicate machine memory key: {memory.machineKey}")
    let decrypted ← decryptMachineMemory crypto rfc3339 token memory
    let others ← decryptEach crypto rfc3339 token (memory.machineKey :: seen) rest
    pure (decrypted :: others)

def decryptMachineMemories (crypto : Crypto) (rfc3339 : Rfc3339) (token : String)
    (memories : List SyncMachineMemory) : Except SshError (List MachineMemory) :=
  sortByKey MachineMemory.machineKey <$> decryptEach crypto rfc3339 token [] memories

def persistMemories (memories : List MachineMemory) : Program Database String Unit :=
  forEach memories fun memory => Database.execute (Tables.upsertFromSync memory)

def mergeAndPersistMemories (remoteMemories : List MachineMemory) :
    Program Database String ApplyDataOutcome := do
  let localMemories ← Database.load listAllForSync
  let merged := mergeMachineMemories localMemories remoteMemories
  (if merged.2.localChanged then persistMemories merged.1 else pure () : Program Database String Unit)
  pure merged.2

/-! Nodes -/

def childrenOf (nodes : List SyncNode) (parentId : Option String) : List SyncNode :=
  nodes.filter fun node => node.parentId == parentId

/-- The breadth-first walk: `queue` holds the nodes to visit, `seen` the ids visited. -/
def visit (nodes : List SyncNode) : Nat → List SyncNode → List String → List SyncNode × List String
  | 0, _, seen => ([], seen)
  | _, [], seen => ([], seen)
  | fuel + 1, node :: queue, seen =>
    if seen.contains node.id then visit nodes fuel queue seen
    else
      let (result, seen) :=
        visit nodes fuel (queue ++ childrenOf nodes (some node.id)) (node.id :: seen)
      (node :: result, seen)

/-- Each node enters the queue at most once, so the walk needs no more fuel. -/
def visitRoots (nodes : List SyncNode) : List SyncNode × List String :=
  visit nodes (nodes.length + 1) (childrenOf nodes none) []

def unreached (nodes : List SyncNode) : List SyncNode :=
  nodes.filter fun node => !(visitRoots nodes).2.contains node.id

def topologicallySortNodes (nodes : List SyncNode) : List SyncNode :=
  (visitRoots nodes).1 ++ (unreached nodes).map fun node => { node with parentId := none }

/-- `HashMap::from_iter` keeps the last node of an id. -/
def lastById (nodes : List SyncNode) (id : String) : Option SyncNode :=
  nodes.reverse.find? fun node => node.id == id

def followParents (nodes : List SyncNode) : Nat → SyncNode → List String → Bool
  | 0, _, _ => true
  | steps + 1, current, visited =>
    match current.parentId with
    | none => false
    | some parentId =>
      if visited.contains current.id then true
      else
        match lastById nodes parentId with
        | some parent => followParents nodes steps parent (current.id :: visited)
        | none => false

def hasCycleMembership (start : SyncNode) (nodes : List SyncNode) : Bool :=
  followParents nodes (nodes.length + 1) start []

def topologyWarnings (nodes : List SyncNode) : List Warning :=
  (unreached nodes).map fun node =>
    if hasCycleMembership node nodes then .cycleNode node.id node.parentId
    else .orphanNode node.id node.parentId

/-! Secrets -/

def oneKeySecretKind : OneKeyCredentialKind → SecretKind
  | .password => .oneKeyPassword
  | .key => .passphrase

def parseCredentialKind (kind : String) : OneKeyCredentialKind :=
  (OneKeyCredentialKind.parse kind).getD .password

/-- What the payload says about secrets: owner, kind and the encrypted value. -/
structure SecretField where
  nodeId : String
  kind : SecretKind
  encrypted : Option String

def secretFields (data : SshSyncData) : List SecretField :=
  (data.servers.flatMap fun server =>
    [⟨server.nodeId, .password, server.passwordEncrypted⟩,
      ⟨server.nodeId, .passphrase, server.passphraseEncrypted⟩,
      ⟨server.nodeId, .rootPassword, server.rootPasswordEncrypted⟩]) ++
  data.oneKeyCredentials.map fun credential =>
    ⟨credential.id, oneKeySecretKind (parseCredentialKind credential.kind),
      credential.passwordEncrypted⟩

structure PendingSecret where
  nodeId : String
  kind : SecretKind
  value : String

def collectSecrets (crypto : Crypto) (token : String) :
    List SecretField → Except SshError (List PendingSecret × List (String × SecretKind))
  | [] => pure ([], [])
  | field :: fields =>
    match field.encrypted with
    | some encrypted => do
      let value ← (crypto.decrypt token encrypted).mapError .crypto
      let (pending, clears) ← collectSecrets crypto token fields
      pure (⟨field.nodeId, field.kind, value⟩ :: pending, clears)
    | none => do
      let (pending, clears) ← collectSecrets crypto token fields
      pure (pending, (field.nodeId, field.kind) :: clears)

structure WrittenSecret where
  nodeId : String
  kind : SecretKind
  priorValue : Option String

def rollbackEntry (store : SshSecretStore S) (entry : WrittenSecret) :
    Program S SshSecretStoreError Unit :=
  match entry.priorValue with
  | some value => store.set entry.nodeId entry.kind value
  | none => store.delete entry.nodeId entry.kind

/-- Run `p`; where it fails, log what `warning` makes of the error and go on. -/
def orWarn (warning : SshSecretStoreError → Warning) (p : Program S SshSecretStoreError Unit) :
    Program (World S) SshError Unit := do
  match ← attempt (F := SshError) (onSecrets p) with
  | .ok _ => pure ()
  | .error e => warn [warning e]

def rollbackKeychainWrites (store : SshSecretStore S) (written : List WrittenSecret) :
    Program (World S) SshError Unit :=
  forEach written fun entry =>
    orWarn (.rollbackFailed entry.nodeId entry.kind) (rollbackEntry store entry)

/-- Phase 1: each secret is written after its prior value has been read. -/
def writeSecrets (store : SshSecretStore S) :
    List WrittenSecret → List PendingSecret → Program (World S) SshError (List WrittenSecret)
  | written, [] => pure written
  | written, s :: pending => do
    match ← attempt (F := SshError) (onSecrets (store.get s.nodeId s.kind)) with
    | .error e =>
      rollbackKeychainWrites store written
      throw (.provider (.readPreviousSecret s.nodeId s.kind written.length e))
    | .ok priorValue =>
      match ← attempt (F := SshError) (onSecrets (store.set s.nodeId s.kind s.value)) with
      | .error e =>
        rollbackKeychainWrites store written
        throw (.provider (.writeSecret s.nodeId s.kind e))
      | .ok _ => writeSecrets store (written ++ [⟨s.nodeId, s.kind, priorValue⟩]) pending

/-! The transaction -/

def insertCredential (credential : SyncOneKeyCredential) : Program Database String Unit :=
  Database.execute (Tables.insertOneKeyCredential {
    id := credential.id
    label := credential.label
    username := credential.username
    kind := parseCredentialKind credential.kind
    keyPath := credential.keyPath })

def insertSyncNode (node : SyncNode) : Program Database String Unit := do
  match NodeKind.parse node.kind with
  | none => throw s!"无效的 kind: {node.kind}"
  | some kind =>
    Database.execute (Tables.insertNode {
      id := node.id
      parentId := node.parentId
      kind
      name := node.name
      sortOrder := node.sortOrder
      isCollapsed := false })
    if node.isCollapsed then Database.execute (Tables.setCollapsed node.id true)

def keepSynced (syncedNodeIds : List String) (nodeId : Option String) : Option String :=
  nodeId.filter fun id => syncedNodeIds.contains id

def restoreRouteTarget (syncedNodeIds : List String) (route : SshRouteRow) :
    Program Database String Unit :=
  match keepSynced syncedNodeIds route.targetNodeId with
  | some nodeId => Database.execute (Tables.updateRouteTarget route.id nodeId)
  | none => pure ()

def restoreHopNode (syncedNodeIds : List String) (hop : SshRouteHopRow) :
    Program Database String Unit :=
  match keepSynced syncedNodeIds hop.nodeId with
  | some nodeId => Database.execute (Tables.updateHopNode hop.routeId hop.position nodeId)
  | none => pure ()

def insertSyncHop (syncedNodeIds : List String) (routeId : String) (hop : SshRouteHop × Nat) :
    Program Database String Unit :=
  if hop.1.invalid then throw "同步数据包含无效的 SSH 跳点"
  else Database.execute (Tables.insertRouteHop {
    routeId
    position := hop.2
    nodeId := keepSynced syncedNodeIds hop.1.nodeId
    targetAlias := hop.1.targetAlias
    port := hop.1.port })

def insertSyncRoute (syncedNodeIds : List String) (route : SshRoute) :
    Program Database String Unit :=
  if (trim route.name).isEmpty || route.hops.isEmpty || decide (8 < route.hops.length) then
    throw "同步数据包含无效的 SSH 路径"
  else do
    Database.execute (Tables.insertRoute {
      id := route.id
      name := route.name
      targetNodeId := keepSynced syncedNodeIds route.targetNodeId
      createdAt := route.createdAt
      updatedAt := route.updatedAt
      lastConnectedAt := route.lastConnectedAt })
    forEach route.hops.zipIdx (insertSyncHop syncedNodeIds route.id)

/-- The references of the local routes, read before their nodes are deleted. -/
def preservedReferences (data : SshSyncData) :
    Program Database String (List SshRouteRow × List SshRouteHopRow) :=
  match data.routes with
  | none => do
    let routes ← Database.load Tables.routes
    let hops ← Database.load Tables.routeHops
    pure (routes, hops)
  | some _ => pure ([], [])

def clearRoutes (data : SshSyncData) : Program Database String Unit :=
  match data.routes with
  | none => pure ()
  | some _ => Database.execute Tables.deleteRoutes

def replaceRows (data : SshSyncData) (sortedNodes : List SyncNode)
    (remoteMemories : List MachineMemory) : Program Database String ApplyDataOutcome := do
  let syncedNodeIds := sortedNodes.map SyncNode.id
  let preserved ← preservedReferences data
  clearRoutes data
  Database.execute Tables.deleteNodes
  forEach data.oneKeyCredentials insertCredential
  forEach sortedNodes insertSyncNode
  forEach data.servers fun server => Database.execute (Tables.insertServer server)
  forEach preserved.1 (restoreRouteTarget syncedNodeIds)
  forEach preserved.2 (restoreHopNode syncedNodeIds)
  forEach (data.routes.getD []) (insertSyncRoute syncedNodeIds)
  mergeAndPersistMemories remoteMemories

/-! The provider -/

def existingSecretOwnerIds : Program Database String (List String) := do
  let nodeIds ← Database.withConn (Database.load Tables.nodeIds)
  let credentialIds ← Database.withConn (Database.load Tables.credentialIds)
  pure (nodeIds ++ credentialIds)

def clearSecret (store : SshSecretStore S) (key : String × SecretKind) :
    Program (World S) SshError Unit :=
  orWarn (.clearFailed key.1 key.2) (store.delete key.1 key.2)

def clearOrphan (store : SshSecretStore S) (newOwnerIds : List String) (oldId : String) :
    Program (World S) SshError Unit :=
  if newOwnerIds.contains oldId then pure ()
  else forEach allSecretKinds fun kind =>
    orWarn (.orphanSecretFailed oldId kind) (store.delete oldId kind)

def clearSecrets (store : SshSecretStore S) (data : SshSyncData)
    (clears : List (String × SecretKind)) (oldOwnerIds : List String) :
    Program (World S) SshError Unit := do
  let newOwnerIds := data.nodes.map SyncNode.id ++ data.oneKeyCredentials.map SyncOneKeyCredential.id
  forEach clears (clearSecret store)
  forEach oldOwnerIds (clearOrphan store newOwnerIds)

def writeAndReplace (store : SshSecretStore S) (data : SshSyncData) (pending : List PendingSecret)
    (clears : List (String × SecretKind)) (remoteMemories : List MachineMemory)
    (oldOwnerIds : List String) : Program (World S) SshError ApplyDataOutcome := do
  let written ← writeSecrets store [] pending
  match ← attempt (F := SshError) (onDb (Database.withConn (Database.transaction
      (replaceRows data (topologicallySortNodes data.nodes) remoteMemories)))) with
  | .error e =>
    rollbackKeychainWrites store written
    throw (.provider (.writeDatabase written.length e))
  | .ok outcome =>
    clearSecrets store data clears oldOwnerIds
    pure outcome

def applyData (crypto : Crypto) (rfc3339 : Rfc3339) (store : SshSecretStore S) (token : String)
    (json : SectionJson) : Program (World S) SshError ApplyDataOutcome := do
  let data ← ofResult (json.fromValue.mapError .serialization)
  let remoteMemories ← ofResult (decryptMachineMemories crypto rfc3339 token data.machineMemories)
  let (pending, clears) ← ofResult (collectSecrets crypto token (secretFields data))
  warn (topologyWarnings data.nodes)
  let oldOwnerIds ← mapError (fun e => .provider (.database e)) (onDb existingSecretOwnerIds)
  writeAndReplace store data pending clears remoteMemories oldOwnerIds

def reconcileData (crypto : Crypto) (rfc3339 : Rfc3339) (token : String) (json : SectionJson) :
    Program (World S) SshError ApplyDataOutcome := do
  let data ← ofResult (json.fromValue.mapError .serialization)
  let remoteMemories ← ofResult (decryptMachineMemories crypto rfc3339 token data.machineMemories)
  mapError (fun e => .provider (.database e))
    (onDb (Database.withConn (Database.transaction (mergeAndPersistMemories remoteMemories))))

def readSecret (store : SshSecretStore S) (nodeId : String) (kind : SecretKind) :
    Program (World S) SshError (Option String) :=
  mapError (fun e => .provider (.readSecret nodeId kind e)) (onSecrets (store.get nodeId kind))

def encryptOptional (crypto : Crypto) (token : String) (nonce : Nat) :
    Option String → Except SshError (Option String)
  | none => pure none
  | some s => if s.isEmpty then pure none else some <$> (crypto.encrypt token nonce s).mapError .crypto

def collectCredential (crypto : Crypto) (store : SshSecretStore S) (token : String) (nonce : Nat)
    (row : SshOneKeyCredentialRow) : Program (World S) SshError SyncOneKeyCredential := do
  let password ← readSecret store row.id (oneKeySecretKind row.kind)
  let passwordEncrypted ← ofResult (encryptOptional crypto token nonce password)
  pure {
    id := row.id
    label := row.label
    username := row.username
    kind := row.kind.asDbStr
    keyPath := row.keyPath
    passwordEncrypted }

def SshNodeRow.toSync (row : SshNodeRow) : SyncNode where
  id := row.id
  parentId := row.parentId
  kind := row.kind.asDbStr
  name := row.name
  sortOrder := row.sortOrder
  isCollapsed := row.isCollapsed

def collectServer (crypto : Crypto) (store : SshSecretStore S) (token : String) (nonce : Nat)
    (row : SshServerRow) : Program (World S) SshError SyncServer := do
  let password ← readSecret store row.nodeId .password
  let passphrase ← readSecret store row.nodeId .passphrase
  let rootPassword ← readSecret store row.nodeId .rootPassword
  let passwordEncrypted ← ofResult (encryptOptional crypto token nonce password)
  let passphraseEncrypted ← ofResult (encryptOptional crypto token nonce passphrase)
  let rootPasswordEncrypted ← ofResult (encryptOptional crypto token nonce rootPassword)
  pure {
    nodeId := row.nodeId
    host := row.host
    port := row.port
    username := row.username
    authType := row.authType.asDbStr
    keyPath := row.keyPath
    startupCommand := row.startupCommand
    notes := row.notes
    credentialId := row.credentialId
    passwordEncrypted
    passphraseEncrypted
    rootPasswordEncrypted }

def onDbConn {A : Type} (query : Tables → A) : Program (World S) SshError A :=
  mapError (fun e => .provider (.database e)) (onDb (Database.withConn (Database.load query)))

def collectEach {A B : Type} (f : A → Program (World S) SshError B) :
    List A → Program (World S) SshError (List B)
  | [] => pure []
  | a :: l => do
    let b ← f a
    let bs ← collectEach f l
    pure (b :: bs)

def collectNodeServer (crypto : Crypto) (store : SshSecretStore S) (token : String) (nonce : Nat)
    (node : SshNodeRow) : Program (World S) SshError (List SyncServer) :=
  match node.kind with
  | .folder => pure []
  | .server => do
    match ← onDbConn (getServer node.id) with
    | none => pure []
    | some row =>
      let server ← collectServer crypto store token nonce row
      pure [server]

def collectData (crypto : Crypto) (rfc3339 : Rfc3339) (store : SshSecretStore S) (nonce : Nat)
    (token : String) : Program (World S) SshError SectionJson := do
  let nodes ← onDbConn listNodes
  let memories ← onDbConn listAllForSync
  let machineMemories ←
    ofResult ((encryptMachineMemories crypto rfc3339 token nonce memories).mapError .crypto)
  let listed ← onDbConn listRoutes
  let routes ← ofResult (listed.mapError fun e => .provider (.database e))
  let credentials ← onDbConn listOneKeyCredentials
  let oneKeyCredentials ← collectEach (collectCredential crypto store token nonce) credentials
  let servers ← collectEach (collectNodeServer crypto store token nonce) nodes
  pure (.ssh {
    nodes := nodes.map SshNodeRow.toSync
    servers := servers.flatten
    oneKeyCredentials
    machineMemories
    routes := some routes })

end InfiniShell.Ssh
