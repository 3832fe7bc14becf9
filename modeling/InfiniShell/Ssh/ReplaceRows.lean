import InfiniShell.Ssh.SyncProvider

namespace InfiniShell.Ssh

open Effects Effects.Program Collections Sync

def SshServerRow.toSync (row : SshServerRow) : SyncServer where
  nodeId := row.nodeId
  host := row.host
  port := row.port
  username := row.username
  authType := row.authType.asDbStr
  keyPath := row.keyPath
  startupCommand := row.startupCommand
  notes := row.notes
  credentialId := row.credentialId
  passwordEncrypted := none
  passphraseEncrypted := none
  rootPasswordEncrypted := none

def SyncServer.withoutSecrets (server : SyncServer) : SyncServer :=
  { server with passwordEncrypted := none, passphraseEncrypted := none, rootPasswordEncrypted := none }

variable {s : String}

theorem NodeKind.asDbStr_of_parse {kind : NodeKind} (h : parse s = some kind) : kind.asDbStr = s := by
  unfold parse at h
  split at h <;> simp_all [asDbStr] <;> (subst h; rfl)

theorem AuthType.asDbStr_of_parse {auth : AuthType} (h : parse s = some auth) : auth.asDbStr = s := by
  unfold parse at h
  split at h <;> simp_all [asDbStr] <;> (subst h; rfl)

theorem sortByKey_perm {M : Type} (key : M → String) (l : List M) : (sortByKey key l).Perm l :=
  List.perm_insertionSort _ l

theorem listAllForSync_perm (t : Tables) : (listAllForSync t).Perm t.machineMemories.values :=
  List.perm_insertionSort _ _

def mergeOutcome (m r : MemoryMap) : ApplyDataOutcome where
  localChanged := decide (m ⊔ r ≠ m)
  needsUpload := decide (m ⊔ r ≠ r)

/-- What the merge of memories into tables `t` makes of them. -/
structure Joined (memories : List MachineMemory) (t : Tables) (outcome : ApplyDataOutcome)
    (t' : Tables) : Prop where
  nodes : t'.nodes = t.nodes
  servers : t'.servers = t.servers
  memories : Sound t.machineMemories → Sound (byKey memories) →
    t'.machineMemories = t.machineMemories ⊔ byKey memories ∧
    outcome = mergeOutcome t.machineMemories (byKey memories)

/-- What the transaction of `apply_data` makes of tables `t`. -/
structure Replaced (data : SshSyncData) (memories : List MachineMemory) (t : Tables)
    (outcome : ApplyDataOutcome) (t' : Tables) : Prop where
  nodes : t'.nodes.map SshNodeRow.toSync = topologicallySortNodes data.nodes
  servers : t'.servers.map SshServerRow.toSync = data.servers.map SyncServer.withoutSecrets
  memories : Sound t.machineMemories → Sound (byKey memories) →
    t'.machineMemories = t.machineMemories ⊔ byKey memories ∧
    outcome = mergeOutcome t.machineMemories (byKey memories)

section Memories

variable {t : Tables}

def withMemories (t : Tables) (m : MemoryMap) : Tables := { t with machineMemories := m }

def storedRow (v : MachineMemory) : MachineMemory := { v with content := truncateContent v.content }

def storeAll (memories : List MachineMemory) (m : MemoryMap) : MemoryMap :=
  memories.foldl (fun m v => m.insert v.machineKey (storedRow v)) m

theorem persistMemories_triple (memories : List MachineMemory) :
    Triple (fun db : Database => db.tables = t) (persistMemories memories)
      (fun _ db => db.tables = withMemories t (storeAll memories t.machineMemories))
      (fun _ _ => True) := by
  induction memories generalizing t with
  | nil => exact Triple.ret fun _ h => h
  | cons v memories ih =>
    refine Triple.bind (Triple.of_imp (fun _ h => h) (Database.execute_triple _) (fun _ _ h => h)
      fun _ _ _ => trivial) fun _ => ?_
    refine Triple.of_imp (fun db hdb => ?_) (ih (t := withMemories t
      (t.machineMemories.insert v.machineKey (storedRow v)))) (fun _ _ h => h) fun _ _ h => h
    simpa [Tables.upsertFromSync, withMemories, storedRow, pure, Except.pure, eq_comm] using hdb

theorem storeAll_values {m n : MemoryMap} (hn : Sound n) (hle : m ≤ n) :
    storeAll n.values m = n := by
  rw [storeAll, BTreeMap.values, List.foldl_map]
  refine Eq.trans ?_ (BTreeMap.foldl_insert_entries hle)
  refine List.foldl_ext _ _ _ fun m' e he => ?_
  have hrow := hn.values e.2 (List.mem_map_of_mem he)
  rw [storedRow, hrow.truncate_eq, hn.keyed.entries e he]

theorem mergeAndPersistMemories_triple (memories : List MachineMemory) :
    Triple (fun db : Database => db.tables = t) (mergeAndPersistMemories memories)
      (fun outcome db => Joined memories t outcome db.tables) (fun _ _ => True) := by
  refine Triple.bind (Triple.of_imp (fun _ h => h) (Database.load_triple listAllForSync)
    (fun _ _ h => h) fun _ _ _ => trivial) fun locals => ?_
  rintro db ⟨rfl, hdb⟩
  have hmerge := mergeMachineMemories_eq (listAllForSync t) memories
  refine Triple.bind (P := fun db => db.tables = t) (Q := fun _ db => db.tables = withMemories t
    (if (mergeMachineMemories (listAllForSync t) memories).2.localChanged then
      storeAll (mergeMachineMemories (listAllForSync t) memories).1 t.machineMemories
    else t.machineMemories)) ?_ (fun _ => Triple.ret fun db hdb => ?_) db hdb
  · by_cases hchanged : (mergeMachineMemories (listAllForSync t) memories).2.localChanged
    · simp only [hchanged, ↓reduceIte]
      exact persistMemories_triple _
    · simp only [hchanged]
      exact Triple.ret fun _ h => h
  · refine ⟨by rw [hdb, withMemories], by rw [hdb, withMemories], fun hlocal hremote => ?_⟩
    rw [hdb, hmerge, hlocal.keyed.byKey_of_perm (listAllForSync_perm t)]
    refine ⟨?_, rfl⟩
    by_cases hchanged : t.machineMemories ⊔ byKey memories = t.machineMemories
    · simp [hchanged, withMemories]
    · simp [hchanged, withMemories, storeAll_values (hlocal.sup hremote) le_sup_left]

end Memories

structure Kept (t t' : Tables) : Prop where
  nodes : t'.nodes = t.nodes
  servers : t'.servers = t.servers
  machineMemories : t'.machineMemories = t.machineMemories

theorem Kept.refl (t : Tables) : Kept t t := ⟨rfl, rfl, rfl⟩

theorem Kept.trans {t t' t'' : Tables} (h : Kept t t') (h' : Kept t' t'') : Kept t t'' :=
  ⟨h'.nodes.trans h.nodes, h'.servers.trans h.servers, h'.machineMemories.trans h.machineMemories⟩

/-- A statement that leaves nodes, servers and memories alone. -/
def Keeps (statement : Tables → Except String Tables) : Prop :=
  ∀ t t', statement t = .ok t' → Kept t t'

theorem keeps_insertOneKeyCredential (row : SshOneKeyCredentialRow) :
    Keeps (Tables.insertOneKeyCredential row) := by
  intro t t' h
  unfold Tables.insertOneKeyCredential at h
  split at h <;> cases h
  exact ⟨rfl, rfl, rfl⟩

theorem keeps_insertRoute (row : SshRouteRow) : Keeps (Tables.insertRoute row) := by
  intro t t' h
  unfold Tables.insertRoute at h
  split at h
  · cases h
  · split at h <;> cases h
    exact ⟨rfl, rfl, rfl⟩

theorem keeps_insertRouteHop (row : SshRouteHopRow) : Keeps (Tables.insertRouteHop row) := by
  intro t t' h
  unfold Tables.insertRouteHop at h
  repeat' split at h
  all_goals cases h
  exact ⟨rfl, rfl, rfl⟩

theorem keeps_updateRouteTarget (routeId nodeId : String) :
    Keeps (Tables.updateRouteTarget routeId nodeId) := by
  intro t t' h
  unfold Tables.updateRouteTarget at h
  split at h <;> cases h
  exact ⟨rfl, rfl, rfl⟩

theorem keeps_updateHopNode (routeId : String) (position : Nat) (nodeId : String) :
    Keeps (Tables.updateHopNode routeId position nodeId) := by
  intro t t' h
  simp only [Tables.updateHopNode] at h
  split at h <;> cases h
  exact ⟨rfl, rfl, rfl⟩

section Loops

variable {t : Tables}

theorem execute_keeps {statement : Tables → Except String Tables} (h : Keeps statement) :
    Triple (fun db : Database => Kept t db.tables) (Database.execute statement)
      (fun _ db => Kept t db.tables) (fun _ _ => True) := by
  intro db hdb
  exact Triple.of_imp (fun _ h => h) (Database.execute_triple statement)
    (fun _ (db' : Database) hdb' => hdb.trans (h db.tables db'.tables hdb')) (fun _ _ _ => trivial) db rfl

theorem forEach_keeps {A : Type} {body : A → Program Database String Unit}
    (h : ∀ a, Triple (fun db : Database => Kept t db.tables) (body a) (fun _ db => Kept t db.tables)
      (fun _ _ => True)) (l : List A) :
    Triple (fun db : Database => Kept t db.tables) (forEach l body) (fun _ db => Kept t db.tables)
      (fun _ _ => True) :=
  Triple.forEach (fun _ (db : Database) => Kept t db.tables) (fun a _ => h a) l

theorem insertCredential_keeps (credential : SyncOneKeyCredential) :
    Triple (fun db : Database => Kept t db.tables) (insertCredential credential)
      (fun _ db => Kept t db.tables) (fun _ _ => True) :=
  execute_keeps (keeps_insertOneKeyCredential _)

theorem restoreRouteTarget_keeps (ids : List String) (route : SshRouteRow) :
    Triple (fun db : Database => Kept t db.tables) (restoreRouteTarget ids route)
      (fun _ db => Kept t db.tables) (fun _ _ => True) := by
  unfold restoreRouteTarget
  split
  · exact execute_keeps (keeps_updateRouteTarget _ _)
  · exact Triple.ret fun _ h => h

theorem restoreHopNode_keeps (ids : List String) (hop : SshRouteHopRow) :
    Triple (fun db : Database => Kept t db.tables) (restoreHopNode ids hop)
      (fun _ db => Kept t db.tables) (fun _ _ => True) := by
  unfold restoreHopNode
  split
  · exact execute_keeps (keeps_updateHopNode _ _ _)
  · exact Triple.ret fun _ h => h

theorem insertSyncHop_keeps (ids : List String) (routeId : String) (hop : SshRouteHop × Nat) :
    Triple (fun db : Database => Kept t db.tables) (insertSyncHop ids routeId hop)
      (fun _ db => Kept t db.tables) (fun _ _ => True) := by
  unfold insertSyncHop
  split
  · exact Triple.fail fun _ _ => trivial
  · exact execute_keeps (keeps_insertRouteHop _)

theorem insertSyncRoute_keeps (ids : List String) (route : SshRoute) :
    Triple (fun db : Database => Kept t db.tables) (insertSyncRoute ids route)
      (fun _ db => Kept t db.tables) (fun _ _ => True) := by
  unfold insertSyncRoute
  split
  · exact Triple.fail fun _ _ => trivial
  · exact Triple.bind (execute_keeps (keeps_insertRoute _)) fun _ =>
      forEach_keeps (insertSyncHop_keeps ids route.id) _

/-- The tables while the rows of a payload go in: nodes `ns` and servers `ss` are there. -/
structure Holding (ns : List SyncNode) (ss : List SyncServer) (m : MemoryMap) (t : Tables) : Prop where
  nodes : t.nodes.map SshNodeRow.toSync = ns
  servers : t.servers.map SshServerRow.toSync = ss
  machineMemories : t.machineMemories = m

variable {ns : List SyncNode} {ss : List SyncServer} {m : MemoryMap} {t t' : Tables}

theorem Kept.holding (h : Kept t t') (ht : Holding ns ss m t) : Holding ns ss m t' :=
  ⟨h.nodes ▸ ht.nodes, h.servers ▸ ht.servers, h.machineMemories ▸ ht.machineMemories⟩

theorem holding_of_keeps {body : Program Database String Unit}
    (h : ∀ t, Triple (fun db : Database => Kept t db.tables) body (fun _ db => Kept t db.tables)
      (fun _ _ => True)) :
    Triple (fun db : Database => Holding ns ss m db.tables) body
      (fun _ db => Holding ns ss m db.tables) (fun _ _ => True) := by
  intro db hdb
  exact Triple.of_imp (Q := fun _ db' => Kept db.tables db'.tables) (fun _ h => h) (h db.tables)
    (fun _ _ hkept => hkept.holding hdb) (fun _ _ h => h) db (Kept.refl _)

theorem insertNode_ok {row : SshNodeRow} (h : Tables.insertNode row t = .ok t') :
    t' = { t with nodes := t.nodes ++ [row] } ∧ row.id ∉ t.nodeIds := by
  unfold Tables.insertNode at h
  split at h
  · cases h
  · rename_i hid
    split at h <;> cases h
    exact ⟨rfl, by simpa using hid⟩

theorem setCollapsed_ok {id : String} (h : Tables.setCollapsed id true t = .ok t') :
    t'.nodes = (t.nodes.map fun row => if row.id = id then { row with isCollapsed := true } else row) ∧
    t'.servers = t.servers ∧ t'.machineMemories = t.machineMemories := by
  unfold Tables.setCollapsed at h
  split at h <;> cases h
  exact ⟨rfl, rfl, rfl⟩

theorem insertSyncNode_triple (ns : List SyncNode) (ss : List SyncServer) (m : MemoryMap)
    (node : SyncNode) :
    Triple (fun db : Database => Holding ns ss m db.tables) (insertSyncNode node)
      (fun _ db => Holding (ns ++ [node]) ss m db.tables) (fun _ _ => True) := by
  unfold insertSyncNode
  split
  · exact Triple.fail fun _ _ => trivial
  · rename_i kind hkind
    intro db hdb
    refine Triple.bind (Triple.of_imp (fun _ h => h) (Database.execute_triple (t := db.tables) _)
      (fun _ _ h => insertNode_ok h) fun _ _ _ => trivial) (fun _ => ?_) db rfl
    rintro db₁ ⟨h₁, hid⟩
    have hsync : ∀ row ∈ db.tables.nodes, row.id ≠ node.id := fun row hrow he =>
      hid (List.mem_map.mpr ⟨row, hrow, he⟩)
    have hnode : node.kind = kind.asDbStr := (NodeKind.asDbStr_of_parse hkind).symm
    split
    · rename_i hcollapsed
      refine Triple.of_imp (fun _ h => h) (Database.execute_triple (t := db₁.tables) _)
        (fun _ db₂ h₂ => ?_) (fun _ _ _ => trivial) db₁ rfl
      obtain ⟨hn, hs, hm⟩ := setCollapsed_ok h₂
      refine ⟨?_, by rw [hs, h₁]; exact hdb.servers, by rw [hm, h₁]; exact hdb.machineMemories⟩
      have hold : (db.tables.nodes.map fun row =>
          if row.id = node.id then { row with isCollapsed := true } else row) = db.tables.nodes := by
        conv_rhs => rw [← List.map_id db.tables.nodes]
        exact List.map_congr_left fun row hrow => by simp [hsync row hrow]
      rw [hn, h₁]
      simp only [List.map_append, hold, hdb.nodes]
      simp [SshNodeRow.toSync, ← hnode, ← hcollapsed]
    · rename_i hcollapsed
      refine Triple.ret (P := fun db' => db'.tables = db₁.tables) (fun db₂ h₂ => ?_) db₁ rfl
      rw [h₂, h₁]
      have hfalse : node.isCollapsed = false := by simpa using hcollapsed
      refine ⟨?_, hdb.servers, hdb.machineMemories⟩
      simp [hdb.nodes, SshNodeRow.toSync, ← hnode, ← hfalse]

theorem insertServer_triple (ns : List SyncNode) (ss : List SyncServer) (m : MemoryMap)
    (server : SyncServer) :
    Triple (fun db : Database => Holding ns ss m db.tables)
      (Database.execute (Tables.insertServer server))
      (fun _ db => Holding ns (ss ++ [server.withoutSecrets]) m db.tables) (fun _ _ => True) := by
  intro db hdb
  refine Triple.of_imp (fun _ h => h) (Database.execute_triple (t := db.tables) _)
    (fun _ db₁ h₁ => ?_) (fun _ _ _ => trivial) db rfl
  unfold Tables.insertServer at h₁
  split at h₁
  · cases h₁
  · rename_i auth hauth
    split at h₁
    · cases h₁
    · split at h₁
      · cases h₁
      · simp only [pure, Except.pure, Except.ok.injEq] at h₁
        rw [← h₁]
        refine ⟨hdb.nodes, ?_, hdb.machineMemories⟩
        simp [hdb.servers, SshServerRow.toSync, SyncServer.withoutSecrets, AuthType.asDbStr_of_parse hauth]

theorem preservedReferences_triple (data : SshSyncData) :
    Triple (fun db : Database => db.tables = t) (preservedReferences data)
      (fun _ db => db.tables = t) (fun _ _ => True) := by
  unfold preservedReferences
  split
  · refine Triple.of_imp (fun _ h => h) (Triple.bind (Database.load_triple _) fun routes =>
      Triple.of_imp (fun _ h => h.2) (Triple.bind (Database.load_triple _) fun hops =>
        Triple.ret (Q := fun _ (db : Database) => db.tables = t) fun _ h => h.2) (fun _ _ h => h)
        fun _ _ h => h) (fun _ _ h => h) fun _ _ _ => trivial
  · exact Triple.ret fun _ h => h

theorem clearRoutes_keeps (data : SshSyncData) :
    Triple (fun db : Database => Kept t db.tables) (clearRoutes data)
      (fun _ db => Kept t db.tables) (fun _ _ => True) := by
  unfold clearRoutes
  split
  · exact Triple.ret fun _ h => h
  · refine execute_keeps fun t t' h => ?_
    cases h
    exact ⟨rfl, rfl, rfl⟩

theorem replaceRows_triple (data : SshSyncData) (memories : List MachineMemory) :
    Triple (fun db : Database => db.tables = t)
      (replaceRows data (topologicallySortNodes data.nodes) memories)
      (fun outcome db => Replaced data memories t outcome db.tables) (fun _ _ => True) := by
  let sorted := topologicallySortNodes data.nodes
  let ids := sorted.map SyncNode.id
  refine Triple.bind (preservedReferences_triple data) fun preserved => ?_
  refine Triple.bind (Triple.of_imp (fun db h => h ▸ Kept.refl t) (clearRoutes_keeps (t := t) data)
    (fun _ _ h => h) fun _ _ h => h) fun _ => ?_
  refine Triple.bind (Q := fun _ (db : Database) => Holding [] [] t.machineMemories db.tables) ?_ fun _ => ?_
  · intro db hdb
    refine Triple.of_imp (fun _ h => h) (Database.execute_triple (t := db.tables) _)
      (fun _ db' hdb' => ?_) (fun _ _ _ => trivial) db rfl
    cases db'
    cases hdb'
    exact ⟨rfl, rfl, hdb.machineMemories⟩
  refine Triple.bind (holding_of_keeps fun t => forEach_keeps insertCredential_keeps _) fun _ => ?_
  -- the nodes and the servers inserted so far, followed by those still to come, are all of them
  refine Triple.bind (Q := fun _ (db : Database) => Holding sorted [] t.machineMemories db.tables)
    (Triple.of_imp ?_ (Triple.forEach (fun rest (db : Database) => ∃ done, done ++ rest = sorted ∧
      Holding done [] t.machineMemories db.tables) ?_ sorted) ?_ fun _ _ h => h) fun _ => ?_
  · exact fun db hdb => ⟨[], rfl, hdb⟩
  · rintro node rest db ⟨done, hdone, hdb⟩
    exact Triple.of_imp (fun _ h => h) (insertSyncNode_triple done [] _ node)
      (fun _ db' hdb' => ⟨done ++ [node], by simpa using hdone, hdb'⟩) (fun _ _ h => h) db hdb
  · rintro _ db ⟨done, hdone, hdb⟩
    exact (List.append_nil done ▸ hdone) ▸ hdb
  refine Triple.bind (Q := fun _ (db : Database) => Holding sorted
    (data.servers.map SyncServer.withoutSecrets) t.machineMemories db.tables)
    (Triple.of_imp ?_ (Triple.forEach (fun rest (db : Database) => ∃ done, done ++ rest.map SyncServer.withoutSecrets =
      data.servers.map SyncServer.withoutSecrets ∧ Holding sorted done t.machineMemories db.tables)
      ?_ data.servers) ?_ fun _ _ h => h) fun _ => ?_
  · exact fun db hdb => ⟨[], rfl, hdb⟩
  · rintro server rest db ⟨done, hdone, hdb⟩
    exact Triple.of_imp (fun _ h => h) (insertServer_triple sorted done _ server)
      (fun _ db' hdb' => ⟨done ++ [server.withoutSecrets], by simpa using hdone, hdb'⟩)
      (fun _ _ h => h) db hdb
  · rintro _ db ⟨done, hdone, hdb⟩
    exact (List.append_nil done ▸ hdone) ▸ hdb
  refine Triple.bind (holding_of_keeps fun t => forEach_keeps (restoreRouteTarget_keeps ids) _) fun _ => ?_
  refine Triple.bind (holding_of_keeps fun t => forEach_keeps (restoreHopNode_keeps ids) _) fun _ => ?_
  refine Triple.bind (holding_of_keeps fun t => forEach_keeps (insertSyncRoute_keeps ids) _) fun _ => ?_
  intro db hdb
  refine Triple.of_imp (fun _ h => h) (mergeAndPersistMemories_triple (t := db.tables) memories)
    (fun outcome db' hdb' => ?_) (fun _ _ h => h) db rfl
  exact ⟨by rw [hdb'.nodes, hdb.nodes], by rw [hdb'.servers, hdb.servers],
    hdb.machineMemories ▸ hdb'.memories⟩

end Loops

end InfiniShell.Ssh
