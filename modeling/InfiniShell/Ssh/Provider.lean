import InfiniShell.Ssh.ApplyData

namespace InfiniShell.Ssh

open Effects Effects.Program Collections Sync

variable {S : Type} {t : Tables}

/-- The rows that `collect_data` finds for its server nodes. -/
def nodeServers (t : Tables) (node : SshNodeRow) : List SshServerRow :=
  match node.kind with
  | .folder => []
  | .server => (getServer node.id t).toList

structure Collected (crypto : Crypto) (rfc3339 : Rfc3339) (token : String) (nonce : Nat) (t : Tables)
    (data : SshSyncData) : Prop where
  nodes : data.nodes = (listNodes t).map SshNodeRow.toSync
  servers : data.servers.map SyncServer.withoutSecrets =
    ((listNodes t).flatMap (nodeServers t)).map SshServerRow.toSync
  memories : encryptMachineMemories crypto rfc3339 token nonce (listAllForSync t) = .ok data.machineMemories

def ReadsOnly {A : Type} (p : Program (World S) SshError A) : Prop :=
  ∀ t, Triple (fun w => w.db.tables = t) p (fun _ w => w.db.tables = t) (fun _ w => w.db.tables = t)

variable {A : Type}

theorem onDbConn_triple (query : Tables → A) :
    Triple (fun w : World S => w.db.tables = t) (onDbConn query) (fun a w => w.db.tables = t ∧ a = query t)
      (fun _ w => w.db.tables = t) := by
  have hload := Database.withConn_triple (t := t) (Database.load_triple query)
  refine Triple.mapError (Triple.zoom fun w hw => ?_)
  refine Triple.of_imp (fun db hdb => hdb ▸ hw) hload ?_ ?_
  · exact fun a db h => ⟨h.2, h.1⟩
  · exact fun e db h => h

theorem readSecret_readsOnly (store : SshSecretStore S) (nodeId : String) (kind : SecretKind) :
    ReadsOnly (readSecret store nodeId kind) := by
  intro t
  refine Triple.mapError (Triple.zoom fun w hw => ?_)
  exact Triple.of_imp (fun _ _ => trivial) (Triple.any (P := fun _ => True) _) (fun _ _ _ => hw)
    fun _ _ _ => hw

theorem ofResult_readsOnly (r : Except SshError A) : ReadsOnly (ofResult r : Program (World S) _ A) :=
  fun _ => Triple.of_imp (fun _ h => h) (Triple.ofResult fun _ h => h) (fun _ _ h => h.1) fun _ _ h => h

variable {A B : Type} {f : A → Program (World S) SshError B}

theorem ReadsOnly.bind {p : Program (World S) SshError A}
    (hp : ReadsOnly p) (hf : ∀ a, ReadsOnly (f a)) : ReadsOnly (p >>= f) :=
  fun t => Triple.bind (hp t) fun a => hf a t

theorem collectCredential_readsOnly (crypto : Crypto) (store : SshSecretStore S) (token : String)
    (nonce : Nat) (row : SshOneKeyCredentialRow) :
    ReadsOnly (collectCredential crypto store token nonce row) := by
  apply (readSecret_readsOnly store _ _).bind
  intro password
  apply (ofResult_readsOnly _).bind
  exact fun _ _ => Triple.ret fun _ h => h

theorem collectEach_readsOnly (hf : ∀ a, ReadsOnly (f a)) (l : List A) : ReadsOnly (collectEach f l) := by
  induction l with
  | nil => exact fun _ => Triple.ret fun _ h => h
  | cons a l ih =>
    apply (hf a).bind
    intro b
    apply ih.bind
    exact fun _ _ => Triple.ret fun _ h => h

theorem collectServer_triple (crypto : Crypto) (store : SshSecretStore S) (token : String) (nonce : Nat)
    (row : SshServerRow) :
    Triple (fun w : World S => w.db.tables = t) (collectServer crypto store token nonce row)
      (fun server w => w.db.tables = t ∧ server.withoutSecrets = row.toSync) (fun _ w => w.db.tables = t) := by
  have hread := fun kind => readSecret_readsOnly store row.nodeId kind t
  have hencrypt := fun secret =>
    ofResult_readsOnly (S := S) (encryptOptional crypto token nonce secret) t
  refine Triple.bind (hread _) fun password => Triple.bind (hread _) fun passphrase =>
    Triple.bind (hread _) fun rootPassword => ?_
  refine Triple.bind (hencrypt _) fun _ => Triple.bind (hencrypt _) fun _ =>
    Triple.bind (hencrypt _) fun _ => ?_
  exact Triple.ret fun _ h => ⟨h, rfl⟩

theorem collectNodeServer_triple (crypto : Crypto) (store : SshSecretStore S) (token : String) (nonce : Nat)
    (node : SshNodeRow) :
    Triple (fun w : World S => w.db.tables = t) (collectNodeServer crypto store token nonce node)
      (fun servers w => w.db.tables = t ∧
        servers.map SyncServer.withoutSecrets = (nodeServers t node).map SshServerRow.toSync)
      (fun _ w => w.db.tables = t) := by
  unfold collectNodeServer
  cases hkind : node.kind with
  | folder => exact Triple.ret fun _ h => ⟨h, by simp [nodeServers, hkind]⟩
  | server =>
    refine Triple.bind (onDbConn_triple (getServer node.id)) fun found => Triple.of_pure fun hfound => ?_
    cases found with
    | none => exact Triple.ret fun _ h => ⟨h, by simp [nodeServers, hkind, ← hfound]⟩
    | some row =>
      refine Triple.bind (collectServer_triple crypto store token nonce row) fun server => ?_
      exact Triple.ret fun _ h => ⟨h.1, by simp [nodeServers, hkind, ← hfound, h.2]⟩

theorem collectServers_triple (crypto : Crypto) (store : SshSecretStore S) (token : String) (nonce : Nat)
    (nodes : List SshNodeRow) :
    Triple (fun w : World S => w.db.tables = t)
      (collectEach (collectNodeServer crypto store token nonce) nodes)
      (fun servers w => w.db.tables = t ∧
        servers.flatten.map SyncServer.withoutSecrets = (nodes.flatMap (nodeServers t)).map SshServerRow.toSync)
      (fun _ w => w.db.tables = t) := by
  induction nodes with
  | nil => exact Triple.ret fun _ h => ⟨h, rfl⟩
  | cons node nodes ih =>
    refine Triple.bind (collectNodeServer_triple crypto store token nonce node) fun servers =>
      Triple.of_pure fun hservers => ?_
    refine Triple.bind ih fun others => Triple.ret fun _ h => ⟨h.1, ?_⟩
    rw [List.flatten_cons, List.map_append, hservers, h.2, List.flatMap_cons, List.map_append]

theorem collectData_triple (crypto : Crypto) (rfc3339 : Rfc3339) (store : SshSecretStore S) (nonce : Nat)
    (token : String) :
    Triple (fun w : World S => w.db.tables = t) (collectData crypto rfc3339 store nonce token)
      (fun json w => w.db.tables = t ∧
        ∃ data, json = .ssh data ∧ Collected crypto rfc3339 token nonce t data)
      (fun _ w => w.db.tables = t) := by
  refine Triple.bind (onDbConn_triple listNodes) fun nodes => Triple.of_pure fun hnodes => ?_
  refine Triple.bind (onDbConn_triple listAllForSync) fun memories => Triple.of_pure fun hmemories => ?_
  refine Triple.bind (Triple.ofResult fun _ h => h) fun machineMemories => Triple.of_pure fun hencrypted => ?_
  refine Triple.bind (onDbConn_triple listRoutes) fun listed => Triple.of_pure fun _ => ?_
  refine Triple.bind (ofResult_readsOnly _ t) fun routes => ?_
  refine Triple.bind (onDbConn_triple listOneKeyCredentials) fun credentials => Triple.of_pure fun _ => ?_
  refine Triple.bind (collectEach_readsOnly (collectCredential_readsOnly crypto store token nonce) _ t)
    fun oneKeyCredentials => ?_
  refine Triple.bind (collectServers_triple crypto store token nonce nodes) fun servers => ?_
  refine Triple.ret fun w h => ⟨h.1, _, rfl, ?_, ?_, ?_⟩
  · rw [hnodes]
  · rw [← hnodes]
    exact h.2
  · rw [← hmemories]
    cases he : encryptMachineMemories crypto rfc3339 token nonce memories with
    | ok encrypted => simpa [he, Except.mapError] using hencrypted
    | error e => simp [he, Except.mapError] at hencrypted

def sshSyncProvider {S : Type} (crypto : Crypto) (rfc3339 : Rfc3339) (store : SshSecretStore S) (nonce : Nat) :
    SyncDataProvider (World S) SectionJson SshSyncProviderError where
  sectionKey := "ssh"
  collectData := collectData crypto rfc3339 store nonce
  applyData := applyData crypto rfc3339 store
  reconcileData := reconcileData crypto rfc3339

abbrev SshDevice := World Keychain

structure SshStep where
  platform : SyncPlatform
  nonce : Nat
  action : Action SshDevice

def SshStep.toSync (crypto : Crypto) (rfc3339 : Rfc3339) (s : SshStep) :
    SyncStep SshDevice SectionJson SshSyncProviderError where
  platform := s.platform
  provider := sshSyncProvider crypto rfc3339 keychainSecretStore s.nonce
  action := s.action

def performSshSteps (crypto : Crypto) (rfc3339 : Rfc3339) (token : String)
    (cloud : Cloud SshDevice SectionJson) (steps : List SshStep) : Cloud SshDevice SectionJson :=
  cloud.performSteps token (steps.map (SshStep.toSync crypto rfc3339))

def callStep (device : Nat) (op : Operation) (events : List (Event SshDevice)) : SshStep :=
  ⟨.gitHub, 0, .call device op events⟩

def newDevice : Device SshDevice := ⟨0, none, ⟨⟨{}, []⟩, ⟨fun _ _ => none, []⟩, []⟩⟩

variable {crypto : Crypto} {rfc3339 : Rfc3339} {token : String}

theorem reconcileData_triple (json : SectionJson) :
    Triple (fun w : World S => w.db.tables = t) (reconcileData crypto rfc3339 token json)
      (fun outcome w => ∃ data memories, json.fromValue = .ok data ∧
        decryptMachineMemories crypto rfc3339 token data.machineMemories = .ok memories ∧
        Joined memories t outcome w.db.tables)
      (fun _ w => w.db.tables = t) := by
  refine Triple.bind (Triple.ofResult fun _ h => h) fun data => Triple.of_pure fun hdata => ?_
  refine Triple.bind (Triple.ofResult fun _ h => h) fun memories => Triple.of_pure fun hmemories => ?_
  have hjson := fromValue_of_mapError hdata
  refine Triple.mapError (Triple.zoom fun w hw => ?_)
  refine Triple.of_imp (fun db hdb => hdb ▸ hw) (Database.withConn_triple (t := t)
    (Database.transaction_triple (mergeAndPersistMemories_triple memories))) ?_ ?_
  · exact fun outcome db h => ⟨data, memories, hjson, hmemories, h⟩
  · exact fun e db h => h

end InfiniShell.Ssh
