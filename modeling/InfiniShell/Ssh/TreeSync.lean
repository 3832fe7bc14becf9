import InfiniShell.Ssh.Provider
import InfiniShell.Ssh.Topology
import InfiniShell.Sync.LostUpdates
import Mathlib.Data.Multiset.MapFold
import Mathlib.Data.Multiset.Dedup

namespace InfiniShell.Ssh

open Effects Effects.Program Collections Sync

/-- The nodes and the servers, without their secrets, in whatever order they are listed. -/
structure SshTree where
  nodes : Multiset SyncNode
  servers : Multiset SyncServer
  deriving DecidableEq

def Tables.tree (t : Tables) : SshTree where
  nodes := t.nodes.map SshNodeRow.toSync
  servers := t.servers.map SshServerRow.toSync

def SshSyncData.tree (data : SshSyncData) : SshTree where
  nodes := data.nodes
  servers := data.servers.map SyncServer.withoutSecrets

structure SshTree.WellFormed (tree : SshTree) : Prop where
  nodup : (tree.nodes.map SyncNode.id).Nodup
  ranked : ∃ rank : String → Nat, ∀ n ∈ tree.nodes, ∀ p, n.parentId = some p →
    p ∈ tree.nodes.map SyncNode.id ∧ rank p < rank n.id
  serverIds : (tree.servers.map SyncServer.nodeId).Nodup
  serverNodes : ∀ s ∈ tree.servers, ∃ n ∈ tree.nodes, n.id = s.nodeId ∧ n.kind = NodeKind.server.asDbStr

theorem SshTree.WellFormed.forest {nodes : List SyncNode} {servers : Multiset SyncServer}
    (h : SshTree.WellFormed ⟨nodes, servers⟩) : Forest nodes := by
  obtain ⟨rank, hrank⟩ := h.ranked
  refine ⟨by simpa using h.nodup, rank, fun n hn p hp => ?_⟩
  simpa using hrank n (by simpa using hn) p hp

variable {t : Tables} {row : SshServerRow}

theorem getServer_eq_some {id : String} (h : getServer id t = some row) :
    row ∈ t.servers ∧ row.nodeId = id :=
  ⟨List.mem_of_find?_eq_some h, by simpa using List.find?_some h⟩

theorem mem_nodeServers {node : SshNodeRow} :
    row ∈ nodeServers t node ↔ node.kind = .server ∧ getServer node.id t = some row := by
  unfold nodeServers
  cases node.kind with
  | folder => simp
  | server => simp

theorem flatMap_nodeServers_perm (h : t.tree.WellFormed) :
    (t.nodes.flatMap (nodeServers t)).Perm t.servers := by
  have hservers : (t.servers.map SshServerRow.nodeId).Nodup := by
    have hids := h.serverIds
    simp only [Tables.tree, Multiset.map_coe, Multiset.coe_nodup, List.map_map] at hids
    exact hids
  have hnodes : (t.nodes.map SshNodeRow.id).Nodup := by
    have hids := h.nodup
    simp only [Tables.tree, Multiset.map_coe, Multiset.coe_nodup, List.map_map] at hids
    exact hids
  apply (List.perm_ext_iff_of_nodup ?_ (List.Nodup.of_map _ hservers)).mpr
  · intro row
    rw [List.mem_flatMap]
    constructor
    · rintro ⟨node, -, hrow⟩
      exact (getServer_eq_some (mem_nodeServers.mp hrow).2).1
    · intro hrow
      obtain ⟨n, hn, hid, hkind⟩ := h.serverNodes row.toSync (by
        simpa [Tables.tree] using ⟨row, hrow, rfl⟩)
      obtain ⟨node, hnode, rfl⟩ := List.mem_map.mp (Multiset.mem_coe.mp hn)
      refine ⟨node, hnode, mem_nodeServers.mpr ⟨?_, ?_⟩⟩
      · have hkind' : node.kind.asDbStr = NodeKind.server.asDbStr := hkind
        have hparse := congrArg NodeKind.parse hkind'
        simpa using hparse
      · have hsome : (getServer node.id t).isSome := by
          rw [getServer, List.find?_isSome]
          exact ⟨row, hrow, by simpa using (show row.nodeId = node.id from hid.symm)⟩
        obtain ⟨row', hrow'⟩ := Option.isSome_iff_exists.mp hsome
        obtain ⟨hmem, hid'⟩ := getServer_eq_some hrow'
        have heq : row' = row := List.inj_on_of_nodup_map hservers hmem hrow (hid'.trans hid)
        rw [hrow', heq]
  · rw [List.nodup_flatMap]
    refine ⟨fun node _ => ?_, ?_⟩
    · unfold nodeServers
      cases node.kind with
      | folder => simp
      | server => cases getServer node.id t <;> simp
    · refine List.Pairwise.imp ?_ (List.pairwise_map.mp hnodes)
      intro a b hne row ha hb
      have hida := (getServer_eq_some (mem_nodeServers.mp ha).2).2
      have hidb := (getServer_eq_some (mem_nodeServers.mp hb).2).2
      exact hne (hida.symm.trans hidb)

variable {data : SshSyncData}

theorem Collected.tree_eq {crypto : Crypto} {rfc3339 : Rfc3339} {token : String} {nonce : Nat} (h : Collected crypto rfc3339 token nonce t data) (ht : t.tree.WellFormed) :
    data.tree = t.tree := by
  have hnodes : (listNodes t).Perm t.nodes := List.perm_insertionSort _ _
  have hservers : ((listNodes t).flatMap (nodeServers t)).Perm t.servers :=
    (hnodes.flatMap_right _).trans (flatMap_nodeServers_perm ht)
  unfold SshSyncData.tree Tables.tree
  rw [h.nodes, h.servers]
  congr 1
  · exact Multiset.coe_eq_coe.mpr (hnodes.map _)
  · exact Multiset.coe_eq_coe.mpr (hservers.map _)

variable {memories : List MachineMemory} {outcome : ApplyDataOutcome} {t t' : Tables}

theorem Replaced.tree_eq (h : Replaced data memories t outcome t') (hdata : data.tree.WellFormed) :
    t'.tree = data.tree := by
  unfold SshSyncData.tree Tables.tree
  rw [h.nodes, h.servers]
  congr 1
  exact Multiset.coe_eq_coe.mpr (topologicallySortNodes_perm hdata.forest)

def deviceTree (w : SshDevice) : SshTree := w.db.tables.tree

def payloadTree : SectionJson → Option SshTree
  | .ssh data => some data.tree
  | .malformed _ => none

theorem payloadTree_eq {json : SectionJson} (hjson : json.fromValue = .ok data) :
    payloadTree json = some data.tree := by
  cases json with
  | ssh d => simpa [SectionJson.fromValue, payloadTree] using congrArg SshSyncData.tree (Except.ok.inj hjson)
  | malformed message => simp [SectionJson.fromValue] at hjson

theorem Joined.tree_eq (h : Joined memories t outcome t') : t'.tree = t.tree := by
  unfold Tables.tree
  rw [h.nodes, h.servers]

theorem sshSyncProvider_replacing (crypto : Crypto) (rfc3339 : Rfc3339) (token : String) (nonce : Nat) :
    Replacing deviceTree SshTree.WellFormed payloadTree token
      (sshSyncProvider crypto rfc3339 keychainSecretStore nonce) where
  collect x hx := by
    rintro w rfl
    refine Triple.of_imp (fun w' hw' => hw') (collectData_triple (t := w.db.tables) crypto rfc3339
      keychainSecretStore nonce token) ?_ ?_ w rfl
    · rintro json w' ⟨hw', data, rfl, hdata⟩
      exact ⟨by rw [deviceTree, hw', deviceTree], by rw [payloadTree, hdata.tree_eq hx, deviceTree]⟩
    · exact fun e w' hw' => by rw [deviceTree, hw', deviceTree]
  reconcile x json := by
    rintro w rfl
    refine Triple.of_imp (fun w' hw' => hw') (reconcileData_triple (t := w.db.tables) json) ?_ ?_ w rfl
    · rintro outcome w' ⟨data, memories, -, -, hjoined⟩
      exact hjoined.tree_eq
    · exact fun e w' hw' => by rw [deviceTree, hw', deviceTree]
  apply x json y hy hsane := by
    rintro w rfl
    refine Triple.of_imp (fun w' hw' => hw') (applyData_triple (t := w.db.tables) keychainSecretStore_lawful
      crypto rfc3339 token json w.secrets.entries.secrets) ?_ ?_ w ⟨rfl, rfl⟩
    · rintro outcome w' ⟨data, memories, hjson, -, hreplaced⟩
      rw [payloadTree_eq hjson, Option.some.injEq] at hy
      subst hy
      exact hreplaced.tree_eq hsane
    · exact fun e w' hw' => by rw [deviceTree, hw'.1, deviceTree]

def gistTree : Option (GistContent SectionJson) → Option SshTree := gistView payloadTree "ssh"

/-- A local edit that keeps the tree well-formed, or an upload or a download that nothing disturbs. -/
def SshStep.Plain (s : SshStep) : Prop :=
  match s.action with
  | .edit _ change => ∀ w, (deviceTree w).WellFormed → (deviceTree (change w)).WellFormed
  | .call _ op events => op ≠ .forceUpload ∧ events = []

/-- Every device has the version and the tree of the gist. -/
def InSync (cloud : Cloud SshDevice SectionJson) : Prop :=
  ∃ n, gistVersion cloud.gist = some n ∧ ∀ d, (cloud.devices d).syncVersion = n ∧
    gistTree cloud.gist = some (deviceTree (cloud.devices d).data)

/-- A run from a cloud whose devices all know the content of the gist. -/
def Run (crypto : Crypto) (rfc3339 : Rfc3339) (token : String)
    (holds : Tracked SshDevice SectionJson → SyncStep SshDevice SectionJson SshSyncProviderError → Prop)
    (cloud : Cloud SshDevice SectionJson) (steps : List SshStep) : Prop :=
  Tracked.Throughout token holds ⟨cloud, fun _ => True⟩ (steps.map (SshStep.toSync crypto rfc3339))

theorem gist_sync_loses_nothing (crypto : Crypto) (rfc3339 : Rfc3339) (token : String)
    (cloud : Cloud SshDevice SectionJson) (hsync : InSync cloud)
    (hwell : ∀ d, (deviceTree (cloud.devices d).data).WellFormed) (steps : List SshStep)
    (hsteps : ∀ s ∈ steps, s.Plain) (hcovers : Run crypto rfc3339 token Tracked.Covers cloud steps) :
    Run crypto rfc3339 token (Tracked.LosesNothing deviceTree payloadTree "ssh" token) cloud steps := by
  obtain ⟨n, hn, hdevices⟩ := hsync
  obtain ⟨data, hgist, rfl⟩ := gistVersion_eq_some hn
  have hcoherent : (Tracked.mk cloud fun _ => True).Coherent deviceTree SshTree.WellFormed payloadTree "ssh"
      data (deviceTree (cloud.devices 0).data) := by
    have htree := fun d => (hdevices d).2
    refine ⟨hgist, by rw [← hgist]; exact htree 0, hwell 0, hwell, fun d _ => .inl ⟨(hdevices d).1, ?_⟩⟩
    exact Option.some.inj ((htree d).symm.trans (htree 0))
  apply hcoherent.run ?_ hcovers
  intro s hs
  obtain ⟨s', hs', rfl⟩ := List.mem_map.mp hs
  refine ⟨sshSyncProvider_replacing crypto rfc3339 token s'.nonce, rfl, ?_⟩
  have hplain := hsteps s' hs'
  unfold SshStep.Plain at hplain
  unfold SshStep.toSync
  cases haction : s'.action with
  | edit device change =>
    rw [haction] at hplain
    exact hplain
  | call device op events =>
    rw [haction] at hplain
    exact hplain

def syncedCloud : Cloud SshDevice SectionJson where
  gist := some (.data ⟨0, BTreeMap.empty.insert "ssh" (.ssh ⟨[], [], [], [], some []⟩)⟩)
  devices _ := newDevice

def addFolder (id : String) (w : SshDevice) : SshDevice :=
  { w with db.tables.nodes := w.db.tables.nodes ++ [⟨id, none, .folder, id, 0, false⟩] }

def addNewFolder (id : String) (w : SshDevice) : SshDevice :=
  if id ∈ w.db.tables.nodeIds then w else addFolder id w

theorem addNewFolder_wellFormed (id : String) (w : SshDevice) (hw : (deviceTree w).WellFormed) :
    (deviceTree (addNewFolder id w)).WellFormed := by
  unfold addNewFolder
  split
  · exact hw
  · rename_i hnew
    have hnodes : (deviceTree (addFolder id w)).nodes =
        (⟨id, none, NodeKind.folder.asDbStr, id, 0, false⟩ : SyncNode) ::ₘ (deviceTree w).nodes := by
      simp [deviceTree, Tables.tree, addFolder, SshNodeRow.toSync]
    have hservers : (deviceTree (addFolder id w)).servers = (deviceTree w).servers := rfl
    obtain ⟨rank, hrank⟩ := hw.ranked
    refine ⟨?_, ⟨rank, fun n hn p hp => ?_⟩, by rw [hservers]; exact hw.serverIds, fun s hs => ?_⟩
    · rw [hnodes, Multiset.map_cons, Multiset.nodup_cons]
      refine ⟨fun hmem => hnew ?_, hw.nodup⟩
      simpa [deviceTree, Tables.tree, Tables.nodeIds, SshNodeRow.toSync] using hmem
    · rw [hnodes, Multiset.mem_cons] at hn
      obtain rfl | hn := hn
      · simp at hp
      · obtain ⟨hmem, hlt⟩ := hrank n hn p hp
        rw [hnodes, Multiset.map_cons]
        exact ⟨Multiset.mem_cons_of_mem hmem, hlt⟩
    · rw [hservers] at hs
      obtain ⟨n, hn, hs⟩ := hw.serverNodes s hs
      rw [hnodes]
      exact ⟨n, Multiset.mem_cons_of_mem hn, hs⟩

def folderStep (device : Nat) (id : String) : SshStep := ⟨.gitHub, 0, .edit device (addNewFolder id)⟩

/-- The second device is behind when it uploads, and is told so. -/
theorem gist_sync_loses_nothing_behind :
    Run plainCrypto plainRfc3339 "token" (Tracked.LosesNothing deviceTree payloadTree "ssh" "token")
      syncedCloud [folderStep 0 "a", folderStep 0 "b", callStep 0 .upload [], folderStep 1 "c",
        callStep 1 .upload []] := by
  have hempty : (deviceTree newDevice.data).WellFormed := by
    have htree : deviceTree newDevice.data = ⟨0, 0⟩ := rfl
    rw [htree]
    exact ⟨by simp, ⟨fun _ => 0, by simp⟩, by simp, by simp⟩
  have hfolder : ∀ device id, (folderStep device id).Plain := fun _ id => addNewFolder_wellFormed id
  have hcall : ∀ device, (callStep device .upload []).Plain := fun _ => ⟨by simp, rfl⟩
  apply gist_sync_loses_nothing plainCrypto plainRfc3339 "token" syncedCloud ⟨0, rfl, fun _ => ⟨rfl, rfl⟩⟩
    (fun _ => hempty)
  · intro s hs
    simp only [List.mem_cons, List.not_mem_nil, or_false] at hs
    obtain rfl | rfl | rfl | rfl | rfl := hs
    · exact hfolder 0 "a"
    · exact hfolder 0 "b"
    · exact hcall 0
    · exact hfolder 1 "c"
    · exact hcall 1
  · have hedit : ∀ (t : Tracked SshDevice SectionJson) device id,
        t.Covers ((folderStep device id).toSync plainCrypto plainRfc3339) := by
      intro t device id d events h
      simp [folderStep, SshStep.toSync] at h
    refine ⟨hedit _ 0 "a", hedit _ 0 "b", ?_, hedit _ 1 "c", ?_, trivial⟩
    · intro device events h hnot
      exact absurd trivial hnot
    · intro device events h hnot
      obtain ⟨rfl, -⟩ : 1 = device ∧ [] = events := by simpa [callStep, SshStep.toSync] using h
      exact ⟨2, by decide +kernel, by decide +kernel⟩

/-- One edit against two is written over; one edit against one finds nothing to do. -/
theorem upload_overwrites_unseen_edits :
    (∃ cloud : Cloud SshDevice SectionJson,
      cloud = performSshSteps plainCrypto plainRfc3339 "token" syncedCloud
        [folderStep 0 "a", callStep 0 .upload [], folderStep 1 "b", folderStep 1 "c"] ∧
      (gistTree cloud.gist).map (fun tree => tree.nodes.map SyncNode.id) = some {"a"} ∧
      (Operation.upload.run .gitHub "token" [sshSyncProvider plainCrypto plainRfc3339 keychainSecretStore 0]
        (cloud.world 1 [])).1 = .ok (.success 2 .gitHub) ∧
      (gistTree (performSshSteps plainCrypto plainRfc3339 "token" cloud [callStep 1 .upload []]).gist).map
        (fun tree => tree.nodes.map SyncNode.id) = some {"b", "c"}) ∧
    ∃ cloud : Cloud SshDevice SectionJson,
      cloud = performSshSteps plainCrypto plainRfc3339 "token" syncedCloud
        [folderStep 0 "a", callStep 0 .upload [], folderStep 1 "b"] ∧
      (Operation.upload.run .gitHub "token" [sshSyncProvider plainCrypto plainRfc3339 keychainSecretStore 0]
        (cloud.world 1 [])).1 = .ok (.alreadyUpToDate 1) ∧
      gistTree (performSshSteps plainCrypto plainRfc3339 "token" cloud [callStep 1 .upload []]).gist ≠
        some (deviceTree ((performSshSteps plainCrypto plainRfc3339 "token" cloud
          [callStep 1 .upload []]).devices 1).data) := by
  refine ⟨⟨_, rfl, ?_, ?_, ?_⟩, _, rfl, ?_, ?_⟩
  · decide +kernel
  · decide +kernel
  · decide +kernel
  · decide +kernel
  · decide +kernel

end InfiniShell.Ssh
