import InfiniShell.Ssh.Secrets
import InfiniShell.Sync.Engine

namespace InfiniShell.Ssh

open Sync

inductive NodeKind where
  | folder
  | server

def NodeKind.asDbStr : NodeKind → String
  | .folder => "folder"
  | .server => "server"

def NodeKind.parse : String → Option NodeKind
  | "folder" => some .folder
  | "server" => some .server
  | _ => none

inductive AuthType where
  | password
  | key
  | oneKey

def AuthType.asDbStr : AuthType → String
  | .password => "password"
  | .key => "key"
  | .oneKey => "onekey"

def AuthType.parse : String → Option AuthType
  | "password" => some .password
  | "key" => some .key
  | "onekey" => some .oneKey
  | _ => none

inductive OneKeyCredentialKind where
  | password
  | key

def OneKeyCredentialKind.asDbStr : OneKeyCredentialKind → String
  | .password => "password"
  | .key => "key"

def OneKeyCredentialKind.parse : String → Option OneKeyCredentialKind
  | "password" => some .password
  | "key" => some .key
  | _ => none

@[simp] theorem NodeKind.parse_asDbStr (kind : NodeKind) : parse kind.asDbStr = some kind := by
  cases kind <;> rfl

structure SshRouteHop where
  nodeId : Option String
  targetAlias : String
  port : Option UInt16

structure SshRoute where
  id : String
  name : String
  targetNodeId : Option String
  hops : List SshRouteHop
  createdAt : Int
  updatedAt : Int
  lastConnectedAt : Option Int

structure SyncNode where
  id : String
  parentId : Option String
  kind : String
  name : String
  sortOrder : Int
  isCollapsed : Bool
  deriving DecidableEq

structure SyncServer where
  nodeId : String
  host : String
  port : UInt16
  username : String
  authType : String
  keyPath : Option String
  startupCommand : Option String
  notes : Option String
  credentialId : Option String
  passwordEncrypted : Option String
  passphraseEncrypted : Option String
  rootPasswordEncrypted : Option String
  deriving DecidableEq

structure SyncOneKeyCredential where
  id : String
  label : String
  username : String
  kind : String
  keyPath : Option String
  passwordEncrypted : Option String

structure SyncMachineMemory where
  machineKey : String
  contentEncrypted : Option String
  hostnameAlias : Option String
  sshNodeId : Option String
  lastReviewAt : Option String
  updatedAt : String
  deletedAt : Option String

structure SshSyncData where
  nodes : List SyncNode
  servers : List SyncServer
  oneKeyCredentials : List SyncOneKeyCredential
  machineMemories : List SyncMachineMemory
  /-- `none` comes from a client that knows no routes; the local ones are then kept. -/
  routes : Option (List SshRoute)

/-- A JSON value, as far as reading it as an `SshSyncData` tells it apart. -/
inductive SectionJson where
  | ssh (data : SshSyncData)
  | malformed (message : String)

def SectionJson.fromValue : SectionJson → Except String SshSyncData
  | .ssh data => .ok data
  | .malformed message => .error message

inductive SshSyncProviderError where
  | readSecret (nodeId : String) (kind : SecretKind) (source : SshSecretStoreError)
  | readPreviousSecret (nodeId : String) (kind : SecretKind) (rolledBack : Nat)
      (source : SshSecretStoreError)
  | writeSecret (nodeId : String) (kind : SecretKind) (source : SshSecretStoreError)
  | writeDatabase (rolledBack : Nat) (source : String)
  /-- An error of `with_conn` that is passed on as it is. -/
  | database (source : String)
  deriving DecidableEq

abbrev SshError := SyncEngineError SshSyncProviderError

end InfiniShell.Ssh
