import InfiniShell.Effects.Program
import Mathlib.Logic.Function.Basic

namespace InfiniShell.Ssh

open Effects Effects.Program

inductive SecretKind where
  | password
  | passphrase
  | rootPassword
  | oneKeyPassword
  deriving DecidableEq

def SecretKind.suffix : SecretKind → String
  | .password => "password"
  | .passphrase => "passphrase"
  | .rootPassword => "root_password"
  | .oneKeyPassword => "onekey_password"

inductive SshSecretStoreError where
  | noBackend
  | keyring (message : String)
  deriving DecidableEq

/-- The credential store of `apply_data`, over the state `S` it keeps. -/
structure SshSecretStore (S : Type) where
  set : String → SecretKind → String → Program S SshSecretStoreError Unit
  get : String → SecretKind → Program S SshSecretStoreError (Option String)
  delete : String → SecretKind → Program S SshSecretStoreError Unit

/-- What a credential store holds, under (owner id, kind). -/
abbrev Secrets := String × SecretKind → Option String

/-- A dictionary with content `view`; a failed deletion may have removed a part. -/
structure SshSecretStore.Lawful {S : Type} (store : SshSecretStore S) (view : S → Secrets) : Prop where
  set_triple : ∀ id kind secret v, Triple (fun s => view s = v) (store.set id kind secret)
    (fun _ s => view s = Function.update v (id, kind) (some secret)) (fun _ s => view s = v)
  get_triple : ∀ id kind v, Triple (fun s => view s = v) (store.get id kind)
    (fun r s => r = v (id, kind) ∧ view s = v) (fun _ s => view s = v)
  delete_triple : ∀ id kind v, Triple (fun s => view s = v) (store.delete id kind)
    (fun _ s => view s = Function.update v (id, kind) none) (fun _ _ => True)

def accountKey (nodeId : String) (kind : SecretKind) : String := nodeId ++ ":" ++ kind.suffix

theorem SecretKind.colon_notMem_suffix (kind : SecretKind) : ':' ∉ kind.suffix.toList := by
  cases kind <;> decide

theorem SecretKind.suffix_injective {a b : SecretKind} (h : a.suffix = b.suffix) : a = b := by
  cases a <;> cases b <;> simp_all [SecretKind.suffix]

theorem append_separator_cancel {c : Char} {a b s t : List Char} (hs : c ∉ s) (ht : c ∉ t)
    (h : a ++ c :: s = b ++ c :: t) : a = b ∧ s = t := by
  have hsplit : ∀ x y : List Char, c ∉ y →
      ((x ++ c :: y).reverse.takeWhile (· != c)) = y.reverse := by
    intro x y hy
    rw [List.reverse_append, List.reverse_cons, List.append_assoc,
      List.takeWhile_append_of_pos]
    · simp
    · intro d hd
      have hne : d ≠ c := fun hdc => hy (hdc ▸ List.mem_reverse.mp hd)
      simpa using hne
  have hst : s = t := by
    have := congrArg (fun l => l.reverse.takeWhile (· != c)) h
    simp only [hsplit a s hs, hsplit b t ht] at this
    exact List.reverse_inj.mp this
  subst hst
  exact ⟨List.append_cancel_right h, rfl⟩

theorem accountKey_injective {a b : String} {j k : SecretKind}
    (h : accountKey a j = accountKey b k) : a = b ∧ j = k := by
  have hl : a.toList ++ ':' :: j.suffix.toList = b.toList ++ ':' :: k.suffix.toList := by
    simpa [accountKey] using congrArg String.toList h
  obtain ⟨ha, hj⟩ := append_separator_cancel j.colon_notMem_suffix k.colon_notMem_suffix hl
  exact ⟨String.toList_injective ha, SecretKind.suffix_injective (String.toList_injective hj)⟩

inductive Service where
  | current
  | legacy
  deriving DecidableEq

/-- The passwords of the operating system's keyring, by service and account. -/
abbrev Entries := Service → String → Option String

structure Keychain where
  entries : Entries
  faults : Faults

inductive KeyringError where
  | noEntry
  | fault (f : Fault)

def KeyringError.toStoreError : KeyringError → SshSecretStoreError
  | .noEntry => .keyring "No matching entry found in secure storage"
  | .fault f => if f.platform then .noBackend else .keyring f.message

structure Entry where
  service : Service
  account : String

namespace Keychain

def call : Program Keychain KeyringError Unit :=
  mapError .fault (zoom Keychain.faults (fun faults k => { k with faults }) Faults.call)

def newEntry (service : Service) (account : String) : Program Keychain KeyringError Entry := do
  call
  pure ⟨service, account⟩

def getPassword (entry : Entry) : Program Keychain KeyringError String := do
  call
  match ← Program.read (fun k => k.entries entry.service entry.account) with
  | some secret => pure secret
  | none => throw .noEntry

def put (entry : Entry) (value : Option String) (e : Entries) : Entries :=
  Function.update e entry.service (Function.update (e entry.service) entry.account value)

def setPassword (entry : Entry) (secret : String) : Program Keychain KeyringError Unit := do
  call
  Program.modify fun k => { k with entries := put entry (some secret) k.entries }

def deleteCredential (entry : Entry) : Program Keychain KeyringError Unit := do
  call
  match ← Program.read (fun k => k.entries entry.service entry.account) with
  | some _ => Program.modify fun k => { k with entries := put entry none k.entries }
  | none => throw .noEntry

end Keychain

namespace KeychainSecretStore

open Keychain

def set (nodeId : String) (kind : SecretKind) (secret : String) :
    Program Keychain SshSecretStoreError Unit := mapError KeyringError.toStoreError do
  let entry ← newEntry .current (accountKey nodeId kind)
  setPassword entry secret

/-- Carry a password found under the legacy service over to the current one. -/
def migrate (entry legacyEntry : Entry) (secret : String) : Program Keychain KeyringError Unit := do
  match ← attempt (F := KeyringError) (setPassword entry secret) with
  | .ok _ =>
    let _ ← attempt (F := KeyringError) (deleteCredential legacyEntry)
    pure ()
  | .error _ => pure ()

def getLegacy (entry : Entry) (account : String) : Program Keychain KeyringError (Option String) := do
  let legacyEntry ← newEntry .legacy account
  match ← attempt (F := KeyringError) (getPassword legacyEntry) with
  | .ok secret =>
    migrate entry legacyEntry secret
    pure (some secret)
  | .error .noEntry => pure none
  | .error e => throw e

def get (nodeId : String) (kind : SecretKind) :
    Program Keychain SshSecretStoreError (Option String) := mapError KeyringError.toStoreError do
  let entry ← newEntry .current (accountKey nodeId kind)
  match ← attempt (F := KeyringError) (getPassword entry) with
  | .ok secret => pure (some secret)
  | .error .noEntry => getLegacy entry (accountKey nodeId kind)
  | .error e => throw e

def deleteKeyringEntry (service : Service) (account : String) :
    Program Keychain KeyringError Unit := do
  let entry ← newEntry service account
  match ← attempt (F := KeyringError) (deleteCredential entry) with
  | .ok _ | .error .noEntry => pure ()
  | .error e => throw e

def delete (nodeId : String) (kind : SecretKind) : Program Keychain SshSecretStoreError Unit :=
  mapError KeyringError.toStoreError do
    deleteKeyringEntry .current (accountKey nodeId kind)
    deleteKeyringEntry .legacy (accountKey nodeId kind)

end KeychainSecretStore

def keychainSecretStore : SshSecretStore Keychain where
  set := KeychainSecretStore.set
  get := KeychainSecretStore.get
  delete := KeychainSecretStore.delete

/-- What `get` reads: the current entry, or else the legacy one. -/
def Entries.secrets (e : Entries) : Secrets := fun key =>
  (e .current (accountKey key.1 key.2)).or (e .legacy (accountKey key.1 key.2))

namespace Keychain

theorem call_triple (e : Entries) : Triple (fun k : Keychain => k.entries = e) call
    (fun _ k => k.entries = e) (fun err k => err ≠ .noEntry ∧ k.entries = e) :=
  Triple.mapError (Triple.zoom fun v hv => fun w _ => ⟨fun _ _ _ => hv, fun _ _ _ => ⟨by simp, hv⟩⟩)

theorem newEntry_triple (service : Service) (account : String) (e : Entries) :
    Triple (fun k : Keychain => k.entries = e) (newEntry service account)
      (fun entry k => entry = ⟨service, account⟩ ∧ k.entries = e)
      (fun err k => err ≠ .noEntry ∧ k.entries = e) :=
  Triple.bind (call_triple e) fun _ => Triple.ret fun _ h => ⟨rfl, h⟩

theorem getPassword_triple (entry : Entry) (e : Entries) :
    Triple (fun k : Keychain => k.entries = e) (getPassword entry)
      (fun secret k => e entry.service entry.account = some secret ∧ k.entries = e)
      (fun err k => (err = .noEntry → e entry.service entry.account = none) ∧ k.entries = e) := by
  refine Triple.bind (Triple.of_imp (fun _ h => h) (call_triple e) (fun _ _ h => h)
    fun err k h => ⟨fun he => absurd he h.1, h.2⟩) fun _ => ?_
  refine Triple.read_bind fun r => ?_
  cases r with
  | some secret => exact Triple.ret fun _ h => ⟨h.1 ▸ h.2, h.1⟩
  | none => exact Triple.fail fun _ h => ⟨fun _ => h.1 ▸ h.2, h.1⟩

theorem setPassword_triple (entry : Entry) (secret : String) (e : Entries) :
    Triple (fun k : Keychain => k.entries = e) (setPassword entry secret)
      (fun _ k => k.entries = put entry (some secret) e)
      (fun err k => err ≠ .noEntry ∧ k.entries = e) :=
  Triple.bind (call_triple e) fun _ => Triple.modify fun k h => by rw [h]

theorem put_none {entry : Entry} {e : Entries} (h : e entry.service entry.account = none) :
    put entry none e = e := by
  unfold put
  rw [← h, Function.update_eq_self, Function.update_eq_self]

theorem deleteCredential_triple (entry : Entry) (e : Entries) :
    Triple (fun k : Keychain => k.entries = e) (deleteCredential entry)
      (fun _ k => k.entries = put entry none e)
      (fun err k => (err = .noEntry → e entry.service entry.account = none) ∧ k.entries = e) := by
  refine Triple.bind (Triple.of_imp (fun _ h => h) (call_triple e) (fun _ _ h => h)
    fun err k h => ⟨fun he => absurd he h.1, h.2⟩) fun _ => ?_
  refine Triple.read_bind fun r => ?_
  cases r with
  | some secret => exact Triple.modify fun k h => by rw [h.1]
  | none => exact Triple.fail fun _ h => ⟨fun _ => h.1 ▸ h.2, h.1⟩

end Keychain

namespace Entries

open Keychain

theorem secrets_put_current (e : Entries) (id : String) (kind : SecretKind) (secret : String) :
    (put ⟨.current, accountKey id kind⟩ (some secret) e).secrets =
      Function.update e.secrets (id, kind) (some secret) := by
  funext key
  by_cases hk : key = (id, kind)
  · simp [secrets, put, hk]
  · have ha : accountKey key.1 key.2 ≠ accountKey id kind := fun h =>
      hk (Prod.ext (accountKey_injective h).1 (accountKey_injective h).2)
    simp [secrets, put, hk, ha]

theorem secrets_put_none (e : Entries) (id : String) (kind : SecretKind) :
    (put ⟨.legacy, accountKey id kind⟩ none (put ⟨.current, accountKey id kind⟩ none e)).secrets =
      Function.update e.secrets (id, kind) none := by
  funext key
  by_cases hk : key = (id, kind)
  · simp [secrets, put, hk]
  · have ha : accountKey key.1 key.2 ≠ accountKey id kind := fun h =>
      hk (Prod.ext (accountKey_injective h).1 (accountKey_injective h).2)
    simp [secrets, put, hk, ha]

theorem secrets_migrate (e : Entries) (id : String) (kind : SecretKind) (secret : String)
    (h : e .current (accountKey id kind) = none) (hl : e .legacy (accountKey id kind) = some secret) :
    (put ⟨.current, accountKey id kind⟩ (some secret) e).secrets = e.secrets ∧
    (put ⟨.legacy, accountKey id kind⟩ none
      (put ⟨.current, accountKey id kind⟩ (some secret) e)).secrets = e.secrets := by
  constructor <;> funext key <;> by_cases ha : accountKey key.1 key.2 = accountKey id kind <;>
    simp [secrets, put, ha, h, hl]

end Entries

namespace KeychainSecretStore

open Keychain

theorem set_triple (id : String) (kind : SecretKind) (secret : String) (v : Secrets) :
    Triple (fun k : Keychain => k.entries.secrets = v) (set id kind secret)
      (fun _ k => k.entries.secrets = Function.update v (id, kind) (some secret))
      (fun _ k => k.entries.secrets = v) := by
  intro k hk
  subst hk
  refine Triple.mapError (P := fun k' => k'.entries = k.entries) ?_ k rfl
  refine Triple.bind (Triple.of_imp (fun _ h => h) (newEntry_triple _ _ k.entries) (fun _ _ h => h)
    fun _ _ h => by rw [h.2]) fun entry => ?_
  intro k' hk'
  obtain ⟨rfl, hk'⟩ := hk'
  exact Triple.of_imp (fun _ h => h) (setPassword_triple _ secret k.entries)
    (fun _ _ h => by rw [h, Entries.secrets_put_current]) (fun _ _ h => by rw [h.2]) k' hk'

theorem migrate_triple (id : String) (kind : SecretKind) (secret : String) (e : Entries)
    (h : e .current (accountKey id kind) = none) (hl : e .legacy (accountKey id kind) = some secret) :
    Triple (fun k : Keychain => k.entries = e)
      (migrate ⟨.current, accountKey id kind⟩ ⟨.legacy, accountKey id kind⟩ secret)
      (fun _ k => k.entries.secrets = e.secrets) (fun _ _ => False) := by
  obtain ⟨hset, hdel⟩ := e.secrets_migrate id kind secret h hl
  refine Triple.bind (Triple.attempt (setPassword_triple _ secret e)) fun r => ?_
  cases r with
  | error err => exact Triple.ret fun k hk => by rw [hk.2]
  | ok u =>
    refine Triple.bind (Triple.attempt (deleteCredential_triple _ _)) fun r => ?_
    refine Triple.ret fun k hk => ?_
    cases r with
    | error err => rw [hk.2, hset]
    | ok u => rw [hk, hdel]

theorem getLegacy_triple (id : String) (kind : SecretKind) (e : Entries)
    (h : e .current (accountKey id kind) = none) :
    Triple (fun k : Keychain => k.entries = e)
      (getLegacy ⟨.current, accountKey id kind⟩ (accountKey id kind))
      (fun r k => r = e.secrets (id, kind) ∧ k.entries.secrets = e.secrets)
      (fun _ k => k.entries.secrets = e.secrets) := by
  refine Triple.bind (Triple.of_imp (fun _ h => h) (newEntry_triple _ _ e) (fun _ _ h => h)
    fun _ _ h => by rw [h.2]) fun entry => ?_
  rintro k ⟨rfl, hk⟩
  refine Triple.bind (Triple.attempt (getPassword_triple _ e)) (fun r => ?_) k hk
  cases r with
  | ok secret =>
    rintro k ⟨hl, hk⟩
    refine Triple.bind (Triple.of_imp (fun _ h => h) (migrate_triple id kind secret e h hl)
      (fun _ _ h => h) fun _ _ h => h.elim) (fun u => ?_) k hk
    exact Triple.ret fun k hk => ⟨by simp [Entries.secrets, h, hl], hk⟩
  | error err =>
    cases err with
    | noEntry => exact Triple.ret fun k hk => ⟨by simp [Entries.secrets, h, hk.1 rfl], by rw [hk.2]⟩
    | fault f => exact Triple.fail fun k hk => by rw [hk.2]

theorem get_triple (id : String) (kind : SecretKind) (v : Secrets) :
    Triple (fun k : Keychain => k.entries.secrets = v) (get id kind)
      (fun r k => r = v (id, kind) ∧ k.entries.secrets = v) (fun _ k => k.entries.secrets = v) := by
  intro k hk
  subst hk
  refine Triple.mapError (P := fun k' => k'.entries = k.entries) ?_ k rfl
  refine Triple.bind (Triple.of_imp (fun _ h => h) (newEntry_triple _ _ k.entries) (fun _ _ h => h)
    fun _ _ h => by rw [h.2]) fun entry => ?_
  rintro k' ⟨rfl, hk'⟩
  refine Triple.bind (Triple.attempt (getPassword_triple _ k.entries)) (fun r => ?_) k' hk'
  cases r with
  | ok secret =>
    exact Triple.ret fun k' hk' => ⟨by simp [Entries.secrets, hk'.1], by rw [hk'.2]⟩
  | error err =>
    cases err with
    | noEntry => exact fun k' hk' => getLegacy_triple id kind k.entries (hk'.1 rfl) k' hk'.2
    | fault f => exact Triple.fail fun k' hk' => by rw [hk'.2]

theorem deleteKeyringEntry_triple (service : Service) (account : String) (e : Entries) :
    Triple (fun k : Keychain => k.entries = e) (deleteKeyringEntry service account)
      (fun _ k => k.entries = put ⟨service, account⟩ none e) (fun _ _ => True) := by
  refine Triple.bind (Triple.of_imp (fun _ h => h) (newEntry_triple _ _ e) (fun _ _ h => h)
    fun _ _ _ => trivial) fun entry => ?_
  rintro k ⟨rfl, hk⟩
  refine Triple.bind (Triple.attempt (deleteCredential_triple _ e)) (fun r => ?_) k hk
  cases r with
  | ok u => exact Triple.ret fun k hk => hk
  | error err =>
    cases err with
    | noEntry => exact Triple.ret fun k hk => by rw [hk.2, put_none (hk.1 rfl)]
    | fault f => exact Triple.fail fun k hk => trivial

theorem delete_triple (id : String) (kind : SecretKind) (v : Secrets) :
    Triple (fun k : Keychain => k.entries.secrets = v) (delete id kind)
      (fun _ k => k.entries.secrets = Function.update v (id, kind) none) (fun _ _ => True) := by
  intro k hk
  subst hk
  refine Triple.mapError (P := fun k' => k'.entries = k.entries) ?_ k rfl
  refine Triple.bind (deleteKeyringEntry_triple _ _ k.entries) fun _ => ?_
  exact Triple.of_imp (fun _ h => h) (deleteKeyringEntry_triple _ _ _)
    (fun _ _ h => by rw [h, Entries.secrets_put_none]) fun _ _ _ => trivial

end KeychainSecretStore

theorem keychainSecretStore_lawful :
    keychainSecretStore.Lawful (fun k : Keychain => k.entries.secrets) where
  set_triple := KeychainSecretStore.set_triple
  get_triple := KeychainSecretStore.get_triple
  delete_triple := KeychainSecretStore.delete_triple

end InfiniShell.Ssh
