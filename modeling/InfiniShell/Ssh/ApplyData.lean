import InfiniShell.Effects.Journal
import InfiniShell.Ssh.ReplaceRows

namespace InfiniShell.Ssh

open Effects Effects.Program Effects.Journal Sync

def PendingSecret.entry (s : PendingSecret) : (String × SecretKind) × String := ((s.nodeId, s.kind), s.value)

def WrittenSecret.entry (e : WrittenSecret) : (String × SecretKind) × Option String :=
  ((e.nodeId, e.kind), e.priorValue)

/-- Every keychain call of a rollback succeeded. -/
def RollbackSucceeded (log : List Warning) : Prop :=
  ∀ id kind e, .rollbackFailed id kind e ∉ log

section Database

variable {t : Tables}

theorem existingSecretOwnerIds_triple :
    Triple (fun db : Database => db.tables = t) existingSecretOwnerIds (fun _ db => db.tables = t)
      (fun _ db => db.tables = t) := by
  refine Triple.bind (Database.withConn_triple (Database.load_triple _)) fun nodeIds => ?_
  refine Triple.of_imp (fun _ h => h.2) ?_ (fun _ _ h => h) (fun _ _ h => h)
  refine Triple.bind (Database.withConn_triple (Database.load_triple _)) fun credentialIds => ?_
  exact Triple.ret fun _ h => h.2

end Database

section Store

variable {S : Type} {store : SshSecretStore S} {view : S → Secrets} {t : Tables} {A : Type}

theorem onSecrets_triple {p : Program S SshSecretStoreError A} {P : S → Prop}
    {Q : A → S → Prop} {R : SshSecretStoreError → S → Prop} (h : Triple P p Q R) (db : Database)
    (log : List Warning) :
    Triple (fun w : World S => P w.secrets ∧ w.db = db ∧ w.log = log) (onSecrets p)
      (fun a w => Q a w.secrets ∧ w.db = db ∧ w.log = log)
      (fun e w => R e w.secrets ∧ w.db = db ∧ w.log = log) := by
  refine Triple.zoom fun w hw => Triple.of_imp ?_ h ?_ ?_
  · rintro s rfl
    exact hw.1
  · exact fun _ _ hq => ⟨hq, hw.2⟩
  · exact fun _ _ hr => ⟨hr, hw.2⟩

theorem rollbackEntry_triple (hstore : store.Lawful view) (entry : WrittenSecret) (v : Secrets) :
    Triple (fun s => view s = v) (rollbackEntry store entry)
      (fun _ s => view s = undo v [entry.entry]) (fun _ _ => True) := by
  obtain ⟨id, kind, prior⟩ := entry
  cases prior with
  | some value =>
    exact Triple.of_imp (fun _ h => h) (hstore.set_triple id kind value v) (fun _ _ h => h)
      fun _ _ _ => trivial
  | none => exact hstore.delete_triple id kind v

theorem rollback_triple (hstore : store.Lawful view) (written : List WrittenSecret) (v : Secrets) :
    Triple (fun w : World S => w.db.tables = t ∧ (RollbackSucceeded w.log → view w.secrets = v))
      (rollbackKeychainWrites store written)
      (fun _ w => w.db.tables = t ∧
        (RollbackSucceeded w.log → view w.secrets = undo v (written.map WrittenSecret.entry)))
      (fun _ _ => False) := by
  refine Triple.of_imp ?_ (Triple.forEach (fun l w => w.db.tables = t ∧ (RollbackSucceeded w.log →
    undo (view w.secrets) (l.map WrittenSecret.entry) = undo v (written.map WrittenSecret.entry)))
    ?_ written) (fun _ _ h => h) fun _ _ h => h
  · rintro w ⟨ht, hv⟩
    exact ⟨ht, fun hlog => by rw [hv hlog]⟩
  · rintro entry l w ⟨ht, hv⟩
    refine Triple.bind (Triple.attempt (onSecrets_triple (rollbackEntry_triple hstore entry
      (view w.secrets)) w.db w.log)) (fun r => ?_) w ⟨rfl, rfl, rfl⟩
    cases r with
    | ok u =>
      refine Triple.ret fun w' hw' => ⟨by rw [hw'.2.1, ht], fun hlog => ?_⟩
      rw [hw'.1, ← undo_append]
      exact hv (hw'.2.2 ▸ hlog)
    | error e =>
      refine Triple.modify fun w' hw' => ⟨by rw [hw'.2.1, ht], fun hlog => ?_⟩
      exact absurd (by simp) (hlog entry.nodeId entry.kind e)

theorem writeSecrets_triple (hstore : store.Lawful view) (pending : List PendingSecret)
    (written : List WrittenSecret) (v : Secrets) :
    Triple (fun w : World S => w.db.tables = t ∧ view w.secrets = v)
      (writeSecrets store written pending)
      (fun r w => w.db.tables = t ∧ view w.secrets = write v (pending.map PendingSecret.entry) ∧
        r.map WrittenSecret.entry =
          written.map WrittenSecret.entry ++ journal v (pending.map PendingSecret.entry))
      (fun _ w => w.db.tables = t ∧ ∃ m n, pending.map PendingSecret.entry = m ++ n ∧
        (RollbackSucceeded w.log → view w.secrets =
          undo (write v m) (written.map WrittenSecret.entry ++ journal v m))) := by
  induction pending generalizing written v with
  | nil => exact Triple.ret fun w hw => ⟨hw.1, hw.2, by simp [journal]⟩
  | cons s pending ih =>
    rintro w ⟨ht, hv⟩
    -- a failure before the write of `s` undoes what was written so far
    have hfail : ∀ e : SshError, Triple
        (fun w' : World S => view w'.secrets = v ∧ w'.db = w.db ∧ w'.log = w.log)
        (do rollbackKeychainWrites store written; throw e : Program (World S) SshError (List WrittenSecret))
        (fun r w' => w'.db.tables = t ∧
          view w'.secrets = write v ((s :: pending).map PendingSecret.entry) ∧
          r.map WrittenSecret.entry =
            written.map WrittenSecret.entry ++ journal v ((s :: pending).map PendingSecret.entry))
        (fun _ w' => w'.db.tables = t ∧ ∃ m n, (s :: pending).map PendingSecret.entry = m ++ n ∧
          (RollbackSucceeded w'.log → view w'.secrets =
            undo (write v m) (written.map WrittenSecret.entry ++ journal v m))) := by
      intro e
      refine Triple.bind (Triple.of_imp ?_ (rollback_triple hstore written v) (fun _ _ h => h)
        fun _ _ h => h.elim) fun u => Triple.fail fun w' hw' => ⟨hw'.1, [], _, rfl, fun hlog => ?_⟩
      · rintro w' ⟨hv', hdb, -⟩
        exact ⟨by rw [hdb, ht], fun _ => hv'⟩
      · simpa [write, journal] using hw'.2 hlog
    refine Triple.bind (Triple.attempt (onSecrets_triple (hstore.get_triple s.nodeId s.kind v)
      w.db w.log)) (fun r => ?_) w ⟨hv, rfl, rfl⟩
    cases r with
    | error e => exact hfail _
    | ok prior =>
      rintro w₁ ⟨⟨hprior, hv₁⟩, hw₁⟩
      refine Triple.bind (Triple.attempt (onSecrets_triple
        (hstore.set_triple s.nodeId s.kind s.value v) w.db w.log)) (fun r => ?_) w₁ ⟨hv₁, hw₁⟩
      cases r with
      | error e => exact hfail _
      | ok u =>
        refine Triple.of_imp ?_ (ih (written ++ [⟨s.nodeId, s.kind, prior⟩])
          (Function.update v (s.nodeId, s.kind) (some s.value))) ?_ ?_
        · rintro w₂ ⟨hv₂, hdb, -⟩
          exact ⟨by rw [hdb, ht], hv₂⟩
        · rintro r w₂ ⟨ht₂, hv₂, hr⟩
          refine ⟨ht₂, hv₂, ?_⟩
          rw [hr]
          simp [journal, WrittenSecret.entry, PendingSecret.entry, hprior]
        · rintro e w₂ ⟨ht₂, m, n, hmn, hv₂⟩
          refine ⟨ht₂, s.entry :: m, n, by simp [hmn], fun hlog => ?_⟩
          rw [hv₂ hlog]
          simp [journal, WrittenSecret.entry, PendingSecret.entry, hprior, write]

theorem onDb_triple {p : Program Database String A} {P : Database → Prop}
    {Q : A → Database → Prop} {R : String → Database → Prop} (h : Triple P p Q R) (secrets : S)
    (log : List Warning) :
    Triple (fun w : World S => P w.db ∧ w.secrets = secrets ∧ w.log = log) (onDb p)
      (fun a w => Q a w.db ∧ w.secrets = secrets ∧ w.log = log)
      (fun e w => R e w.db ∧ w.secrets = secrets ∧ w.log = log) := by
  refine Triple.zoom fun w hw => Triple.of_imp ?_ h ?_ ?_
  · rintro s rfl
    exact hw.1
  · exact fun _ _ hq => ⟨hq, hw.2⟩
  · exact fun _ _ hr => ⟨hr, hw.2⟩

theorem orWarn_triple (db : Database) (warning : SshSecretStoreError → Warning)
    (p : Program S SshSecretStoreError Unit) :
    Triple (fun w : World S => w.db = db) (orWarn warning p) (fun _ w => w.db = db)
      (fun _ _ => False) := by
  intro w hw
  refine Triple.bind (Triple.attempt (onSecrets_triple (Triple.any (P := fun _ => True) p) db w.log))
    (fun r => ?_) w ⟨trivial, hw, rfl⟩
  cases r with
  | ok u => exact Triple.ret fun _ h => h.2.1
  | error e => exact Triple.modify fun _ h => h.2.1

theorem clearSecrets_triple (db : Database) (data : SshSyncData)
    (clears : List (String × SecretKind)) (oldOwnerIds : List String) :
    Triple (fun w : World S => w.db = db) (clearSecrets store data clears oldOwnerIds)
      (fun _ w => w.db = db) (fun _ _ => False) := by
  refine Triple.bind (Triple.forEach (fun _ (w : World S) => w.db = db)
    (fun key _ => orWarn_triple db _ _) clears) fun _ =>
      Triple.forEach (fun _ (w : World S) => w.db = db) (fun oldId _ => ?_) oldOwnerIds
  unfold clearOrphan
  split
  · exact Triple.ret fun _ h => h
  · exact Triple.forEach (fun _ (w : World S) => w.db = db) (fun kind _ => orWarn_triple db _ _)
      allSecretKinds

theorem writeAndReplace_triple (hstore : store.Lawful view) (data : SshSyncData)
    (pending : List PendingSecret) (clears : List (String × SecretKind))
    (memories : List MachineMemory) (oldOwnerIds : List String) (v : Secrets) :
    Triple (fun w : World S => w.db.tables = t ∧ view w.secrets = v)
      (writeAndReplace store data pending clears memories oldOwnerIds)
      (fun outcome w => Replaced data memories t outcome w.db.tables)
      (fun _ w => w.db.tables = t ∧ ∃ m n, pending.map PendingSecret.entry = m ++ n ∧
        (RollbackSucceeded w.log → view w.secrets = rolledBack v m)) := by
  refine Triple.bind (Triple.of_imp (fun _ h => h) (writeSecrets_triple hstore pending [] v)
    (fun _ _ h => h) fun _ w h => h) fun written => ?_
  rintro w ⟨ht, hv, hwritten⟩
  refine Triple.bind (Triple.attempt (onDb_triple (Database.withConn_triple (t := t)
    (Database.transaction_triple (replaceRows_triple data memories))) w.secrets w.log))
    (fun r => ?_) w ⟨ht, rfl, rfl⟩
  cases r with
  | ok outcome =>
    rintro w' ⟨hreplaced, -⟩
    refine Triple.bind (Triple.of_imp (fun _ h => h)
      (clearSecrets_triple w'.db data clears oldOwnerIds) (fun _ _ h => h) fun _ _ h => h.elim)
      (fun _ => Triple.ret fun w'' hw'' => ?_) w' rfl
    rw [hw'']
    exact hreplaced
  | error e =>
    refine Triple.bind (Triple.of_imp ?_ (rollback_triple hstore written
      (write v (pending.map PendingSecret.entry))) (fun _ _ h => h)
      fun _ _ h => h.elim) fun _ => Triple.fail fun w' hw' => ⟨hw'.1, _, [], (List.append_nil _).symm,
        fun hlog => ?_⟩
    · rintro w' ⟨ht', hs, -⟩
      exact ⟨ht', fun _ => by rw [hs, hv]⟩
    · rw [hw'.2 hlog, hwritten]
      rfl

theorem fromValue_of_mapError {json : SectionJson} {data : SshSyncData}
    (h : json.fromValue.mapError SyncEngineError.serialization = (.ok data : Except SshError _)) :
    json.fromValue = .ok data := by
  cases hj : json.fromValue with
  | ok d => simpa [hj, Except.mapError] using h
  | error e => simp [hj, Except.mapError] at h

/-- A failed call leaves the tables and, if rolled back, undoes its first secret writes in the order they were
done. -/
theorem applyData_triple (hstore : store.Lawful view) (crypto : Crypto) (rfc3339 : Rfc3339)
    (token : String) (json : SectionJson) (v : Secrets) :
    Triple (fun w : World S => w.db.tables = t ∧ view w.secrets = v)
      (applyData crypto rfc3339 store token json)
      (fun outcome w => ∃ data memories, json.fromValue = .ok data ∧
        decryptMachineMemories crypto rfc3339 token data.machineMemories = .ok memories ∧
        Replaced data memories t outcome w.db.tables)
      (fun _ w => w.db.tables = t ∧ (view w.secrets = v ∨ ∃ data memories pending clears,
        json.fromValue = .ok data ∧
        decryptMachineMemories crypto rfc3339 token data.machineMemories = .ok memories ∧
        collectSecrets crypto token (secretFields data) = .ok (pending, clears) ∧
        ∃ m n, pending.map PendingSecret.entry = m ++ n ∧
          (RollbackSucceeded w.log → view w.secrets = rolledBack v m))) := by
  refine Triple.bind (Triple.ofResult (fun w h => ⟨h.1, .inl h.2⟩)) fun data => ?_
  refine Triple.of_pure fun hdata => ?_
  refine Triple.bind (Triple.ofResult (fun w h => ⟨h.1, .inl h.2⟩)) fun memories => ?_
  refine Triple.of_pure fun hmemories => ?_
  refine Triple.bind (Triple.ofResult (fun w h => ⟨h.1, .inl h.2⟩)) fun pc => ?_
  refine Triple.of_pure fun hpc => ?_
  obtain ⟨pending, clears⟩ := pc
  refine Triple.bind (Triple.modify (Q := fun _ w => w.db.tables = t ∧ view w.secrets = v)
    fun w h => h) fun _ => ?_
  rintro w ⟨ht, hv⟩
  refine Triple.bind (Triple.mapError (Triple.of_imp (fun _ h => h)
    (onDb_triple (existingSecretOwnerIds_triple (t := t)) w.secrets w.log) (fun _ _ h => h)
    fun _ w' h => ⟨h.1, .inl (by rw [h.2.1, hv])⟩)) (fun oldOwnerIds => ?_) w ⟨ht, rfl, rfl⟩
  have hjson := fromValue_of_mapError hdata
  refine Triple.of_imp (fun w' h => ⟨h.1, by rw [h.2.1, hv]⟩)
    (writeAndReplace_triple hstore data pending clears memories oldOwnerIds v)
    (fun outcome w' h => ⟨data, memories, hjson, hmemories, h⟩) ?_
  rintro e w' ⟨ht', m, n, hmn, hv'⟩
  exact ⟨ht', .inr ⟨data, memories, pending, clears, hjson, hmemories, hpc, m, n, hmn, hv'⟩⟩

end Store

section Keychain

open KeychainSecretStore Keychain

theorem Keychain.call_quiet (n : Nat) (e : Entries) (faults : Faults) :
    Keychain.call ⟨e, Faults.quiet (n + 1) faults⟩ = (.ok (), ⟨e, Faults.quiet n faults⟩) := rfl

/-- `p` succeeds with `a` when its calls do, whatever comes after them. -/
def Runs {E A : Type} (p : Program Keychain E A) (e : Entries) (a : A) (e' : Entries) : Prop :=
  ∃ n, ∀ faults, p ⟨e, Faults.quiet n faults⟩ = (.ok a, ⟨e', faults⟩)

theorem Runs.bind {E A B : Type} {p : Program Keychain E A} {f : A → Program Keychain E B} {a : A}
    {b : B} {e e₁ e₂ : Entries} (hp : Runs p e a e₁) (hf : Runs (f a) e₁ b e₂) :
    Runs (p >>= f) e b e₂ := by
  obtain ⟨m, hm⟩ := hp
  obtain ⟨n, hn⟩ := hf
  exact ⟨m + n, fun faults => by rw [Faults.quiet_add, bind_ok (hm _), hn]⟩

theorem Runs.mapError {E F A : Type} {p : Program Keychain E A} {f : E → F} {a : A}
    {e e' : Entries} (h : Runs p e a e') : Runs (mapError f p) e a e' := by
  obtain ⟨n, hn⟩ := h
  exact ⟨n, fun faults => by simp [Program.mapError, hn]⟩

theorem set_runs (id : String) (kind : SecretKind) (secret : String) (e : Entries) :
    ∃ e', Runs (keychainSecretStore.set id kind secret) e () e' :=
  ⟨put ⟨.current, accountKey id kind⟩ (some secret) e, 2, fun _ => rfl⟩

theorem deleteKeyringEntry_runs (service : Service) (account : String) (e : Entries) :
    ∃ e', Runs (deleteKeyringEntry service account) e () e' := by
  cases he : e service account with
  | none =>
    refine ⟨e, 2, fun faults => ?_⟩
    simp [deleteKeyringEntry, newEntry, deleteCredential, bind_apply, Keychain.call_quiet, attempt,
      Program.read, he]
  | some secret =>
    refine ⟨put ⟨service, account⟩ none e, 2, fun faults => ?_⟩
    simp [deleteKeyringEntry, newEntry, deleteCredential, bind_apply, Keychain.call_quiet, attempt,
      Program.read, Program.modify, he]

theorem delete_runs (id : String) (kind : SecretKind) (e : Entries) :
    ∃ e', Runs (keychainSecretStore.delete id kind) e () e' := by
  obtain ⟨e₁, h₁⟩ := deleteKeyringEntry_runs .current (accountKey id kind) e
  obtain ⟨e₂, h₂⟩ := deleteKeyringEntry_runs .legacy (accountKey id kind) e₁
  exact ⟨e₂, (h₁.bind h₂).mapError⟩

theorem getLegacy_runs (entry : Entry) (account : String) (e : Entries) :
    ∃ r e', Runs (getLegacy entry account) e r e' := by
  cases he : e .legacy account with
  | none =>
    refine ⟨none, e, 2, fun faults => ?_⟩
    simp [getLegacy, newEntry, getPassword, bind_apply, Keychain.call_quiet, attempt, Program.read, he]
  | some secret =>
    cases hc : put entry (some secret) e .legacy account with
    | none =>
      refine ⟨some secret, put entry (some secret) e, 4, fun faults => ?_⟩
      simp [getLegacy, newEntry, getPassword, bind_apply, Keychain.call_quiet, attempt, Program.read,
        he, migrate, setPassword, Program.modify, deleteCredential, hc]
    | some s =>
      refine ⟨some secret, put ⟨.legacy, account⟩ none (put entry (some secret) e), 4,
        fun faults => ?_⟩
      simp [getLegacy, newEntry, getPassword, bind_apply, Keychain.call_quiet, attempt, Program.read,
        he, migrate, setPassword, Program.modify, deleteCredential, hc]

theorem get_runs (id : String) (kind : SecretKind) (e : Entries) :
    ∃ r e', Runs (keychainSecretStore.get id kind) e r e' := by
  cases he : e .current (accountKey id kind) with
  | some secret =>
    refine ⟨some secret, e, Runs.mapError ⟨2, fun faults => ?_⟩⟩
    simp [newEntry, getPassword, bind_apply, Keychain.call_quiet, attempt, Program.read, he]
  | none =>
    obtain ⟨r, e', n, hn⟩ := getLegacy_runs ⟨.current, accountKey id kind⟩ (accountKey id kind) e
    refine ⟨r, e', Runs.mapError ⟨2 + n, fun faults => ?_⟩⟩
    rw [Faults.quiet_add]
    simp [newEntry, getPassword, bind_apply, Keychain.call_quiet, attempt, Program.read, he, hn]

theorem attempt_onSecrets {S A F : Type} {p : Program S SshSecretStoreError A}
    {r : Except SshSecretStoreError A} {s s' : S} (h : p s = (r, s')) (db : Database) (log : List Warning) :
    (attempt (onSecrets p) : Program (World S) F _) ⟨db, s, log⟩ = (.ok r, ⟨db, s', log⟩) := by
  simp [attempt, onSecrets, zoom, h]

theorem writeSecrets_quiet (pending : List PendingSecret) (written : List WrittenSecret)
    (e : Entries) : ∃ n e' written', ∀ rest faults db log,
      writeSecrets keychainSecretStore written (pending ++ rest)
        ⟨db, ⟨e, Faults.quiet n faults⟩, log⟩ =
      writeSecrets keychainSecretStore written' rest ⟨db, ⟨e', faults⟩, log⟩ := by
  induction pending generalizing written e with
  | nil => exact ⟨0, e, written, fun _ _ _ _ => rfl⟩
  | cons s pending ih =>
    obtain ⟨prior, e₁, m, hget⟩ := get_runs s.nodeId s.kind e
    obtain ⟨e₂, n, hset⟩ := set_runs s.nodeId s.kind s.value e₁
    obtain ⟨k, e₃, written', hrest⟩ := ih (written ++ [⟨s.nodeId, s.kind, prior⟩]) e₂
    refine ⟨m + (n + k), e₃, written', fun rest faults db log => ?_⟩
    rw [Faults.quiet_add, Faults.quiet_add, List.cons_append, writeSecrets,
      bind_ok (attempt_onSecrets (hget _) db log)]
    dsimp only
    rw [bind_ok (attempt_onSecrets (hset _) db log)]
    exact hrest rest faults db log

theorem rollback_quiet (written : List WrittenSecret) (e : Entries) :
    ∃ n e', ∀ faults db log, rollbackKeychainWrites keychainSecretStore written
      ⟨db, ⟨e, Faults.quiet n faults⟩, log⟩ = (.ok (), ⟨db, ⟨e', faults⟩, log⟩) := by
  induction written generalizing e with
  | nil => exact ⟨0, e, fun _ _ _ => rfl⟩
  | cons entry written ih =>
    have hentry : ∃ e', Runs (rollbackEntry keychainSecretStore entry) e () e' := by
      unfold rollbackEntry
      split
      · exact set_runs entry.nodeId entry.kind _ e
      · exact delete_runs entry.nodeId entry.kind e
    obtain ⟨e₁, m, hm⟩ := hentry
    obtain ⟨n, e₂, hn⟩ := ih e₁
    refine ⟨m + n, e₂, fun faults db log => ?_⟩
    rw [Faults.quiet_add, rollbackKeychainWrites, forEach]
    refine (bind_ok (a := ()) ?_).trans (hn faults db log)
    rw [orWarn, bind_ok (attempt_onSecrets (hm _) db log)]
    rfl

theorem writeSecrets_reaches (pending : List PendingSecret) (e : Entries) :
    ∃ n e' written, (∀ rest faults db log,
      writeSecrets keychainSecretStore [] (pending ++ rest) ⟨db, ⟨e, Faults.quiet n faults⟩, log⟩ =
        writeSecrets keychainSecretStore written rest ⟨db, ⟨e', faults⟩, log⟩) ∧
      e'.secrets = write e.secrets (pending.map PendingSecret.entry) ∧
      written.map WrittenSecret.entry = journal e.secrets (pending.map PendingSecret.entry) := by
  obtain ⟨n, e', written, hn⟩ := writeSecrets_quiet pending [] e
  refine ⟨n, e', written, hn, ?_⟩
  have hrun := hn [] [] ⟨{}, []⟩ []
  rw [List.append_nil] at hrun
  have h := (writeSecrets_triple keychainSecretStore_lawful pending [] e.secrets _ ⟨rfl, rfl⟩).1 _ _ hrun
  exact ⟨h.2.1, by simpa using h.2.2⟩

theorem rollback_reaches (written : List WrittenSecret) (e : Entries) :
    ∃ n e', (∀ faults db log, rollbackKeychainWrites keychainSecretStore written
        ⟨db, ⟨e, Faults.quiet n faults⟩, log⟩ = (.ok (), ⟨db, ⟨e', faults⟩, log⟩)) ∧
      e'.secrets = undo e.secrets (written.map WrittenSecret.entry) := by
  obtain ⟨n, e', hn⟩ := rollback_quiet written e
  refine ⟨n, e', hn, ?_⟩
  have h := (rollback_triple keychainSecretStore_lawful written e.secrets _ ⟨rfl, fun _ => rfl⟩).1 _ _
    (hn [] ⟨{}, []⟩ [])
  exact h.2 (by simp [RollbackSucceeded])

/-- A call can be made to fail after any prefix of its secret writes, with a
rollback that goes through. -/
theorem writeAndReplace_fails_after (data : SshSyncData) (done rest : List PendingSecret)
    (clears : List (String × SecretKind)) (memories : List MachineMemory) (oldOwnerIds : List String)
    (t : Tables) (e : Entries) : ∃ keyringFaults, ∀ fault log, ∃ err w',
      writeAndReplace keychainSecretStore data (done ++ rest) clears memories oldOwnerIds
        ⟨⟨t, [some fault]⟩, ⟨e, keyringFaults⟩, log⟩ = (.error err, w') ∧ w'.log = log ∧
      w'.secrets.entries.secrets = rolledBack e.secrets (done.map PendingSecret.entry) := by
  obtain ⟨n, e₁, written, hdone, he₁, hwritten⟩ := writeSecrets_reaches done e
  obtain ⟨m, e₂, hback, he₂⟩ := rollback_reaches written e₁
  rw [he₁, hwritten] at he₂
  cases rest with
  | nil =>
    refine ⟨Faults.quiet n (Faults.quiet m []), fun fault log => ⟨.provider (.writeDatabase written.length
      fault.message), ⟨⟨t, []⟩, ⟨e₂, []⟩, log⟩, ?_, rfl, he₂⟩⟩
    have hdb : (attempt (onDb (Database.withConn (Database.transaction
        (replaceRows data (topologicallySortNodes data.nodes) memories)))) :
          Program (World Keychain) SshError _) ⟨⟨t, [some fault]⟩, ⟨e₁, Faults.quiet m []⟩, log⟩ =
        (.ok (.error fault.message), ⟨⟨t, []⟩, ⟨e₁, Faults.quiet m []⟩, log⟩) := rfl
    refine (bind_ok (hdone [] _ _ _)).trans ((bind_ok hdb).trans ?_)
    exact bind_ok (hback [] _ _)
  | cons s rest =>
    refine ⟨Faults.quiet n (some ⟨true, ""⟩ :: Faults.quiet m []), fun fault log =>
      ⟨.provider (.readPreviousSecret s.nodeId s.kind written.length .noBackend),
        ⟨⟨t, [some fault]⟩, ⟨e₂, []⟩, log⟩, ?_, rfl, he₂⟩⟩
    have hget : (attempt (onSecrets (keychainSecretStore.get s.nodeId s.kind)) :
          Program (World Keychain) SshError _)
          ⟨⟨t, [some fault]⟩, ⟨e₁, some ⟨true, ""⟩ :: Faults.quiet m []⟩, log⟩ =
        (.ok (.error .noBackend), ⟨⟨t, [some fault]⟩, ⟨e₁, Faults.quiet m []⟩, log⟩) := rfl
    refine bind_error ((hdone (s :: rest) _ _ _).trans ((bind_ok hget).trans ?_))
    exact bind_ok (hback [] _ _)

theorem topologyWarnings_rollbackSucceeded (nodes : List SyncNode) :
    RollbackSucceeded (topologyWarnings nodes) := by
  intro id kind e h
  obtain ⟨node, -, hnode⟩ := List.mem_map.mp h
  split at hnode <;> simp at hnode

end Keychain

/-- Exactly when each value a payload writes to a secret it writes again is the one the keychain holds. -/
theorem applyData_all_or_nothing_iff (crypto : Crypto) (rfc3339 : Rfc3339) (token : String)
    (json : SectionJson) (t : Tables) (e : Entries) :
    (∀ (dbFaults keyringFaults : Faults) (err : SshError) (w' : World Keychain),
      applyData crypto rfc3339 keychainSecretStore token json
        ⟨⟨t, dbFaults⟩, ⟨e, keyringFaults⟩, []⟩ = (.error err, w') →
      w'.db.tables = t ∧ (RollbackSucceeded w'.log →
        ∀ id kind, w'.secrets.entries.secrets (id, kind) = e.secrets (id, kind))) ↔
    ∀ data memories pending clears, json.fromValue = .ok data →
      decryptMachineMemories crypto rfc3339 token data.machineMemories = .ok memories →
      collectSecrets crypto token (secretFields data) = .ok (pending, clears) →
      RepeatsHarmless e.secrets (pending.map PendingSecret.entry) := by
  constructor
  · intro h data memories pending clears hdata hmemories hpending
    by_contra hharm
    obtain ⟨m, n, ⟨id, kind⟩, hmn, hne⟩ := exists_prefix_of_not_repeatsHarmless hharm
    obtain ⟨done, rest, rfl, rfl, -⟩ := List.map_eq_append_iff.mp hmn
    obtain ⟨keyringFaults, hfail⟩ := writeAndReplace_fails_after data done rest clears memories
      (t.nodeIds ++ t.credentialIds) t e
    obtain ⟨err, w', hw', hlog, hsecrets⟩ := hfail ⟨false, ""⟩ (topologyWarnings data.nodes)
    have hrun : applyData crypto rfc3339 keychainSecretStore token json
        ⟨⟨t, Faults.quiet 4 [some ⟨false, ""⟩]⟩, ⟨e, keyringFaults⟩, []⟩ = (.error err, w') := by
      have hjson : json.fromValue.mapError SyncEngineError.serialization = (.ok data : Except SshError _) := by
        rw [hdata]
        rfl
      refine (bind_ok (ofResult_ok hjson _)).trans ((bind_ok (ofResult_ok hmemories _)).trans ?_)
      exact (bind_ok (ofResult_ok hpending _)).trans hw'
    refine hne ?_
    rw [← hsecrets]
    exact (h _ _ err w' hrun).2 (hlog ▸ topologyWarnings_rollbackSucceeded data.nodes) id kind
  · intro h dbFaults keyringFaults err w' hrun
    obtain ⟨ht, hv⟩ := (applyData_triple keychainSecretStore_lawful crypto rfc3339 token json
      e.secrets ⟨⟨t, dbFaults⟩, ⟨e, keyringFaults⟩, []⟩ ⟨rfl, rfl⟩).2 err w' hrun
    refine ⟨ht, fun hlog id kind => ?_⟩
    rcases hv with hv | ⟨data, memories, pending, clears, hdata, hmemories, hpending, m, n, hmn, hv⟩
    · rw [hv]
    · have hharm := h data memories pending clears hdata hmemories hpending
      rw [hmn] at hharm
      rw [hv hlog, hharm.of_prefix.rolledBack_eq]

def plainCrypto : Crypto where
  encrypt _ _ text := .ok text
  decrypt _ cipher := .ok cipher

def plainRfc3339 : Rfc3339 where
  format at' := toString at'
  parse text := text.toInt?

def serverWithPassword (nodeId password : String) : SyncServer where
  nodeId
  host := "host"
  port := 22
  username := "root"
  authType := "password"
  keyPath := none
  startupCommand := none
  notes := none
  credentialId := none
  passwordEncrypted := some password
  passphraseEncrypted := none
  rootPasswordEncrypted := none

def repeatedServer : SshSyncData where
  nodes := [{
    id := "n1", parentId := none, kind := "server", name := "box", sortOrder := 0, isCollapsed := false }]
  servers := [serverWithPassword "n1" "first", serverWithPassword "n1" "second"]
  oneKeyCredentials := []
  machineMemories := []
  routes := none

def storedPassword : Entries := fun service account =>
  if service = .current ∧ account = "n1:password" then some "old" else none

/-- The rollback puts the old password back first and then the first new one. -/
theorem applyData_repeated_server_keeps_new_password :
    ∃ err w', applyData plainCrypto plainRfc3339 keychainSecretStore "token" (.ssh repeatedServer)
        ⟨⟨{}, []⟩, ⟨storedPassword, []⟩, []⟩ = (.error err, w') ∧
      RollbackSucceeded w'.log ∧ storedPassword.secrets ("n1", .password) = some "old" ∧
      w'.secrets.entries.secrets ("n1", .password) = some "first" := by
  refine ⟨_, _, rfl, ?_, ?_, ?_⟩
  · exact fun _ _ _ h => nomatch h
  · decide
  · decide

end InfiniShell.Ssh
