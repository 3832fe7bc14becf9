import InfiniShell.Ssh.Provider
import InfiniShell.Sync.MergeConvergence
import Mathlib.Data.List.Perm.Basic

namespace InfiniShell.Ssh

open Collections Effects.Results Sync

variable {crypto : Crypto} {rfc3339 : Rfc3339} {token : String} {nonce : Nat} {memory : MachineMemory}

variable {encrypted : SyncMachineMemory}

theorem decryptContent_encrypt (hcrypto : crypto.RoundTrips) (hrow : RowSound memory)
    (hcontent : encryptContent crypto token nonce memory = .ok encrypted.contentEncrypted) :
    decryptContent crypto token encrypted memory.deletedAt.isSome = .ok memory.content := by
  unfold encryptContent at hcontent
  unfold decryptContent
  split at hcontent
  · rename_i hdeleted
    rw [pure_eq_ok] at hcontent
    simp [← hcontent, hdeleted, hrow.tombstone hdeleted, pure, Except.pure]
  · obtain ⟨cipher, hcipher, hsome⟩ := map_eq_ok.mp hcontent
    simp [← hsome, hcrypto _ _ _ _ hcipher, Except.mapError]

theorem parseMemoryTimestamp_format (hrfc : rfc3339.RoundTrips) (column machineKey : String) (at' : Int) :
    parseMemoryTimestamp rfc3339 column machineKey (rfc3339.format at') = .ok at' := by
  rw [parseMemoryTimestamp, hrfc]
  rfl

theorem mapM_parseMemoryTimestamp_format (hrfc : rfc3339.RoundTrips) (column machineKey : String)
    (at' : Option Int) :
    (at'.map rfc3339.format).mapM (parseMemoryTimestamp rfc3339 column machineKey) = .ok at' := by
  cases at' with
  | none => rfl
  | some at' =>
    have hparse := parseMemoryTimestamp_format hrfc column machineKey at'
    simp [hparse, Functor.map, Except.map]

theorem decryptMachineMemory_encrypt (hcrypto : crypto.RoundTrips) (hrfc : rfc3339.RoundTrips) (hrow : RowSound memory)
    (h : encryptMachineMemory crypto rfc3339 token nonce memory = .ok encrypted) :
    decryptMachineMemory crypto rfc3339 token encrypted = .ok memory ∧
      encrypted.machineKey = memory.machineKey := by
  simp only [encryptMachineMemory, bind_eq_ok, pure_eq_ok] at h
  obtain ⟨contentEncrypted, hcontent, hencrypted⟩ := h
  have hcontent' : encryptContent crypto token nonce memory = .ok encrypted.contentEncrypted := by
    rw [← hencrypted]
    exact hcontent
  have hdecrypted := decryptContent_encrypt hcrypto hrow hcontent'
  have hlen : ¬(memory.deletedAt.isNone ∧ maxMemoryChars < memory.content.length) :=
    fun h => absurd hrow.length_le (not_le.mpr h.2)
  have hclear : (if memory.deletedAt.isSome then "" else memory.content) = memory.content := by
    split
    · rename_i hdeleted
      exact (hrow.tombstone hdeleted).symm
    · rfl
  subst hencrypted
  refine ⟨?_, rfl⟩
  simp only [decryptMachineMemory, mapM_parseMemoryTimestamp_format hrfc, parseMemoryTimestamp_format hrfc,
    ok_bind, hdecrypted, hlen, ↓reduceIte, hclear]
  rfl

theorem decryptMachineMemory_sound
    (h : decryptMachineMemory crypto rfc3339 token encrypted = .ok memory) : RowSound memory := by
  simp only [decryptMachineMemory, bind_eq_ok] at h
  obtain ⟨review, -, updated, -, deleted, -, content, -, h⟩ := h
  split at h
  · obtain ⟨u, hu, -⟩ := bind_eq_ok.mp h
    exact absurd hu throw_ne_ok
  · rename_i hlen
    rw [pure_eq_ok] at h
    subst h
    cases deleted with
    | none =>
      refine ⟨?_, by simp⟩
      simpa using hlen
    | some at' => exact ⟨by simp, fun _ => rfl⟩

variable {encrypted : List SyncMachineMemory} {memories : List MachineMemory}

theorem decryptEach_sound {seen : List String} (h : decryptEach crypto rfc3339 token seen encrypted = .ok memories) :
    ∀ memory ∈ memories, RowSound memory := by
  induction encrypted generalizing seen memories with
  | nil =>
    simp only [decryptEach, pure_eq_ok] at h
    simp [← h]
  | cons e encrypted ih =>
    unfold decryptEach at h
    split at h
    · obtain ⟨u, hu, -⟩ := bind_eq_ok.mp h
      exact absurd hu throw_ne_ok
    · simp only [bind_eq_ok, pure_eq_ok] at h
      obtain ⟨memory, hmemory, others, hothers, rfl⟩ := h
      intro m hm
      rcases List.mem_cons.mp hm with rfl | hm
      · exact decryptMachineMemory_sound hmemory
      · exact ih hothers m hm

theorem decryptMachineMemories_sound
    (h : decryptMachineMemories crypto rfc3339 token encrypted = .ok memories) : Sound (byKey memories) := by
  obtain ⟨decrypted, hdecrypted, rfl⟩ := map_eq_ok.mp h
  apply byKey_sound
  intro memory hmemory
  exact decryptEach_sound hdecrypted memory ((sortByKey_perm _ _).mem_iff.mp hmemory)

theorem decryptEach_ok (h : List.Forall₂ (fun e m => decryptMachineMemory crypto rfc3339 token e = .ok m ∧
      e.machineKey = m.machineKey) encrypted memories)
    (seen : List String) (hnodup : (memories.map MachineMemory.machineKey).Nodup)
    (hseen : ∀ m ∈ memories, m.machineKey ∉ seen) :
    decryptEach crypto rfc3339 token seen encrypted = .ok memories := by
  induction h generalizing seen with
  | nil => rfl
  | @cons e m encrypted memories hem _ ih =>
    obtain ⟨hdecrypt, hkey⟩ := hem
    rw [List.map_cons, List.nodup_cons] at hnodup
    have hnew : seen.contains e.machineKey = false := by
      rw [hkey]
      simpa using hseen m (by simp)
    have hrest := ih (e.machineKey :: seen) hnodup.2 fun m' hm' => by
      rw [List.mem_cons, not_or, hkey]
      refine ⟨fun he => hnodup.1 ?_, hseen m' (by simp [hm'])⟩
      exact he ▸ List.mem_map_of_mem hm'
    simp only [decryptEach, hnew, Bool.false_eq_true, ↓reduceIte, hdecrypt, hrest, ok_bind]
    rfl

theorem decryptMachineMemories_encrypt (hcrypto : crypto.RoundTrips) (hrfc : rfc3339.RoundTrips)
    {m : MemoryMap} (hm : Sound m) (hperm : memories.Perm m.values)
    (h : encryptMachineMemories crypto rfc3339 token nonce memories = .ok encrypted) :
    ∃ decrypted, decryptMachineMemories crypto rfc3339 token encrypted = .ok decrypted ∧
      byKey decrypted = m := by
  simp only [encryptMachineMemories, bind_eq_ok, pure_eq_ok, mapM_eq_ok] at h
  obtain ⟨es, hes, rfl⟩ := h
  have hpairs : List.Forall₂ (fun e m => decryptMachineMemory crypto rfc3339 token e = .ok m ∧
      e.machineKey = m.machineKey) es memories := by
    apply List.Forall₂.flip
    obtain ⟨hlen, hget⟩ := List.forall₂_iff_get.mp hes
    refine List.forall₂_iff_get.mpr ⟨hlen, fun i hi hi' => ?_⟩
    have hmem : memories.get ⟨i, hi⟩ ∈ m.values := hperm.mem_iff.mp (List.get_mem ..)
    exact decryptMachineMemory_encrypt hcrypto hrfc (hm.values _ hmem) (hget i hi hi')
  obtain ⟨decrypted, hdecrypted, hdperm⟩ := List.perm_comp_forall₂ (sortByKey_perm _ es) hpairs
  have hnodup : (decrypted.map MachineMemory.machineKey).Nodup := by
    have hkeys : m.values.map MachineMemory.machineKey = m.entries.map Prod.fst := by
      rw [BTreeMap.values, List.map_map]
      exact List.map_congr_left fun e he => hm.keyed.entries e he
    rw [((hdperm.trans hperm).map _).nodup_iff, hkeys]
    exact m.keys_nodup
  refine ⟨sortByKey MachineMemory.machineKey decrypted, ?_, ?_⟩
  · rw [decryptMachineMemories, decryptEach_ok hdecrypted [] hnodup (by simp)]
    rfl
  · exact hm.keyed.byKey_of_perm ((sortByKey_perm _ _).trans (hdperm.trans hperm))

end InfiniShell.Ssh

namespace InfiniShell.Ssh

open Effects Effects.Program Collections Sync

def deviceMemories (w : SshDevice) : MemoryMap := w.db.tables.machineMemories

def payloadMemories (crypto : Crypto) (rfc3339 : Rfc3339) (token : String) (json : SectionJson) :
    Option MemoryMap :=
  match json.fromValue with
  | .error _ => none
  | .ok data =>
    match decryptMachineMemories crypto rfc3339 token data.machineMemories with
    | .error _ => none
    | .ok memories => some (byKey memories)

def writeMemory (write : LocalWrite) (w : SshDevice) : SshDevice :=
  { w with db.tables.machineMemories := write.apply (deviceMemories w) }

theorem newMemory_rowSound (key : String) {content : String} {now : Int} {deletedAt : Option Int}
    (hlen : content.length ≤ maxMemoryChars) (hdeleted : deletedAt.isSome → content = "") :
    RowSound (newMemory key content now deletedAt) := ⟨hlen, hdeleted⟩

theorem length_truncateContent (content : String) : (truncateContent content).length ≤ maxMemoryChars := by
  rw [truncateContent, String.length_ofList]
  exact List.length_take_le ..

theorem LocalWrite.apply_sound (write : LocalWrite) {m : MemoryMap} (hm : Sound m) :
    Sound (write.apply m) := by
  have hinsert : ∀ (key : String) (v : MachineMemory), RowSound v → v.machineKey = key →
      Sound (m.insert key v) := fun key v hv hkey => hkey ▸ hm.insert hv
  have hstored : ∀ (key : String) (now : Int), ∃ v, (m.get key).getD (newMemory key "" now none) = v ∧
      RowSound v ∧ v.machineKey = key := by
    intro key now
    cases hk : m.get key with
    | none => exact ⟨_, rfl, newMemory_rowSound key (by simp) fun _ => rfl, rfl⟩
    | some row => exact ⟨row, rfl, hm.row key row hk, hm.keyed key row hk⟩
  cases write with
  | upsertContent key content now =>
    apply hinsert
    · cases m.get key with
      | none => exact newMemory_rowSound key (length_truncateContent content) (by simp)
      | some row => exact ⟨length_truncateContent content, by simp⟩
    · cases hk : m.get key with
      | none => rfl
      | some row => exact hm.keyed key row hk
  | delete key now =>
    apply hinsert
    · cases m.get key with
      | none => exact newMemory_rowSound key (by simp) fun _ => rfl
      | some row => exact ⟨by simp, fun _ => rfl⟩
    · cases hk : m.get key with
      | none => rfl
      | some row => exact hm.keyed key row hk
  | setHostnameAlias key alias' now =>
    obtain ⟨v, hv, hrow, hkey⟩ := hstored key now
    apply hinsert
    · rw [hv]
      exact ⟨hrow.length_le, hrow.tombstone⟩
    · rw [hv]
      exact hkey
  | setLastReviewAt key at' now =>
    obtain ⟨v, hv, hrow, hkey⟩ := hstored key now
    apply hinsert
    · rw [hv]
      exact ⟨hrow.length_le, hrow.tombstone⟩
    · rw [hv]
      exact hkey

def writeIfNewer (write : LocalWrite) (w : SshDevice) : SshDevice :=
  if write.Newer (deviceMemories w) then writeMemory write w else w

section Provider

variable {crypto : Crypto} {rfc3339 : Rfc3339} {token : String} {json : SectionJson}

theorem payloadMemories_eq_some {data : SshSyncData} {memories : List MachineMemory}
    (hjson : json.fromValue = .ok data)
    (h : decryptMachineMemories crypto rfc3339 token data.machineMemories = .ok memories) :
    payloadMemories crypto rfc3339 token json = some (byKey memories) := by
  rw [payloadMemories, hjson]
  simp only [h]

theorem payloadMemories_sound {m : MemoryMap}
    (h : payloadMemories crypto rfc3339 token json = some m) : Sound m := by
  unfold payloadMemories at h
  split at h
  · simp at h
  · split at h
    · simp at h
    · rename_i memories hmemories
      simp only [Option.some.injEq] at h
      rw [← h]
      exact decryptMachineMemories_sound hmemories

theorem mergeOutcome_flags (m r : MemoryMap) :
    ((mergeOutcome m r).localChanged ↔ m ⊔ r ≠ m) ∧ ((mergeOutcome m r).needsUpload ↔ m ⊔ r ≠ r) := by
  simp [mergeOutcome]

theorem sshSyncProvider_merging (hcrypto : crypto.RoundTrips) (hrfc : rfc3339.RoundTrips) (nonce : Nat) :
    Merging deviceMemories Sound (payloadMemories crypto rfc3339 token) token
      (sshSyncProvider crypto rfc3339 keychainSecretStore nonce) where
  content_sane _ _ := payloadMemories_sound
  sup_sane _ _ := Sound.sup
  collect m hm := by
    rintro w rfl
    refine Triple.of_imp (fun w' hw' => hw') (collectData_triple (t := w.db.tables) crypto rfc3339
      keychainSecretStore nonce token) ?_ ?_ w rfl
    · rintro json w' ⟨hw', data, rfl, hdata⟩
      obtain ⟨decrypted, hdecrypted, hbyKey⟩ := decryptMachineMemories_encrypt hcrypto hrfc hm
        (listAllForSync_perm w.db.tables) hdata.memories
      refine ⟨by rw [deviceMemories, hw', deviceMemories], ?_⟩
      rw [payloadMemories_eq_some rfl hdecrypted, hbyKey]
    · exact fun e w' hw' => by rw [deviceMemories, hw', deviceMemories]
  reconcile m json hm := by
    rintro w rfl
    refine Triple.of_imp (fun w' hw' => hw') (reconcileData_triple (t := w.db.tables) json) ?_ ?_ w rfl
    · rintro outcome w' ⟨data, memories, hjson, hmemories, hjoined⟩
      have hcontent := payloadMemories_eq_some hjson hmemories
      obtain ⟨hm', rfl⟩ := hjoined.memories hm (payloadMemories_sound hcontent)
      exact ⟨byKey memories, hcontent, hm', mergeOutcome_flags _ _⟩
    · exact fun e w' hw' => by rw [deviceMemories, hw', deviceMemories]
  apply m json hm := by
    rintro w rfl
    refine Triple.of_imp (fun w' hw' => hw') (applyData_triple (t := w.db.tables) keychainSecretStore_lawful
      crypto rfc3339 token json w.secrets.entries.secrets) ?_ ?_ w ⟨rfl, rfl⟩
    · rintro outcome w' ⟨data, memories, hjson, hmemories, hreplaced⟩
      have hcontent := payloadMemories_eq_some hjson hmemories
      obtain ⟨hm', rfl⟩ := hreplaced.memories hm (payloadMemories_sound hcontent)
      exact ⟨byKey memories, hcontent, hm', mergeOutcome_flags _ _⟩
    · exact fun e w' hw' => by rw [deviceMemories, hw'.1, deviceMemories]

end Provider

/-! Runs of several devices -/

/-- Local edits keep the rows sound. Those made while a call runs also leave every row
at or above where it was. -/
def SshStep.Fits (s : SshStep) : Prop :=
  match s.action with
  | .edit _ change => ∀ w, Sound (deviceMemories w) → Sound (deviceMemories (change w))
  | .call _ _ events => ∀ event ∈ events, ∀ change ∈ event.edits, ∀ w, Sound (deviceMemories w) →
      Sound (deviceMemories (change w)) ∧ MovesUp (deviceMemories w) (deviceMemories (change w))

def writeStep (device : Nat) (write : LocalWrite) : SshStep := ⟨.gitHub, 0, .edit device (writeMemory write)⟩

theorem writeStep_fits (device : Nat) (write : LocalWrite) : (writeStep device write).Fits :=
  fun _ hw => write.apply_sound hw

theorem writeIfNewer_fits (write : LocalWrite) (w : SshDevice) (hw : Sound (deviceMemories w)) :
    Sound (deviceMemories (writeIfNewer write w)) ∧
      MovesUp (deviceMemories w) (deviceMemories (writeIfNewer write w)) := by
  unfold writeIfNewer
  by_cases h : write.Newer (deviceMemories w)
  · rw [if_pos h]
    exact ⟨write.apply_sound hw, h.movesUp⟩
  · rw [if_neg h]
    exact ⟨hw, MovesUp.refl _⟩

def gistMemories (crypto : Crypto) (rfc3339 : Rfc3339) (token : String) :
    Option (GistContent SectionJson) → Option MemoryMap :=
  gistView (payloadMemories crypto rfc3339 token) "ssh"

section Runs

variable {crypto : Crypto} {rfc3339 : Rfc3339} {token : String}

theorem SshStep.merges (hcrypto : crypto.RoundTrips) (hrfc : rfc3339.RoundTrips) (s : SshStep) :
    (s.toSync crypto rfc3339).Merges deviceMemories Sound (payloadMemories crypto rfc3339 token) token "ssh" :=
  ⟨sshSyncProvider_merging hcrypto hrfc s.nonce, rfl⟩

variable {s : SshStep}

theorem SshStep.Fits.toSync (hcrypto : crypto.RoundTrips) (hrfc : rfc3339.RoundTrips) (h : s.Fits) :
    (s.toSync crypto rfc3339).Fits deviceMemories Sound (payloadMemories crypto rfc3339 token) token "ssh" := by
  refine ⟨s.merges hcrypto hrfc, ?_⟩
  unfold SshStep.Fits at h
  unfold SshStep.toSync EditsFit
  cases haction : s.action with
  | edit device change =>
    rw [haction] at h
    exact h
  | call device op events =>
    rw [haction] at h
    intro event he change hc w hw
    obtain ⟨hsound, hup⟩ := h event he change hc w hw
    exact ⟨hsound, (le_iff_movesUp hw.keyed hsound.keyed).mpr hup⟩

variable {cloud : Cloud SshDevice SectionJson}

theorem memories_move_up (hcrypto : crypto.RoundTrips) (hrfc : rfc3339.RoundTrips) (hcloud : ∀ d, Sound (deviceMemories (cloud.devices d).data)) (hs : s.Fits) {device : Nat} {op : Operation} {events : List (Event SshDevice)}
    (haction : s.action = .call device op events) :
    (∀ d, MovesUp (deviceMemories (cloud.devices d).data)
      (deviceMemories ((performSshSteps crypto rfc3339 token cloud [s]).devices d).data)) ∧
    ∀ m, gistMemories crypto rfc3339 token cloud.gist = some m →
      ∃ n, gistMemories crypto rfc3339 token (performSshSteps crypto rfc3339 token cloud [s]).gist = some n ∧
        MovesUp m n := by
  have hfits : (s.toSync crypto rfc3339).Fits deviceMemories Sound (payloadMemories crypto rfc3339 token) token
      "ssh" := hs.toSync hcrypto hrfc
  have hrises := Cloud.AllSane.rises hcloud hfits haction
  have hcloud' := Cloud.AllSane.performStep hcloud hfits
  refine ⟨fun d => ?_, fun m hm => ?_⟩
  · exact (le_iff_movesUp (hcloud d).keyed (hcloud' d).keyed).mp (hrises.devices d)
  · obtain ⟨n, hn, hle⟩ := hrises.gist m hm
    have hsound : ∀ {g : Option (GistContent SectionJson)} {r : MemoryMap},
        gistMemories crypto rfc3339 token g = some r → Sound r := by
      intro g r hr
      unfold gistMemories gistView at hr
      split at hr
      · obtain ⟨json, -, hjson⟩ := Option.bind_eq_some_iff.mp hr
        exact payloadMemories_sound hjson
      · simp at hr
    exact ⟨n, hn, (le_iff_movesUp (hsound hm).keyed (hsound hn).keyed).mp hle⟩

theorem performSshSteps_sound (hcrypto : crypto.RoundTrips) (hrfc : rfc3339.RoundTrips) (hcloud : ∀ d, Sound (deviceMemories (cloud.devices d).data))
    {steps : List SshStep} (hsteps : ∀ s ∈ steps, s.Fits) (d : Nat) :
    Sound (deviceMemories ((performSshSteps crypto rfc3339 token cloud steps).devices d).data) := by
  have hfits : ∀ s ∈ steps.map (SshStep.toSync crypto rfc3339),
      s.Fits deviceMemories Sound (payloadMemories crypto rfc3339 token) token "ssh" := by
    intro s hs
    obtain ⟨s', hs', rfl⟩ := List.mem_map.mp hs
    exact (hsteps s' hs').toSync hcrypto hrfc
  exact Cloud.AllSane.performSteps hcloud hfits d

def MemoryRound (crypto : Crypto) (rfc3339 : Rfc3339) (token : String) (cloud : Cloud SshDevice SectionJson)
    (round : List (SshStep × Nat)) : Prop :=
  Round token cloud (round.map fun s => (s.1.toSync crypto rfc3339, s.2))

theorem memoryRound_converged (hcrypto : crypto.RoundTrips) (hrfc : rfc3339.RoundTrips) (hcloud : ∀ d, Sound (deviceMemories (cloud.devices d).data))
    {round : List (SshStep × Nat)} (h : MemoryRound crypto rfc3339 token cloud round) :
    ∀ s ∈ round, gistMemories crypto rfc3339 token
        (performSshSteps crypto rfc3339 token cloud (round.map Prod.fst)).gist =
      some (deviceMemories
        ((performSshSteps crypto rfc3339 token cloud (round.map Prod.fst)).devices s.2).data) := by
  have hmerges : ∀ s ∈ round.map fun s => (s.1.toSync crypto rfc3339, s.2),
      s.1.Merges deviceMemories Sound (payloadMemories crypto rfc3339 token) token "ssh" := by
    intro s hs
    obtain ⟨s', -, rfl⟩ := List.mem_map.mp hs
    exact s'.1.merges hcrypto hrfc
  obtain ⟨hgist, hdevices, hview⟩ := Round.converged hcloud hmerges h
  have hsteps : (round.map fun s => (s.1.toSync crypto rfc3339, s.2)).map Prod.fst =
      (round.map Prod.fst).map (SshStep.toSync crypto rfc3339) := by
    rw [List.map_map, List.map_map]
    rfl
  rw [hsteps] at hgist hdevices
  intro s hs
  unfold performSshSteps
  rw [hgist, hdevices]
  exact hview _ (List.mem_map_of_mem hs)

/-- Merges are joins with exact flags, nothing is lowered, and a round that finds nothing to do leaves equal
copies. -/
theorem machine_memories_converge (hcrypto : crypto.RoundTrips) (hrfc : rfc3339.RoundTrips)
    (token : String) :
    (∀ a b c : List MachineMemory,
      (mergeMachineMemories a b).1 = (mergeMachineMemories b a).1 ∧
      (mergeMachineMemories (mergeMachineMemories a b).1 c).1 =
        (mergeMachineMemories a (mergeMachineMemories b c).1).1 ∧
      (mergeMachineMemories a a).1 = (byKey a).values ∧
      (∀ k, (byKey (mergeMachineMemories a b).1).get k = greaterMemory ((byKey a).get k) ((byKey b).get k)) ∧
      ((mergeMachineMemories a b).2.localChanged ↔
        ∃ k, (byKey (mergeMachineMemories a b).1).get k ≠ (byKey a).get k) ∧
      ((mergeMachineMemories a b).2.needsUpload ↔
        ∃ k, (byKey (mergeMachineMemories a b).1).get k ≠ (byKey b).get k)) ∧
    ∀ cloud : Cloud SshDevice SectionJson, (∀ d, Sound (deviceMemories (cloud.devices d).data)) →
      ∀ steps : List SshStep, (∀ s ∈ steps, s.Fits) →
        (∀ (s : SshStep) (device : Nat) (op : Operation) (events : List (Event SshDevice)),
          s.Fits → s.action = .call device op events →
          (∀ d, MovesUp
            (deviceMemories ((performSshSteps crypto rfc3339 token cloud steps).devices d).data)
            (deviceMemories ((performSshSteps crypto rfc3339 token cloud (steps ++ [s])).devices d).data)) ∧
          ∀ m, gistMemories crypto rfc3339 token (performSshSteps crypto rfc3339 token cloud steps).gist =
              some m →
            ∃ n, gistMemories crypto rfc3339 token
              (performSshSteps crypto rfc3339 token cloud (steps ++ [s])).gist = some n ∧ MovesUp m n) ∧
        ∀ round : List (SshStep × Nat),
          MemoryRound crypto rfc3339 token (performSshSteps crypto rfc3339 token cloud steps) round →
          ∀ s ∈ round, gistMemories crypto rfc3339 token
              (performSshSteps crypto rfc3339 token cloud (steps ++ round.map Prod.fst)).gist =
            some (deviceMemories ((performSshSteps crypto rfc3339 token cloud
              (steps ++ round.map Prod.fst)).devices s.2).data) := by
  refine ⟨fun a b c => ?_, fun cloud hcloud steps hsteps => ?_⟩
  · refine ⟨mergeMachineMemories_comm a b, mergeMachineMemories_assoc a b c, mergeMachineMemories_self a,
      fun k => ?_, (mergeMachineMemories_flags a b).1, (mergeMachineMemories_flags a b).2⟩
    rw [byKey_merge, get_sup (byKey_keyed a) (byKey_keyed b)]
  · have happend : ∀ more, performSshSteps crypto rfc3339 token cloud (steps ++ more) =
        performSshSteps crypto rfc3339 token (performSshSteps crypto rfc3339 token cloud steps) more := by
      intro more
      simp [performSshSteps, Cloud.performSteps]
    have hreached : ∀ d, Sound (deviceMemories ((performSshSteps crypto rfc3339 token cloud steps).devices d).data) :=
      performSshSteps_sound hcrypto hrfc hcloud hsteps
    refine ⟨fun s device op events hs haction => ?_, fun round hround => ?_⟩
    · rw [happend]
      exact memories_move_up hcrypto hrfc hreached hs haction
    · rw [happend]
      exact memoryRound_converged hcrypto hrfc hreached hround

end Runs

/-- Instants written as tallies, a stroke for each nanosecond before or after the epoch. -/
def tallyRfc3339 : Rfc3339 where
  format at' := String.ofList (List.replicate at'.toNat '+' ++ List.replicate (-at').toNat '-')
  parse text := some ((text.toList.count '+' : Int) - text.toList.count '-')

theorem tallyRfc3339_roundTrips : tallyRfc3339.RoundTrips := by
  intro at'
  have hne : ('-' == '+') = false := rfl
  have hne' : ('+' == '-') = false := rfl
  simp only [tallyRfc3339, String.toList_ofList, List.count_append, List.count_replicate, Option.some.injEq, hne, hne',
    beq_self_eq_true, if_true, Bool.false_eq_true, if_false]
  omega

theorem plainCrypto_roundTrips : plainCrypto.RoundTrips := by
  intro token nonce text cipher h
  simpa [plainCrypto, eq_comm] using h

def emptyCloud : Cloud SshDevice SectionJson where
  gist := none
  devices _ := newDevice

theorem emptyCloud_sound (d : Nat) : Sound (deviceMemories (emptyCloud.devices d).data) :=
  ⟨fun k v h => by simp [emptyCloud, newDevice, deviceMemories] at h,
    fun k v h => by simp [emptyCloud, newDevice, deviceMemories] at h⟩

def sharedSteps : List SshStep := [writeStep 0 (.upsertContent "a:22" "one" 5),
  callStep 0 .upload [{}, {}, { edits := [writeIfNewer (.delete "a:22" 9)] }], callStep 1 .download []]

theorem sharedSteps_fit : ∀ s ∈ sharedSteps, s.Fits := by
  intro s hs
  simp only [sharedSteps, List.mem_cons, List.not_mem_nil, or_false] at hs
  rcases hs with rfl | rfl | rfl
  · exact writeStep_fits _ _
  · intro event he change hc
    simp only [List.mem_cons, List.not_mem_nil, or_false] at he
    rcases he with rfl | rfl | rfl
    · simp at hc
    · simp at hc
    · rw [List.mem_singleton.mp hc]
      exact fun w hw => writeIfNewer_fits _ w hw
  · exact fun _ he => by simp at he

def sharedRound : List (SshStep × Nat) := [(callStep 1 .download [], 1)]

theorem machine_memories_converge_two_devices :
    MovesUp (deviceMemories ((performSshSteps plainCrypto tallyRfc3339 "token" emptyCloud
        sharedSteps).devices 0).data)
      (deviceMemories ((performSshSteps plainCrypto tallyRfc3339 "token" emptyCloud
        (sharedSteps ++ [callStep 0 .upload []])).devices 0).data) ∧
    gistMemories plainCrypto tallyRfc3339 "token" (performSshSteps plainCrypto tallyRfc3339 "token" emptyCloud
        (sharedSteps ++ sharedRound.map Prod.fst)).gist =
      some (deviceMemories ((performSshSteps plainCrypto tallyRfc3339 "token" emptyCloud
        (sharedSteps ++ sharedRound.map Prod.fst)).devices 1).data) := by
  have hround : MemoryRound plainCrypto tallyRfc3339 "token"
      (performSshSteps plainCrypto tallyRfc3339 "token" emptyCloud sharedSteps) sharedRound :=
    ⟨⟨.download, [], rfl, by simp, by decide +kernel⟩, trivial⟩
  obtain ⟨hcall, hconverged⟩ := (machine_memories_converge plainCrypto_roundTrips tallyRfc3339_roundTrips
    "token").2 emptyCloud emptyCloud_sound sharedSteps sharedSteps_fit
  have hfits : (callStep 0 .upload []).Fits := fun _ he => by simp at he
  have hup := hcall (callStep 0 .upload []) 0 .upload [] hfits rfl
  exact ⟨hup.1 0, hconverged sharedRound hround (callStep 1 .download [], 1) (List.mem_singleton.mpr rfl)⟩

/-- A download by a device that is ahead merges nothing; an older write during an upload goes to the gist. -/
theorem download_up_to_date_without_merging :
    (∃ cloud : Cloud SshDevice SectionJson,
      cloud = performSshSteps plainCrypto tallyRfc3339 "token" emptyCloud
        [writeStep 0 (.upsertContent "a:22" "one" 5), callStep 0 .upload [],
          writeStep 1 (.upsertContent "b:22" "two" 6), writeStep 1 (.upsertContent "b:22" "two" 7)] ∧
      (∀ d < 2, (Operation.download.run .gitHub "token"
          [sshSyncProvider plainCrypto tallyRfc3339 keychainSecretStore 0] (cloud.world d [])).1 =
        .ok (.alreadyUpToDate 1)) ∧
      ∃ after, after = performSshSteps plainCrypto tallyRfc3339 "token" cloud
          [callStep 0 .download [], callStep 1 .download []] ∧
        deviceMemories (after.devices 0).data ≠ deviceMemories (after.devices 1).data) ∧
    ∃ cloud : Cloud SshDevice SectionJson,
      cloud = performSshSteps plainCrypto tallyRfc3339 "token" emptyCloud
        [writeStep 0 (.upsertContent "a:22" "one" 9), callStep 0 .upload [],
          writeStep 0 (.upsertContent "a:22" "two" 10)] ∧
      ((gistMemories plainCrypto tallyRfc3339 "token" cloud.gist).bind fun m =>
        (m.get "a:22").map MachineMemory.updatedAt) = some 9 ∧
      ((gistMemories plainCrypto tallyRfc3339 "token" (performSshSteps plainCrypto tallyRfc3339 "token" cloud
        [callStep 0 .upload [{}, {}, {}, {}, { edits := [writeMemory (.upsertContent "a:22" "three" 3)] }]]).gist).bind
        fun m => (m.get "a:22").map MachineMemory.updatedAt) = some 3 := by
  refine ⟨⟨_, rfl, ?_, _, rfl, ?_⟩, _, rfl, ?_, ?_⟩
  · decide +kernel
  · decide +kernel
  · decide +kernel
  · decide +kernel

end InfiniShell.Ssh
