import InfiniShell.Sync.VersionDiscipline

namespace InfiniShell.Sync

open Effects Effects.Program Collections

variable {D J P T A : Type}

/-- The part `view` is collected, taken over by `apply_data` and left alone by `reconcile_data`. -/
structure Replacing (view : D → T) (Sane : T → Prop) (content : J → Option T) (token : String)
    (provider : SyncDataProvider D J P) : Prop where
  collect : ∀ x, Sane x → Triple (fun d => view d = x) (provider.collectData token)
    (fun j d => view d = x ∧ content j = some x) (fun _ d => view d = x)
  reconcile : ∀ x j, Triple (fun d => view d = x) (provider.reconcileData token j)
    (fun _ d => view d = x) (fun _ d => view d = x)
  apply : ∀ x j y, content j = some y → Sane y → Triple (fun d => view d = x) (provider.applyData token j)
    (fun _ d => view d = y) (fun _ d => view d = x)

variable {view : D → T} {Sane : T → Prop} {content : J → Option T} {token : String}
  {provider : SyncDataProvider D J P} {v l : Int} {x : T} {g₀ : Option (GistContent J)}

theorem getSyncVersion_calm : Triple (Calm (Still view v x g₀)) (getSyncVersion : Call D J P Int)
    (fun l w => Calm (Still view v x g₀) w ∧ l = v) (fun _ _ => False) := by
  refine Calm.step_triple (Triple.read_bind fun l => ?_)
  refine Triple.bind (Triple.modify (Q := fun _ w => Calm (Still view v x g₀) w ∧ l = v) fun w h => ?_) fun _ =>
    Triple.ret fun _ h => h
  exact ⟨h.1, h.2.symm.trans h.1.2.version⟩

theorem findGist_calm : Triple (Calm (Still view v x g₀)) (findGist : Call D J P Bool)
    (fun found w => Calm (Still view v x g₀) w ∧ found = g₀.isSome) (fun _ _ => False) :=
  Calm.step_triple (Triple.read fun _ h => ⟨h, by rw [h.2.gist]⟩)

theorem getRemoteData_calm (remoteData : SyncData J) :
    Triple (Calm (Still view v x (some (.data remoteData)))) (getRemoteData : Call D J P (SyncData J))
      (fun data w => Calm (Still view v x (some (.data remoteData))) w ∧ data = remoteData)
      (fun _ => Calm (Still view v x (some (.data remoteData)))) := by
  refine Calm.steady.getRemoteData_triple (fun w data h hgist => ⟨h, ?_⟩) fun _ _ h => h
  rw [h.2.gist] at hgist
  simpa using hgist.symm

theorem finish_calm (platform : SyncPlatform) (n : Int) :
    Triple (Calm (Still view l x g₀)) (finish platform l n : Call D J P SyncResult)
      (fun r w => Calm (Still view n x g₀) w ∧ r = .success n platform) (fun _ _ => False) := by
  refine Triple.bind (Q := fun _ => Calm (Still view n x g₀)) (Calm.step_triple (Triple.read_bind fun c => ?_))
    fun _ => Triple.bind (Q := fun _ => Calm (Still view n x g₀)) (Calm.step_triple (Triple.modify fun w h => ?_))
      fun _ => Triple.ret fun _ h => ⟨h, rfl⟩
  · split
    · refine Triple.bind (Triple.modify (Q := fun _ => Calm (Still view n x g₀)) fun w h => ?_) fun _ =>
        Triple.bind (Triple.modify (Q := fun _ => Calm (Still view n x g₀)) fun w h => h) fun _ =>
          Triple.ret fun _ h => h
      exact ⟨h.1.1, rfl, h.1.2.view, h.1.2.gist⟩
    · rename_i hne
      exact fun w h => absurd (h.2.symm.trans h.1.2.version) hne
  · exact ⟨h.1, h.2.version, h.2.view, h.2.gist⟩

/-- Device and gist hold the same part under the same version, which `v` is not above. -/
structure Published (view : D → T) (content : J → Option T) (key : String) (x : T) (n : Int)
    (device : Device D) (g : Option (GistContent J)) : Prop where
  version : device.syncVersion = n
  view : view device.data = x
  gist : gistVersion g = some n
  gistView : gistView content key g = some x

theorem publish_calm (hp : Replacing view Sane content token provider) (hx : Sane x)
    (platform : SyncPlatform) (n : Int) :
    Triple (Calm (Still view l x g₀)) (publish platform token [provider] l n)
      (fun r w => Calm (Published view content provider.sectionKey x n) w ∧ r = .success n platform)
      (fun _ => Calm (Still view l x g₀)) := by
  refine Triple.bind (Q := fun data w => Calm (Still view l x g₀) w ∧ data.version = n ∧
    gistView content provider.sectionKey (some (.data data)) = some x) ?_ fun data =>
      Triple.of_pure fun ⟨hn, hdata⟩ => ?_
  · refine Triple.bind (Q := fun sections w => Calm (Still view l x g₀) w ∧
      gistView content provider.sectionKey (some (.data ⟨n, sections⟩)) = some x) ?_
      fun sections => Triple.ret fun _ h => ⟨h.1, rfl, h.2⟩
    refine Triple.bind (Q := fun j w => Calm (Still view l x g₀) w ∧ content j = some x) ?_
      fun j => Triple.ret fun w ⟨h, hj⟩ => ⟨h, by simp [gistView, BTreeMap.get_insert, hj]⟩
    refine Calm.steady.onData_triple fun w h => ?_
    refine Triple.of_imp (fun d hd => by rw [hd, h.2.view]) (hp.collect x hx) ?_ ?_
    · exact fun j d ⟨hview, hj⟩ => ⟨⟨h.1, h.2.version, hview, h.2.gist⟩, hj⟩
    · exact fun e d hview => ⟨h.1, h.2.version, hview, h.2.gist⟩
  · refine Triple.bind (Q := fun _ => Calm (Still view l x (some (.data data))))
      (Calm.writeGist_triple fun w h => ⟨h.1, h.2.version, h.2.view, rfl⟩) fun _ => ?_
    refine Triple.of_imp (fun _ h => h) (finish_calm platform n) ?_ fun _ _ h => h.elim
    exact fun r w ⟨h, hr⟩ => ⟨⟨h.1, h.2.version, h.2.view, by rw [h.2.gist, ← hn]; rfl, by rw [h.2.gist, hdata]⟩, hr⟩

theorem reconcile_calm (hp : Replacing view Sane content token provider) (remoteData : SyncData J) :
    Triple (Calm (Still view v x g₀)) (reconcileProviderSections token [provider] remoteData)
      (fun _ => Calm (Still view v x g₀)) (fun _ => Calm (Still view v x g₀)) := by
  unfold reconcileProviderSections mergeSections
  split
  · refine Triple.bind (Q := fun _ => Calm (Still view v x g₀)) (Calm.steady.onData_triple fun w h => ?_)
      fun _ => Triple.ret fun _ h => h
    refine Triple.of_imp (fun d hd => by rw [hd, h.2.view]) (hp.reconcile x _) ?_ ?_
    · exact fun _ d hview => ⟨h.1, h.2.version, hview, h.2.gist⟩
    · exact fun _ d hview => ⟨h.1, h.2.version, hview, h.2.gist⟩
  · exact Triple.ret fun _ h => h

variable {y : T}

theorem apply_calm (hp : Replacing view Sane content token provider) (remoteData : SyncData J)
    (hy : gistView content provider.sectionKey (some (.data remoteData)) = some y) (hsane : Sane y) :
    Triple (Calm (Still view v x g₀)) (applyProviderSections token [provider] remoteData)
      (fun _ => Calm (Still view v y g₀)) (fun _ => Calm (Still view v x g₀)) := by
  obtain ⟨j, hj, hcontent⟩ := Option.bind_eq_some_iff.mp hy
  unfold applyProviderSections mergeSections
  rw [hj]
  refine Triple.bind (Q := fun _ => Calm (Still view v y g₀)) (Calm.steady.onData_triple fun w h => ?_)
    fun _ => Triple.ret fun _ h => h
  refine Triple.of_imp (fun d hd => by rw [hd, h.2.view]) (hp.apply x j y hcontent hsane) ?_ ?_
  · exact fun _ d hview => ⟨h.1, h.2.version, hview, h.2.gist⟩
  · exact fun _ d hview => ⟨h.1, h.2.version, hview, h.2.gist⟩

/-- How an upload of a device at version `v`, over a gist at version `m`, can end. -/
inductive UploadEnd (view : D → T) (content : J → Option T) (key : String) (v m : Int) (x : T)
    (g₀ : Option (GistContent J)) (device : Device D) (g : Option (GistContent J)) : SyncResult → Prop
  | conflict (hlt : v < m) (h : Still view v x g₀ device g) (a b : Int) :
      UploadEnd view content key v m x g₀ device g (.conflict a b)
  | untouched (heq : m = v) (h : Still view v x g₀ device g) (result : SyncResult) :
      UploadEnd view content key v m x g₀ device g result
  | published (hle : m ≤ v) (n : Int) (h : Published view content key x n device g) (platform : SyncPlatform) :
      UploadEnd view content key v m x g₀ device g (.success n platform)

theorem upload_calm (hp : Replacing view Sane content token provider) (hx : Sane x)
    (platform : SyncPlatform) (remoteData : SyncData J) :
    Triple (Calm (Still view v x (some (.data remoteData)))) (upload platform token [provider])
      (fun r => Calm fun device g => UploadEnd view content provider.sectionKey v remoteData.version x
        (some (.data remoteData)) device g r)
      (fun _ => Calm (Still view v x (some (.data remoteData)))) := by
  refine Triple.bind (Triple.of_imp (fun _ h => h) getSyncVersion_calm (fun _ _ h => h) fun _ _ h => h.elim)
    fun l => Triple.of_pure fun hl => ?_
  subst hl
  refine Triple.bind (Triple.of_imp (fun _ h => h) findGist_calm (fun _ _ h => h) fun _ _ h => h.elim)
    fun found => Triple.of_pure fun hfound => ?_
  rw [hfound]
  refine Triple.bind (getRemoteData_calm remoteData) fun data => Triple.of_pure fun hdata => ?_
  subst hdata
  split
  · rename_i hlt
    exact Triple.ret fun w h => ⟨h.1, .conflict hlt h.2 _ _⟩
  · rename_i hle
    have hpublish : ∀ n, Triple (Calm (Still view l x (some (.data data))))
        (publish platform token [provider] l n)
        (fun r => Calm fun device g => UploadEnd view content provider.sectionKey l data.version x
          (some (.data data)) device g r) (fun _ => Calm (Still view l x (some (.data data)))) := by
      intro n
      refine Triple.of_imp (fun _ h => h) (publish_calm hp hx platform n) ?_ fun _ _ h => h
      rintro r w ⟨h, rfl⟩
      exact ⟨h.1, .published (not_lt.mp hle) n h.2 platform⟩
    refine Triple.bind (reconcile_calm hp data) fun outcome => ?_
    split
    · rename_i heq
      split
      · exact Triple.bind (Triple.of_imp (fun _ h => h) (Triple.ofResult fun _ h => h) (fun _ _ h => h.1)
          fun _ _ h => h) fun n => hpublish n
      · split
        · refine Triple.bind (Q := fun _ => Calm (Still view l x (some (.data data))))
            (Calm.step_triple (Triple.modify fun w h => ?_)) fun _ =>
              Triple.ret fun w h => ⟨h.1, .untouched heq h.2 _⟩
          exact ⟨h.1, h.2.version, h.2.view, h.2.gist⟩
        · exact Triple.ret fun w h => ⟨h.1, .untouched heq h.2 _⟩
    · exact hpublish l

/-- With nothing changed, the gist's part on the device, or the device's part in the gist. -/
inductive DownloadEnd (view : D → T) (content : J → Option T) (key : String) (v m : Int) (x y : T)
    (g₀ : Option (GistContent J)) (device : Device D) (g : Option (GistContent J)) : SyncResult → Prop
  | untouched (hle : m ≤ v) (h : Still view v x g₀ device g) (result : SyncResult) :
      DownloadEnd view content key v m x y g₀ device g result
  | taken (hlt : v < m) (h : Still view m y g₀ device g) (platform : SyncPlatform) :
      DownloadEnd view content key v m x y g₀ device g (.success m platform)
  | published (z : T) (hz : z = x ∨ z = y) (n : Int) (h : Published view content key z n device g)
      (hlt : m < n) (platform : SyncPlatform) :
      DownloadEnd view content key v m x y g₀ device g (.success n platform)

def DownloadFailed (view : D → T) (v m : Int) (x y : T) (g₀ : Option (GistContent J)) (device : Device D)
    (g : Option (GistContent J)) : Prop :=
  Still view v x g₀ device g ∨ (v < m ∧ Still view v y g₀ device g)

section

variable (hp : Replacing view Sane content token provider)
include hp

theorem downloadPublish_calm {y z : T} (hz : Sane z)
    (hzxy : z = x ∨ z = y) (platform : SyncPlatform) (m : Int) (g₀ : Option (GistContent J)) :
    Triple (Calm (Still view l z g₀))
      (do let version ← ofResult (nextSyncVersion (max l m))
          publish platform token [provider] l version : Call D J P SyncResult)
      (fun r => Calm fun device g => DownloadEnd view content provider.sectionKey l m x y g₀ device g r)
      (fun _ => Calm (Still view l z g₀)) := by
  refine Triple.bind (Triple.ofResult fun _ h => h) fun n => Triple.of_pure fun hn => ?_
  refine Triple.of_imp (fun _ h => h) (publish_calm hp hz platform n) ?_ fun _ _ h => h
  rintro r w ⟨h, rfl⟩
  have hlt : m < n := by
    have hmax := le_max_right l m
    rw [nextSyncVersion_eq hn]
    omega
  exact ⟨h.1, .published z hzxy n h.2 hlt platform⟩

theorem downloadOver_calm (hx : Sane x) (hy : Sane y)
    (platform : SyncPlatform) (remoteData : SyncData J) (hge : l ≤ remoteData.version)
    (hgist : gistView content provider.sectionKey (some (.data remoteData)) = some y) :
    Triple (Calm (Still view l x (some (.data remoteData))))
      (downloadOver platform token [provider] l remoteData)
      (fun r => Calm fun device g => DownloadEnd view content provider.sectionKey l remoteData.version x y
        (some (.data remoteData)) device g r)
      (fun _ => Calm (DownloadFailed view l remoteData.version x y (some (.data remoteData)))) := by
  unfold downloadOver
  by_cases heq : remoteData.version = l
  · -- only the memories are merged: the part stays
    simp only [heq, ↓reduceIte, true_and]
    refine Triple.bind (Q := fun _ => Calm (Still view l x (some (.data remoteData))))
      (Triple.of_imp (fun _ h => h) (reconcile_calm hp remoteData) (fun _ _ h => h)
        fun _ _ h => ⟨h.1, .inl h.2⟩) fun outcome => ?_
    split
    · exact Triple.ret fun w h => ⟨h.1, .untouched le_rfl h.2 _⟩
    · split
      · exact Triple.of_imp (fun _ h => h) (downloadPublish_calm hp hx (.inl rfl) platform l _)
          (fun _ _ h => h) fun _ _ h => ⟨h.1, .inl h.2⟩
      · refine Triple.of_imp (fun _ h => h) (finish_calm platform l) ?_ fun _ _ h => h.elim
        rintro r w ⟨h, rfl⟩
        exact ⟨h.1, .untouched le_rfl h.2 _⟩
  · have hlt : l < remoteData.version := by omega
    simp only [heq, ↓reduceIte, false_and]
    refine Triple.bind (Q := fun _ => Calm (Still view l y (some (.data remoteData))))
      (Triple.of_imp (fun _ h => h) (apply_calm hp remoteData hgist hy) (fun _ _ h => h)
        fun _ _ h => ⟨h.1, .inl h.2⟩) fun outcome => ?_
    split
    · exact Triple.of_imp (fun _ h => h) (downloadPublish_calm hp hy (.inr rfl) platform _ _)
        (fun _ _ h => h) fun _ _ h => ⟨h.1, .inr ⟨hlt, h.2⟩⟩
    · refine Triple.of_imp (fun _ h => h) (finish_calm platform remoteData.version) ?_ fun _ _ h => h.elim
      rintro r w ⟨h, rfl⟩
      exact ⟨h.1, .taken hlt h.2 platform⟩

theorem download_calm (hx : Sane x) (hy : Sane y) (platform : SyncPlatform) (remoteData : SyncData J)
    (hgist : gistView content provider.sectionKey (some (.data remoteData)) = some y) :
    Triple (Calm (Still view v x (some (.data remoteData)))) (download platform token [provider])
      (fun r => Calm fun device g => DownloadEnd view content provider.sectionKey v remoteData.version x y
        (some (.data remoteData)) device g r)
      (fun _ => Calm (DownloadFailed view v remoteData.version x y (some (.data remoteData)))) := by
  refine Triple.bind (Triple.of_imp (fun _ h => h) findGist_calm (fun _ _ h => h) fun _ _ h => h.elim)
    fun found => Triple.of_pure fun hfound => ?_
  rw [hfound]
  refine Triple.bind (Triple.of_imp (fun _ h => h) (getRemoteData_calm remoteData) (fun _ _ h => h)
    fun _ _ h => ⟨h.1, .inl h.2⟩) fun data => Triple.of_pure fun hdata => ?_
  subst hdata
  refine Triple.bind (Triple.of_imp (fun _ h => h) getSyncVersion_calm (fun _ _ h => h) fun _ _ h => h.elim)
    fun l => Triple.of_pure fun hl => ?_
  subst hl
  split
  · rename_i hlt
    exact Triple.ret fun w h => ⟨h.1, .untouched hlt.le h.2 _⟩
  · rename_i hge
    exact downloadOver_calm hp hx hy platform data (not_lt.mp hge) hgist

/-! Runs -/

end

/-- A run so far: the cloud, and which devices know the content of the gist, that is
wrote it or took it over by a download. -/
structure Tracked (D J : Type) where
  cloud : Cloud D J
  knows : Nat → Prop

/-- A download that put the content of a newer gist on a device at version `v`. -/
def TookOver (op : Operation) (v : Int) (g : Option (GistContent J)) :
    Except (SyncEngineError P) SyncResult → Prop
  | .ok (.success _ _) => op = .download ∧ ∃ m, gistVersion g = some m ∧ v < m
  | _ => False

def Cloud.result (token : String) (cloud : Cloud D J) (s : SyncStep D J P) (device : Nat) (op : Operation)
    (events : List (Event D)) : Except (SyncEngineError P) SyncResult :=
  (op.run s.platform token [s.provider] (cloud.world device events)).1

def Tracked.step (token : String) (t : Tracked D J) (s : SyncStep D J P) : Tracked D J where
  cloud := t.cloud.performStep token s
  knows := match s.action with
    | .edit _ _ => t.knows
    | .call device op events => fun d =>
      ((t.cloud.performStep token s).gist = t.cloud.gist ∧ t.knows d) ∨
      (d = device ∧ ((t.cloud.performStep token s).gist ≠ t.cloud.gist ∨
        TookOver op (t.cloud.devices device).syncVersion t.cloud.gist
          (t.cloud.result token s device op events)))

/-- A device that uploads knows the content of the gist or is behind it. -/
def Tracked.Covers (t : Tracked D J) (s : SyncStep D J P) : Prop :=
  ∀ device events, s.action = .call device .upload events → ¬t.knows device →
    ∃ m, gistVersion t.cloud.gist = some m ∧ (t.cloud.devices device).syncVersion < m

/-- An upload leaves the part of its device in the gist and writes over nothing it did not know. -/
def Tracked.LosesNothing (view : D → T) (content : J → Option T) (key token : String) (t : Tracked D J)
    (s : SyncStep D J P) : Prop :=
  ∀ device events, s.action = .call device .upload events →
    (∀ n platform, t.cloud.result token s device .upload events = .ok (.success n platform) →
      gistView content key (t.step token s).cloud.gist = some (view ((t.step token s).cloud.devices device).data) ∧
      ((t.step token s).cloud.gist ≠ t.cloud.gist → t.knows device)) ∧
    (∀ n, t.cloud.result token s device .upload events = .ok (.alreadyUpToDate n) →
      gistView content key (t.step token s).cloud.gist = some (view ((t.step token s).cloud.devices device).data))

/-- `holds` is true of every step of a run, in the state it is taken in. -/
def Tracked.Throughout (token : String) (holds : Tracked D J → SyncStep D J P → Prop) :
    Tracked D J → List (SyncStep D J P) → Prop
  | _, [] => True
  | t, s :: steps => holds t s ∧ Throughout token holds (t.step token s) steps

/-- A local edit, an upload or a download that runs to its end undisturbed. -/
def SyncStep.Plain (view : D → T) (Sane : T → Prop) (content : J → Option T) (token key : String)
    (s : SyncStep D J P) : Prop :=
  Replacing view Sane content token s.provider ∧ s.provider.sectionKey = key ∧
  match s.action with
  | .edit _ change => ∀ d, Sane (view d) → Sane (view (change d))
  | .call _ op events => op ≠ .forceUpload ∧ events = []

/-- A device that knows the content of the gist holds it under the version of the gist,
or has local edits that put it ahead. -/
structure Tracked.Coherent (view : D → T) (Sane : T → Prop) (content : J → Option T) (key : String)
    (t : Tracked D J) (data : SyncData J) (y : T) : Prop where
  gist : t.cloud.gist = some (.data data)
  content : gistView content key (some (.data data)) = some y
  sane : Sane y
  devices : ∀ d, Sane (view (t.cloud.devices d).data)
  known : ∀ d, t.knows d →
    ((t.cloud.devices d).syncVersion = data.version ∧ view (t.cloud.devices d).data = y) ∨
    data.version < (t.cloud.devices d).syncVersion

variable {t : Tracked D J} {key : String} {data : SyncData J} {y : T} {s : SyncStep D J P}

variable {g : Option (GistContent J)} {n : Int}

theorem gistVersion_eq_some (h : gistVersion g = some n) :
    ∃ data, g = some (.data data) ∧ data.version = n := by
  unfold gistVersion at h
  split at h
  · exact ⟨_, rfl, by simpa using h⟩
  · simp at h

theorem Tracked.Coherent.gistVersion (h : t.Coherent view Sane content key data y) :
    gistVersion t.cloud.gist = some data.version := by
  rw [h.gist]
  rfl

variable {device : Nat} {op : Operation} {events : List (Event D)} {w : SyncWorld D J}

theorem Tracked.Coherent.call (h : t.Coherent view Sane content key data y) (haction : s.action = .call device op events)
    (hw : t.cloud.performStep token s = t.cloud.settle device w) {data' : SyncData J} {y' : T}
    (hgist : w.gist = some (.data data')) (hcontent : gistView content key (some (.data data')) = some y')
    (hy' : Sane y') (hsane : Sane (view w.device.data))
    (hknown : (t.step token s).knows device →
      (w.device.syncVersion = data'.version ∧ view w.device.data = y') ∨
        data'.version < w.device.syncVersion) :
    (t.step token s).Coherent view Sane content key data' y' := by
  have hcloud : (t.step token s).cloud = t.cloud.settle device w := hw
  refine ⟨by rw [hcloud]; exact hgist, hcontent, hy', fun d => ?_, fun d hd => ?_⟩
  · rw [hcloud]
    by_cases hdev : d = device
    · subst hdev
      rw [Cloud.settle_self]
      exact hsane
    · rw [Cloud.settle_of_ne _ _ hdev]
      exact h.devices d
  · by_cases hdev : d = device
    · subst hdev
      rw [hcloud, Cloud.settle_self]
      exact hknown hd
    · rw [hcloud, Cloud.settle_of_ne _ _ hdev]
      simp only [Tracked.step, haction, hdev, false_and, or_false] at hd
      have hsame : w.gist = t.cloud.gist := by
        rw [← hd.1, hw, Cloud.settle_gist]
      rw [hgist, h.gist] at hsame
      cases hsame
      have hyy : y' = y := by simpa [h.content] using hcontent.symm
      rw [hyy]
      exact h.known d hd.2

theorem Cloud.performStep_call {cloud : Cloud D J} (haction : s.action = .call device op events) :
    cloud.performStep token s =
      cloud.settle device (op.run s.platform token [s.provider] (cloud.world device events)).2 := by
  simp only [Cloud.performStep, Cloud.perform, haction]

section

variable (h : t.Coherent view Sane content key data y)
include h

theorem Tracked.Coherent.still (haction : s.action = .call device op events)
    (hw : t.cloud.performStep token s = t.cloud.settle device w) (hx : Sane x)
    (hstill : Still view (t.cloud.devices device).syncVersion x (some (.data data)) w.device w.gist)
    (hview : t.knows device → ¬(t.cloud.devices device).syncVersion < data.version →
      x = view (t.cloud.devices device).data)
    (htook : ¬TookOver op (t.cloud.devices device).syncVersion t.cloud.gist
      (t.cloud.result token s device op events)) :
    (t.step token s).Coherent view Sane content key data y := by
  refine h.call haction hw hstill.gist h.content h.sane (hstill.view ▸ hx) fun hknows => ?_
  have hgist : (t.cloud.performStep token s).gist = t.cloud.gist := by
    rw [hw, Cloud.settle_gist, hstill.gist, h.gist]
  have hknows' : t.knows device := by simpa [Tracked.step, haction, hgist, htook] using hknows
  rw [hstill.version, hstill.view]
  obtain ⟨hv, hy⟩ | hlt := h.known device hknows'
  · rw [hview hknows' (by omega)]
    exact .inl ⟨hv, hy⟩
  · exact .inr hlt

theorem Tracked.Coherent.published (haction : s.action = .call device op events)
    (hw : t.cloud.performStep token s = t.cloud.settle device w) (hx : Sane x)
    (hpublished : Published view content key x n w.device w.gist) :
    ∃ data' y', (t.step token s).Coherent view Sane content key data' y' := by
  obtain ⟨data', hgist, hn⟩ := gistVersion_eq_some hpublished.gist
  refine ⟨data', x, h.call haction hw hgist (hgist ▸ hpublished.gistView) hx (hpublished.view ▸ hx) fun _ => ?_⟩
  exact .inl ⟨by rw [hpublished.version, hn], hpublished.view⟩

theorem Tracked.Coherent.edit {change : D → D}
    (haction : s.action = .edit device change) (hchange : ∀ d, Sane (view d) → Sane (view (change d))) :
    (t.step token s).Coherent view Sane content key data y := by
  have hcloud : (t.step token s).cloud =
      t.cloud.settle device ((t.cloud.world device []).edit change) := by
    simp only [Tracked.step, Cloud.performStep, Cloud.perform, haction]
  have hedit := (t.cloud.world device []).edit_device change
  have hknows : (t.step token s).knows = t.knows := by simp only [Tracked.step, haction]
  refine ⟨?_, h.content, h.sane, fun d => ?_, fun d hd => ?_⟩
  · rw [hcloud, Cloud.settle_gist, SyncWorld.edit_gist]
    exact h.gist
  · rw [hcloud]
    by_cases hdev : d = device
    · subst hdev
      rw [Cloud.settle_self]
      obtain ⟨-, hdata⟩ | ⟨-, hdata⟩ := hedit
      · rw [hdata]
        exact hchange _ (h.devices d)
      · rw [hdata]
        exact h.devices d
    · rw [Cloud.settle_of_ne _ _ hdev]
      exact h.devices d
  · rw [hknows] at hd
    have hold := h.known d hd
    rw [hcloud]
    by_cases hdev : d = device
    · subst hdev
      rw [Cloud.settle_self]
      obtain ⟨hv, hdata⟩ | ⟨hv, hdata⟩ := hedit
      · -- the edit puts the device ahead of the gist
        rw [hv]
        obtain ⟨heq, -⟩ | hlt := hold
        · exact .inr (by simp only [Cloud.world]; omega)
        · exact .inr (by simp only [Cloud.world]; omega)
      · rw [hv, hdata]
        exact hold
    · rw [Cloud.settle_of_ne _ _ hdev]
      exact hold

end

theorem not_tookOver_upload (r : Except (SyncEngineError P) SyncResult) : ¬TookOver .upload v g r := by
  unfold TookOver
  split <;> simp

variable (h : t.Coherent view Sane content key data y)
include h

theorem Tracked.Coherent.upload
    (hp : Replacing view Sane content token s.provider) (hkey : s.provider.sectionKey = key)
    (haction : s.action = .call device .upload []) (hcovers : t.Covers s) :
    t.LosesNothing view content key token s ∧
      ∃ data' y', (t.step token s).Coherent view Sane content key data' y' := by
  have hknows : data.version ≤ (t.cloud.devices device).syncVersion → t.knows device := by
    intro hle
    by_contra hnot
    obtain ⟨m, hm, hlt⟩ := hcovers device [] haction hnot
    rw [h.gistVersion, Option.some.injEq] at hm
    omega
  have hw : t.cloud.performStep token s = t.cloud.settle device
      (Operation.upload.run s.platform token [s.provider] (t.cloud.world device [])).2 :=
    Cloud.performStep_call haction
  have hrun := upload_calm (v := (t.cloud.devices device).syncVersion) hp (h.devices device) s.platform data (t.cloud.world device [])
    ⟨rfl, rfl, rfl, h.gist⟩
  rw [hkey] at hrun
  have htook : ¬TookOver .upload (t.cloud.devices device).syncVersion t.cloud.gist
      (t.cloud.result token s device .upload []) := not_tookOver_upload _
  cases hr : Operation.upload.run s.platform token [s.provider] (t.cloud.world device []) with
  | mk r w =>
    rw [hr] at hw
    have hresult : t.cloud.result token s device .upload [] = r := by rw [Cloud.result, hr]
    have hnext : (t.step token s).cloud = t.cloud.settle device w := hw
    cases r with
    | error e =>
      refine ⟨fun device' events' haction' => ?_, data, y, h.still haction hw (h.devices device)
        (hrun.2 e w hr).2 (fun _ _ => rfl) htook⟩
      obtain ⟨rfl, -, rfl⟩ := by simpa [haction] using haction'
      simp [hresult]
    | ok result =>
      obtain ⟨-, hend⟩ := hrun.1 result w hr
      refine ⟨fun device' events' haction' => ?_, ?_⟩
      · obtain ⟨rfl, rfl⟩ : device = device' ∧ [] = events' := by simpa [haction] using haction'
        rw [hnext, Cloud.settle_self, Cloud.settle_gist]
        have hagree : ∀ r', result = r' → (∀ a b, r' ≠ .conflict a b) →
            gistView content key w.gist = some (view w.device.data) := by
          rintro r' rfl hne
          cases hend with
          | conflict hlt hstill a b => exact absurd rfl (hne a b)
          | untouched heq hstill =>
            obtain ⟨-, hy⟩ | hlt := h.known device (hknows heq.le)
            · rw [hstill.gist, hstill.view, hy, h.content]
            · omega
          | published hle n hpublished platform => rw [hpublished.gistView, hpublished.view]
        refine ⟨fun n platform hsuccess => ?_, fun n hupToDate => ?_⟩
        · rw [hresult, Except.ok.injEq] at hsuccess
          refine ⟨hagree _ hsuccess (by simp), fun hne => ?_⟩
          cases hend with
          | conflict hlt hstill a b => simp at hsuccess
          | untouched heq hstill => exact absurd (hstill.gist.trans h.gist.symm) hne
          | published hle n hpublished platform => exact hknows hle
        · rw [hresult, Except.ok.injEq] at hupToDate
          exact hagree _ hupToDate (by simp)
      · cases hend with
        | conflict hlt hstill a b =>
          exact ⟨data, y, h.still haction hw (h.devices device) hstill (fun _ _ => rfl) htook⟩
        | untouched heq hstill =>
          exact ⟨data, y, h.still haction hw (h.devices device) hstill (fun _ _ => rfl) htook⟩
        | published hle n hpublished platform => exact h.published haction hw (h.devices device) hpublished

theorem Tracked.Coherent.download
    (hp : Replacing view Sane content token s.provider) (hkey : s.provider.sectionKey = key)
    (haction : s.action = .call device .download []) :
    ∃ data' y', (t.step token s).Coherent view Sane content key data' y' := by
  have hw : t.cloud.performStep token s = t.cloud.settle device
      (Operation.download.run s.platform token [s.provider] (t.cloud.world device [])).2 :=
    Cloud.performStep_call haction
  have hrun := download_calm (v := (t.cloud.devices device).syncVersion) hp (h.devices device) h.sane s.platform data (hkey ▸ h.content)
    (t.cloud.world device []) ⟨rfl, rfl, rfl, h.gist⟩
  rw [hkey] at hrun
  cases hr : Operation.download.run s.platform token [s.provider] (t.cloud.world device []) with
  | mk r w =>
    rw [hr] at hw
    have hresult : t.cloud.result token s device .download [] = r := by rw [Cloud.result, hr]
    cases r with
    | error e =>
      have htook : ¬TookOver .download (t.cloud.devices device).syncVersion t.cloud.gist
          (t.cloud.result token s device .download []) := by simp [hresult, TookOver]
      obtain ⟨-, hstill | ⟨hlt, hstill⟩⟩ := hrun.2 e w hr
      · exact ⟨data, y, h.still haction hw (h.devices device) hstill (fun _ _ => rfl) htook⟩
      · exact ⟨data, y, h.still haction hw h.sane hstill (fun _ hnot => absurd hlt hnot) htook⟩
    | ok result =>
      obtain ⟨-, hend⟩ := hrun.1 result w hr
      cases hend with
      | untouched hle hstill =>
        have htook : ¬TookOver .download (t.cloud.devices device).syncVersion t.cloud.gist
            (t.cloud.result token s device .download []) := by
          rw [hresult]
          unfold TookOver
          split
          · rintro ⟨-, m, hm, hlt⟩
            rw [h.gistVersion, Option.some.injEq] at hm
            omega
          · exact id
        exact ⟨data, y, h.still haction hw (h.devices device) hstill (fun _ _ => rfl) htook⟩
      | taken hlt hstill platform =>
        refine ⟨data, y, h.call haction hw hstill.gist h.content h.sane (hstill.view ▸ h.sane) fun _ => ?_⟩
        exact .inl ⟨hstill.version, hstill.view⟩
      | published z hz n hpublished hlt platform =>
        have hsane : Sane z := by
          rcases hz with rfl | rfl
          · exact h.devices device
          · exact h.sane
        exact h.published haction hw hsane hpublished

theorem Tracked.Coherent.step (hs : s.Plain view Sane content token key) (hcovers : t.Covers s) :
    t.LosesNothing view content key token s ∧
      ∃ data' y', (t.step token s).Coherent view Sane content key data' y' := by
  obtain ⟨hp, hkey, hplain⟩ := hs
  cases haction : s.action with
  | edit device change =>
    rw [haction] at hplain
    exact ⟨fun _ _ h' => by simp [haction] at h', data, y, h.edit haction hplain⟩
  | call device op events =>
    rw [haction] at hplain
    obtain ⟨hop, rfl⟩ := hplain
    cases op with
    | upload => exact h.upload hp hkey haction hcovers
    | download =>
      exact ⟨fun _ _ h' => by simp [haction] at h', h.download hp hkey haction⟩
    | forceUpload => exact absurd rfl hop

theorem Tracked.Coherent.run {steps : List (SyncStep D J P)}
    (hplain : ∀ s ∈ steps, s.Plain view Sane content token key)
    (hcovers : Tracked.Throughout token (fun t s => t.Covers s) t steps) :
    Tracked.Throughout token (fun t s => t.LosesNothing view content key token s) t steps := by
  induction steps generalizing t data y with
  | nil => trivial
  | cons s steps ih =>
    obtain ⟨hloses, data', y', h'⟩ := h.step (hplain s (by simp)) hcovers.1
    exact ⟨hloses, ih h' (fun s' hs' => hplain s' (by simp [hs'])) hcovers.2⟩

end InfiniShell.Sync
