import InfiniShell.Sync.Engine
import Mathlib.Order.Lattice

namespace InfiniShell.Sync

open Effects Effects.Program Collections

variable {D J P M : Type} [SemilatticeSup M]

/-- A readable content stays readable and does not go down. -/
def Rises (g₀ g : Option M) : Prop := ∀ r₀, g₀ = some r₀ → ∃ r, g = some r ∧ r₀ ≤ r

theorem Rises.refl (g : Option M) : Rises g g := fun r h => ⟨r, h, le_refl r⟩

/-- The part `view` in a join semilattice: what is collected holds it, what is taken over is joined to it. -/
structure Merging (view : D → M) (Sane : M → Prop) (content : J → Option M) (token : String)
    (provider : SyncDataProvider D J P) : Prop where
  content_sane : ∀ j r, content j = some r → Sane r
  sup_sane : ∀ m r, Sane m → Sane r → Sane (m ⊔ r)
  collect : ∀ m, Sane m → Triple (fun d => view d = m) (provider.collectData token)
    (fun j d => view d = m ∧ content j = some m) (fun _ d => view d = m)
  reconcile : ∀ m j, Sane m → Triple (fun d => view d = m) (provider.reconcileData token j)
    (fun outcome d => ∃ r, content j = some r ∧ view d = m ⊔ r ∧
      (outcome.localChanged ↔ m ⊔ r ≠ m) ∧ (outcome.needsUpload ↔ m ⊔ r ≠ r)) (fun _ d => view d = m)
  apply : ∀ m j, Sane m → Triple (fun d => view d = m) (provider.applyData token j)
    (fun outcome d => ∃ r, content j = some r ∧ view d = m ⊔ r ∧
      (outcome.localChanged ↔ m ⊔ r ≠ m) ∧ (outcome.needsUpload ↔ m ⊔ r ≠ r)) (fun _ d => view d = m)

variable {view : D → M} {Sane : M → Prop} {content : J → Option M} {token : String}
  {provider : SyncDataProvider D J P}

def RisingEdit (view : D → M) (Sane : M → Prop) (change : D → D) : Prop :=
  ∀ d, Sane (view d) → Sane (view (change d)) ∧ view d ≤ view (change d)

/-- The part of the device is above `m` and the gist is still `g₀`. -/
structure Above (view : D → M) (Sane : M → Prop) (m : M) (g₀ : Option (GistContent J))
    (device : Device D) (g : Option (GistContent J)) : Prop where
  sane : Sane (view device.data)
  le : m ≤ view device.data
  gist : g = g₀

/-- Neither the part of the device nor the gist has gone down. -/
structure Risen (view : D → M) (Sane : M → Prop) (content : J → Option M) (key : String) (m : M)
    (g₀ : Option (GistContent J)) (device : Device D) (g : Option (GistContent J)) : Prop where
  sane : Sane (view device.data)
  le : m ≤ view device.data
  rises : Rises (gistView content key g₀) (gistView content key g)

variable {key : String} {m : M} {g₀ g : Option (GistContent J)} {device : Device D}

theorem Above.risen (h : Above view Sane m g₀ device g) : Risen view Sane content key m g₀ device g :=
  ⟨h.sane, h.le, h.gist ▸ Rises.refl _⟩

variable {m n : M}

theorem Risen.of_le (h : Risen view Sane content key n g₀ device g) (hle : m ≤ n) :
    Risen view Sane content key m g₀ device g :=
  ⟨h.sane, hle.trans h.le, h.rises⟩

abbrev Before (view : D → M) (Sane : M → Prop) (m : M) (g₀ : Option (GistContent J)) :
    SyncWorld D J → Prop :=
  During (RisingEdit view Sane) (Above view Sane m g₀)

abbrev After (view : D → M) (Sane : M → Prop) (content : J → Option M) (key : String) (m : M)
    (g₀ : Option (GistContent J)) : SyncWorld D J → Prop :=
  During (RisingEdit view Sane) (Risen view Sane content key m g₀)

theorem Before.steady (m : M) (g₀ : Option (GistContent J)) : Steady (Before view Sane m g₀) := by
  apply During.steady
  intro change hc device g version h
  obtain ⟨hsane, hle⟩ := hc device.data h.sane
  exact ⟨hsane, h.le.trans hle, h.gist⟩

theorem After.steady (key : String) (m : M) (g₀ : Option (GistContent J)) :
    Steady (After view Sane content key m g₀) := by
  apply During.steady
  intro change hc device g version h
  obtain ⟨hsane, hle⟩ := hc device.data h.sane
  exact ⟨hsane, h.le.trans hle, h.rises⟩

variable {g₀ : Option (GistContent J)} {w : SyncWorld D J}

theorem Before.after (h : Before view Sane n g₀ w) (hle : m ≤ n) : After view Sane content key m g₀ w :=
  ⟨h.1, h.2.risen.of_le hle⟩

theorem getSyncVersion_rises (m : M) (g₀ : Option (GistContent J)) {R : SyncEngineError P → SyncWorld D J → Prop}
    (hfail : ∀ e w, Before view Sane m g₀ w → R e w) :
    Triple (Before view Sane m g₀) (getSyncVersion : Call D J P Int) (fun _ => Before view Sane m g₀) R := by
  refine (Before.steady m g₀).step_triple (Triple.read_bind fun l => ?_) hfail
  refine Triple.bind (Triple.modify (Q := fun _ => Before view Sane m g₀) fun w h => h.1) fun _ => ?_
  exact Triple.ret fun _ h => h

theorem commitSyncVersion_rises (key : String) (m : M) (g₀ : Option (GistContent J)) (l n : Int) :
    Triple (After view Sane content key m g₀) (commitSyncVersion l n : Call D J P Int)
      (fun _ => After view Sane content key m g₀) (fun _ => After view Sane content key m g₀) := by
  have hset : ∀ version, Triple (After view Sane content key m g₀)
      (do setSyncVersion version
          Program.modify (SyncWorld.record (.committed version))
          pure version : Call D J P Int)
      (fun _ => After view Sane content key m g₀) (fun _ => After view Sane content key m g₀) := by
    intro version
    refine Triple.bind (Triple.modify (Q := fun _ => After view Sane content key m g₀) fun w h => ?_)
      fun _ => Triple.bind (Triple.modify (Q := fun _ => After view Sane content key m g₀) fun w h => h)
        fun _ => Triple.ret fun _ h => h
    exact ⟨h.1, h.2.sane, h.2.le, h.2.rises⟩
  refine (After.steady key m g₀).step_triple (Triple.read_bind fun current => ?_) fun _ _ h => h
  have hset' := fun version => Triple.of_imp (fun w (h : After view Sane content key m g₀ w ∧
    w.device.syncVersion = current) => h.1) (hset version) (fun _ _ h => h) fun _ _ h => h
  split
  · exact hset' n
  · split
    · exact hset' _
    · exact Triple.fail fun _ h => h.1

theorem finish_rises (platform : SyncPlatform) (key : String) (m : M) (g₀ : Option (GistContent J))
    (l n : Int) :
    Triple (After view Sane content key m g₀) (finish platform l n : Call D J P SyncResult)
      (fun _ => After view Sane content key m g₀) (fun _ => After view Sane content key m g₀) := by
  refine Triple.bind (commitSyncVersion_rises key m g₀ l n) fun _ => ?_
  refine Triple.bind (Q := fun _ => After view Sane content key m g₀) ?_ fun _ => Triple.ret fun _ h => h
  refine (After.steady key m g₀).step_triple (Triple.modify fun w h => ?_) fun _ _ h => h
  exact ⟨h.1, h.2.sane, h.2.le, h.2.rises⟩

variable {run : SyncDataProvider D J P → J → Program D (SyncEngineError P) ApplyDataOutcome}

theorem mergeSections_rises (hp : Merging view Sane content token provider)
    (hrun : ∀ m j, Sane m → Triple (fun d => view d = m) (run provider j)
      (fun outcome d => ∃ r, content j = some r ∧ view d = m ⊔ r ∧
        (outcome.localChanged ↔ m ⊔ r ≠ m) ∧ (outcome.needsUpload ↔ m ⊔ r ≠ r)) (fun _ d => view d = m))
    (m : M) (remoteData : SyncData J) (outcome : ApplyDataOutcome) :
    Triple (Before view Sane m (some (.data remoteData))) (mergeSections run remoteData outcome [provider])
      (fun _ w => ∃ n, m ≤ n ∧ Before view Sane n (some (.data remoteData)) w ∧
        ∀ r, gistView content provider.sectionKey (some (.data remoteData)) = some r → r ≤ n)
      (fun _ => Before view Sane m (some (.data remoteData))) := by
  unfold mergeSections
  cases hj : remoteData.sections.get provider.sectionKey with
  | none =>
    refine Triple.ret fun w h => ⟨m, le_refl m, h, fun r hr => ?_⟩
    simp [gistView, hj] at hr
  | some j =>
    refine Triple.bind (Q := fun _ w => ∃ n, m ≤ n ∧ Before view Sane n (some (.data remoteData)) w ∧
      ∀ r, gistView content provider.sectionKey (some (.data remoteData)) = some r → r ≤ n)
      ((Before.steady m _).onData_triple fun w h => ?_) fun _ => Triple.ret fun _ h => h
    refine Triple.of_imp (fun d hd => by rw [hd]) (hrun (view w.device.data) j h.2.sane) ?_ ?_
    · rintro other d ⟨r, hr, hview, -⟩
      have hsane : Sane (view d) := by
        rw [hview]
        exact hp.sup_sane _ _ h.2.sane (hp.content_sane j r hr)
      have hle : view w.device.data ≤ view d := by
        rw [hview]
        exact le_sup_left
      refine ⟨view d, h.2.le.trans hle, ⟨h.1, hsane, le_refl _, h.2.gist⟩, fun r' hr' => ?_⟩
      have hrr : r = r' := by simpa [gistView, hj, hr] using hr'
      rw [hview, ← hrr]
      exact le_sup_right
    · intro e d hd
      exact ⟨h.1, by rw [SyncWorld.withData, hd]; exact h.2.sane, by rw [SyncWorld.withData, hd]; exact h.2.le,
        h.2.gist⟩

theorem publish_rises (hp : Merging view Sane content token provider) (platform : SyncPlatform) (m : M)
    (g₀ : Option (GistContent J)) (l n : Int)
    (hm : ∀ r, gistView content provider.sectionKey g₀ = some r → r ≤ m) :
    Triple (Before view Sane m g₀) (publish platform token [provider] l n)
      (fun _ => After view Sane content provider.sectionKey m g₀)
      (fun _ => After view Sane content provider.sectionKey m g₀) := by
  refine Triple.bind (Q := fun data w => Before view Sane m g₀ w ∧
    ∃ r, gistView content provider.sectionKey (some (.data data)) = some r ∧ m ≤ r) ?_ fun data =>
      Triple.of_pure fun ⟨r, hr, hle⟩ => ?_
  · refine Triple.bind (Q := fun sections w => Before view Sane m g₀ w ∧
      ∃ r, gistView content provider.sectionKey (some (.data ⟨n, sections⟩)) = some r ∧ m ≤ r) ?_
      fun sections => Triple.ret fun _ h => h
    refine Triple.bind (Q := fun j w => Before view Sane m g₀ w ∧ ∃ r, content j = some r ∧ m ≤ r) ?_
      fun j => Triple.ret fun w ⟨h, r, hj, hle⟩ => ⟨h, r, ?_, hle⟩
    · refine (Before.steady m g₀).onData_triple fun w h => ?_
      refine Triple.of_imp (fun d hd => by rw [hd]) (hp.collect (view w.device.data) h.2.sane) ?_ ?_
      · rintro j d ⟨hview, hj⟩
        exact ⟨⟨h.1, hview ▸ h.2.sane, hview ▸ h.2.le, h.2.gist⟩, _, hj, h.2.le⟩
      · intro e d hview
        exact Before.after ⟨h.1, hview ▸ h.2.sane, hview ▸ h.2.le, h.2.gist⟩ (le_refl m)
    · simp [gistView, BTreeMap.get_insert, hj]
  · have hput : ∀ w : SyncWorld D J, Before view Sane m g₀ w →
        After view Sane content provider.sectionKey m g₀ (w.putGist data) := by
      intro w h
      exact ⟨h.1, h.2.sane, h.2.le, fun r₀ hr₀ => ⟨r, hr, (hm r₀ hr₀).trans hle⟩⟩
    refine Triple.bind (Q := fun _ => After view Sane content provider.sectionKey m g₀)
      ((Before.steady m g₀).writeGist_triple hput (fun _ _ h => h.after (le_refl m))
        fun _ w h => hput w h) fun _ => ?_
    exact finish_rises platform provider.sectionKey m g₀ l n

theorem merged_rises {A : Type} {p : Call D J P A}
    (hp : ∀ n, (∀ r, gistView content key g₀ = some r → r ≤ n) →
      Triple (Before view Sane n g₀) p (fun _ => After view Sane content key n g₀)
        (fun _ => After view Sane content key n g₀)) :
    Triple (fun w => ∃ n, m ≤ n ∧ Before view Sane n g₀ w ∧ ∀ r, gistView content key g₀ = some r → r ≤ n)
      p (fun _ => After view Sane content key m g₀) (fun _ => After view Sane content key m g₀) := by
  rintro w ⟨n, hle, h, hr⟩
  refine Triple.of_imp (fun _ h => h) (hp n hr) ?_ ?_ w h
  · exact fun _ w' h' => ⟨h'.1, h'.2.of_le hle⟩
  · exact fun _ w' h' => ⟨h'.1, h'.2.of_le hle⟩

theorem uploadOver_rises (hp : Merging view Sane content token provider) (platform : SyncPlatform) (m : M)
    (l : Int) (remoteData : SyncData J) :
    Triple (Before view Sane m (some (.data remoteData))) (uploadOver platform token [provider] l remoteData)
      (fun _ => After view Sane content provider.sectionKey m (some (.data remoteData)))
      (fun _ => After view Sane content provider.sectionKey m (some (.data remoteData))) := by
  refine Triple.bind (Triple.of_imp (fun _ h => h) (mergeSections_rises hp hp.reconcile m remoteData {})
    (fun _ _ h => h) fun _ _ h => h.after (le_refl m)) fun outcome => merged_rises fun n hn => ?_
  have hkeep : ∀ result, Triple (Before view Sane n (some (.data remoteData)))
      (pure result : Call D J P SyncResult)
      (fun _ => After view Sane content provider.sectionKey n (some (.data remoteData)))
      (fun _ => After view Sane content provider.sectionKey n (some (.data remoteData))) :=
    fun result => Triple.ret fun _ h => h.after (le_refl n)
  split
  · split
    · refine Triple.bind (Triple.ofResult fun _ h => h.after (le_refl n)) fun version => ?_
      exact Triple.of_pure fun _ => publish_rises hp platform n _ l version hn
    · split
      · refine Triple.bind ((Before.steady n _).step_triple (Triple.modify fun w h => ?_)
          fun _ _ h => h.after (le_refl n)) fun _ => hkeep _
        exact ⟨h.1, h.2.sane, h.2.le, h.2.gist⟩
      · exact hkeep _
  · exact publish_rises hp platform n _ l l hn

theorem getRemoteData_rises (key : String) (m : M) (g₀ : Option (GistContent J)) :
    Triple (Before view Sane m g₀) (getRemoteData : Call D J P (SyncData J))
      (fun data w => Before view Sane m g₀ w ∧ g₀ = some (.data data))
      (fun _ => After view Sane content key m g₀) :=
  (Before.steady m g₀).getRemoteData_triple (fun _ _ h hgist => ⟨h, by rw [← h.2.gist, hgist]⟩)
    fun _ _ h => h.after (le_refl m)

theorem findGist_rises (key : String) (m : M) (g₀ : Option (GistContent J)) :
    Triple (Before view Sane m g₀) (findGist : Call D J P Bool)
      (fun found w => Before view Sane m g₀ w ∧ found = g₀.isSome)
      (fun _ => After view Sane content key m g₀) :=
  Triple.of_imp (fun _ h => h) ((Before.steady m g₀).findGist_triple fun _ _ h => h.after (le_refl m))
    (fun _ _ h => ⟨h.1, by rw [h.2, h.1.2.gist]⟩) fun _ _ h => h

section

variable (hp : Merging view Sane content token provider)
include hp

section

variable (platform : SyncPlatform)
include platform

theorem upload_rises (m : M) (g₀ : Option (GistContent J)) :
    Triple (Before view Sane m g₀) (upload platform token [provider])
      (fun _ => After view Sane content provider.sectionKey m g₀)
      (fun _ => After view Sane content provider.sectionKey m g₀) := by
  refine Triple.bind (getSyncVersion_rises m g₀ fun _ _ h => h.after (le_refl m)) fun l => ?_
  refine Triple.bind (findGist_rises provider.sectionKey m g₀) fun found => Triple.of_pure fun hfound => ?_
  split
  · refine Triple.bind (getRemoteData_rises provider.sectionKey m g₀) fun remoteData =>
      Triple.of_pure fun hg₀ => ?_
    subst hg₀
    split
    · exact Triple.ret fun _ h => h.after (le_refl m)
    · exact uploadOver_rises hp platform m l remoteData
  · rename_i hnone
    have hg₀ : g₀ = none := by simpa [hfound] using hnone
    exact publish_rises hp platform m g₀ l l (by simp [hg₀, gistView])

theorem downloadOver_rises (m : M) (l : Int) (remoteData : SyncData J) :
    Triple (Before view Sane m (some (.data remoteData))) (downloadOver platform token [provider] l remoteData)
      (fun _ => After view Sane content provider.sectionKey m (some (.data remoteData)))
      (fun _ => After view Sane content provider.sectionKey m (some (.data remoteData))) := by
  refine Triple.bind (Q := fun _ w => ∃ n, m ≤ n ∧ Before view Sane n (some (.data remoteData)) w ∧
    ∀ r, gistView content provider.sectionKey (some (.data remoteData)) = some r → r ≤ n) ?_
    fun outcome => merged_rises fun n hn => ?_
  · split
    · exact Triple.of_imp (fun _ h => h) (mergeSections_rises hp hp.reconcile m remoteData {})
        (fun _ _ h => h) fun _ _ h => h.after (le_refl m)
    · exact Triple.of_imp (fun _ h => h) (mergeSections_rises hp hp.apply m remoteData {})
        (fun _ _ h => h) fun _ _ h => h.after (le_refl m)
  · split
    · exact Triple.ret fun _ h => h.after (le_refl n)
    · split
      · refine Triple.bind (Triple.ofResult fun _ h => h.after (le_refl n)) fun version => ?_
        exact Triple.of_pure fun _ => publish_rises hp platform n _ l version hn
      · exact Triple.of_imp (fun _ h => h.after (le_refl n)) (finish_rises platform provider.sectionKey n _ l _)
          (fun _ _ h => h) fun _ _ h => h

theorem download_rises (m : M) (g₀ : Option (GistContent J)) :
    Triple (Before view Sane m g₀) (download platform token [provider])
      (fun _ => After view Sane content provider.sectionKey m g₀)
      (fun _ => After view Sane content provider.sectionKey m g₀) := by
  refine Triple.bind (findGist_rises provider.sectionKey m g₀) fun found => Triple.of_pure fun hfound => ?_
  split
  · refine Triple.bind (getRemoteData_rises provider.sectionKey m g₀) fun remoteData =>
      Triple.of_pure fun hg₀ => ?_
    subst hg₀
    refine Triple.bind (getSyncVersion_rises m _ fun _ _ h => h.after (le_refl m)) fun l => ?_
    split
    · exact Triple.ret fun _ h => h.after (le_refl m)
    · exact downloadOver_rises hp platform m l remoteData
  · exact Triple.fail fun _ h => h.after (le_refl m)

theorem forceUpload_rises (m : M) (g₀ : Option (GistContent J)) :
    Triple (Before view Sane m g₀) (forceUpload platform token [provider])
      (fun _ => After view Sane content provider.sectionKey m g₀)
      (fun _ => After view Sane content provider.sectionKey m g₀) := by
  refine Triple.bind (getSyncVersion_rises m g₀ fun _ _ h => h.after (le_refl m)) fun l => ?_
  refine Triple.bind (findGist_rises provider.sectionKey m g₀) fun found => Triple.of_pure fun hfound => ?_
  split
  · refine Triple.bind (getRemoteData_rises provider.sectionKey m g₀) fun remoteData =>
      Triple.of_pure fun hg₀ => ?_
    subst hg₀
    refine Triple.bind (Triple.of_imp (fun _ h => h) (mergeSections_rises hp hp.reconcile m remoteData {})
      (fun _ _ h => h) fun _ _ h => h.after (le_refl m)) fun outcome => merged_rises fun n hn => ?_
    refine Triple.bind (Triple.ofResult fun _ h => h.after (le_refl n)) fun version => ?_
    exact Triple.of_pure fun _ => publish_rises hp platform n _ l version hn
  · rename_i hnone
    have hg₀ : g₀ = none := by simpa [hfound] using hnone
    refine Triple.bind (Triple.ofResult fun _ h => h.after (le_refl m)) fun version => ?_
    exact Triple.of_pure fun _ => publish_rises hp platform m g₀ l version (by simp [hg₀, gistView])

end

theorem run_rises (op : Operation) (platform : SyncPlatform) (m : M) (g₀ : Option (GistContent J)) :
    Triple (Before view Sane m g₀) (op.run platform token [provider])
      (fun _ => After view Sane content provider.sectionKey m g₀)
      (fun _ => After view Sane content provider.sectionKey m g₀) := by
  cases op with
  | upload => exact upload_rises hp platform m g₀
  | download => exact download_rises hp platform m g₀
  | forceUpload => exact forceUpload_rises hp platform m g₀

/-! Calls that find nothing to do -/

end

/-- `Still`, with no local edit to come during the call. -/
abbrev Quiet (view : D → M) (v : Int) (m : M) (g₀ : Option (GistContent J)) : SyncWorld D J → Prop :=
  During (fun _ => False) (Still view v m g₀)

omit [SemilatticeSup M] in
theorem Quiet.steady (v : Int) (m : M) (g₀ : Option (GistContent J)) : Steady (Quiet view v m g₀) :=
  During.steady fun _ hc => hc.elim

def Agreed (view : D → M) (content : J → Option M) (key : String) (v : Int) (m : M)
    (g₀ : Option (GistContent J)) (result : SyncResult) (w : SyncWorld D J) : Prop :=
  result = .alreadyUpToDate v → Quiet view v m g₀ w ∧ gistView content key g₀ = some m

omit [SemilatticeSup M] in
theorem agreed_of_success {v n : Int} {platform : SyncPlatform} :
    Agreed view content key v m g₀ (.success n platform) w := nofun

omit [SemilatticeSup M] in
theorem getSyncVersion_quiet (v : Int) (m : M) (g₀ : Option (GistContent J)) :
    Triple (Quiet view v m g₀) (getSyncVersion : Call D J P Int)
      (fun l w => Quiet view v m g₀ w ∧ l = v) (fun _ _ => True) := by
  refine (Quiet.steady v m g₀).step_triple (Triple.read_bind fun l => ?_) fun _ _ _ => trivial
  refine Triple.bind (Triple.modify (Q := fun _ w => Quiet view v m g₀ w ∧ l = v) fun w h => ?_) fun _ =>
    Triple.ret fun _ h => h
  exact ⟨h.1, h.2.symm.trans h.1.2.version⟩

omit [SemilatticeSup M] in
theorem finish_agreed (platform : SyncPlatform) (key : String) (v l n : Int) (m : M)
    (g₀ : Option (GistContent J)) (I : SyncWorld D J → Prop) :
    Triple I (finish platform l n : Call D J P SyncResult) (Agreed view content key v m g₀)
      (fun _ _ => True) := by
  exact Triple.bind (Triple.any _) fun _ => Triple.bind (Triple.any _) fun _ => Triple.ret fun _ _ => agreed_of_success

omit [SemilatticeSup M] in
theorem publish_agreed (platform : SyncPlatform) (key : String) (v l n : Int) (m : M)
    (g₀ : Option (GistContent J)) (I : SyncWorld D J → Prop) :
    Triple I (publish platform token [provider] l n) (Agreed view content key v m g₀)
      (fun _ _ => True) := by
  exact Triple.bind (Triple.any _) fun _ => Triple.bind (Triple.any _) fun _ => finish_agreed platform key v l n m g₀ _

theorem mergeSections_quiet (hrun : ∀ m j, Sane m → Triple (fun d => view d = m) (run provider j)
      (fun outcome d => ∃ r, content j = some r ∧ view d = m ⊔ r ∧
        (outcome.localChanged ↔ m ⊔ r ≠ m) ∧ (outcome.needsUpload ↔ m ⊔ r ≠ r)) (fun _ d => view d = m))
    (v : Int) (m : M) (hm : Sane m) (remoteData : SyncData J) :
    Triple (Quiet view v m (some (.data remoteData))) (mergeSections run remoteData {} [provider])
      (fun outcome w => outcome.localChanged = false → outcome.needsUpload = false →
        Quiet view v m (some (.data remoteData)) w ∧
        gistView content provider.sectionKey (some (.data remoteData)) = some m) (fun _ _ => True) := by
  unfold mergeSections
  cases hj : remoteData.sections.get provider.sectionKey with
  | none => exact Triple.ret fun _ _ _ h => by simp at h
  | some j =>
    refine Triple.bind (Q := fun (other : ApplyDataOutcome) w => other.localChanged = false →
      other.needsUpload = false → Quiet view v m (some (.data remoteData)) w ∧
      gistView content provider.sectionKey (some (.data remoteData)) = some m)
      ((Quiet.steady v m _).onData_triple fun w h => ?_) fun other => Triple.ret fun w h => ?_
    · refine Triple.of_imp (fun d hd => by rw [hd, h.2.view]) (hrun m j hm) ?_ fun _ _ _ => trivial
      rintro other d ⟨r, hr, hview, hlocal, hneeds⟩ hl hn
      have hsupm : m ⊔ r = m := by simpa [hl] using hlocal
      have hsupr : m ⊔ r = r := by simpa [hn] using hneeds
      refine ⟨⟨h.1, h.2.version, ?_, h.2.gist⟩, ?_⟩
      · rw [SyncWorld.withData, hview, hsupm]
      · rw [← hsupm, hsupr]
        simpa [gistView, hj] using hr
    · simpa [ApplyDataOutcome.merge] using h

theorem upload_agreed (hp : Merging view Sane content token provider) (platform : SyncPlatform) (v : Int)
    (m : M) (hm : Sane m) (g₀ : Option (GistContent J)) :
    Triple (Quiet view v m g₀) (upload platform token [provider])
      (Agreed view content provider.sectionKey v m g₀) (fun _ _ => True) := by
  refine Triple.bind (getSyncVersion_quiet v m g₀) fun l => Triple.of_pure fun hl => ?_
  subst hl
  refine Triple.bind (Triple.of_imp (fun _ h => h) ((Quiet.steady l m g₀).findGist_triple
    fun _ _ _ => trivial) (fun _ _ h => h.1) fun _ _ h => h) fun found => ?_
  split
  · refine Triple.bind ((Quiet.steady l m g₀).getRemoteData_triple (Q := fun data w =>
      Quiet view l m g₀ w ∧ g₀ = some (.data data))
      (fun _ _ h hgist => ⟨h, by rw [← h.2.gist, hgist]⟩) fun _ _ _ => trivial) fun remoteData =>
        Triple.of_pure fun hg₀ => ?_
    subst hg₀
    split
    · exact Triple.ret fun _ _ h => by simp at h
    · refine Triple.bind (mergeSections_quiet hp.reconcile l m hm remoteData) fun outcome => ?_
      split
      · split
        · refine Triple.bind (Triple.ofResult fun _ _ => trivial) fun version => ?_
          exact publish_agreed platform _ l l version m _ _
        · rename_i hneeds
          split
          · exact Triple.bind (Triple.any _) fun _ => Triple.ret fun _ _ => agreed_of_success
          · rename_i hlocal
            exact Triple.ret fun w h _ => h (by simpa using hlocal) (by simpa using hneeds)
      · exact publish_agreed platform _ l l l m _ _
  · exact publish_agreed platform _ l l l m _ _

theorem download_agreed (hp : Merging view Sane content token provider) (platform : SyncPlatform) (v : Int)
    (m : M) (hm : Sane m) (g₀ : Option (GistContent J)) :
    Triple (Quiet view v m g₀) (download platform token [provider])
      (Agreed view content provider.sectionKey v m g₀) (fun _ _ => True) := by
  refine Triple.bind (Triple.of_imp (fun _ h => h) ((Quiet.steady v m g₀).findGist_triple
    fun _ _ _ => trivial) (fun _ _ h => h.1) fun _ _ h => h) fun found => ?_
  split
  · refine Triple.bind ((Quiet.steady v m g₀).getRemoteData_triple (Q := fun data w =>
      Quiet view v m g₀ w ∧ g₀ = some (.data data))
      (fun _ _ h hgist => ⟨h, by rw [← h.2.gist, hgist]⟩) fun _ _ _ => trivial) fun remoteData =>
        Triple.of_pure fun hg₀ => ?_
    subst hg₀
    refine Triple.bind (getSyncVersion_quiet v m _) fun l => Triple.of_pure fun hl => ?_
    subst hl
    split
    · -- the gist is older: the version reported is not that of the device
      rename_i hlt
      refine Triple.ret fun _ _ h => ?_
      simp only [SyncResult.alreadyUpToDate.injEq] at h
      omega
    · refine Triple.bind (Q := fun (outcome : ApplyDataOutcome) w => outcome.localChanged = false →
        outcome.needsUpload = false → Quiet view l m (some (.data remoteData)) w ∧
        gistView content provider.sectionKey (some (.data remoteData)) = some m) ?_ fun outcome => ?_
      · split
        · exact mergeSections_quiet hp.reconcile l m hm remoteData
        · exact mergeSections_quiet hp.apply l m hm remoteData
      · split
        · rename_i hflags
          exact Triple.ret fun w h _ => h (by simpa using hflags.2.1) (by simpa using hflags.2.2)
        · split
          · refine Triple.bind (Triple.ofResult fun _ _ => trivial) fun version => ?_
            exact publish_agreed platform _ l l version m _ _
          · exact finish_agreed platform _ l l _ m _ _
  · exact Triple.fail fun _ _ => trivial

omit [SemilatticeSup M] in
theorem forceUpload_agreed (platform : SyncPlatform) (key : String) (v : Int) (m : M)
    (g₀ : Option (GistContent J)) (I : SyncWorld D J → Prop) :
    Triple I (forceUpload platform token [provider]) (Agreed view content key v m g₀) (fun _ _ => True) := by
  refine Triple.bind (Triple.any _) fun l => Triple.bind (Triple.any _) fun found => ?_
  split
  · refine Triple.bind (Triple.any _) fun _ => Triple.bind (Triple.any _) fun _ => Triple.bind (Triple.any _) fun version => ?_
    exact publish_agreed platform key v l version m g₀ _
  · exact Triple.bind (Triple.any _) fun version => publish_agreed platform key v l version m g₀ _

theorem run_agreed (hp : Merging view Sane content token provider) (op : Operation) (platform : SyncPlatform)
    (v : Int) (m : M) (hm : Sane m) (g₀ : Option (GistContent J)) :
    Triple (Quiet view v m g₀) (op.run platform token [provider])
      (Agreed view content provider.sectionKey v m g₀) (fun _ _ => True) := by
  cases op with
  | upload => exact upload_agreed hp platform v m hm g₀
  | download => exact download_agreed hp platform v m hm g₀
  | forceUpload => exact forceUpload_agreed platform _ v m g₀ _

/-! Runs of several devices -/

/-- Local edits keep the part sane. During a call they also let it go up only. -/
def EditsFit (view : D → M) (Sane : M → Prop) : Action D → Prop
  | .edit _ change => ∀ d, Sane (view d) → Sane (view (change d))
  | .call _ _ events => ∀ event ∈ events, ∀ change ∈ event.edits, RisingEdit view Sane change

structure SyncStep.Merges (view : D → M) (Sane : M → Prop) (content : J → Option M) (token key : String)
    (s : SyncStep D J P) : Prop where
  merging : Merging view Sane content token s.provider
  key : s.provider.sectionKey = key

structure SyncStep.Fits (view : D → M) (Sane : M → Prop) (content : J → Option M) (token key : String)
    (s : SyncStep D J P) : Prop extends s.Merges view Sane content token key where
  edits : EditsFit view Sane s.action

structure Cloud.Rises (view : D → M) (content : J → Option M) (key : String) (before after : Cloud D J) :
    Prop where
  devices : ∀ d, view (before.devices d).data ≤ view (after.devices d).data
  gist : Sync.Rises (gistView content key before.gist) (gistView content key after.gist)

def Cloud.AllSane (view : D → M) (Sane : M → Prop) (cloud : Cloud D J) : Prop :=
  ∀ d, Sane (view (cloud.devices d).data)

variable {key : String} {cloud : Cloud D J}

variable {s : SyncStep D J P} {device : Nat} {op : Operation} {events : List (Event D)}

section

variable (hsane : cloud.AllSane view Sane)
include hsane

theorem Cloud.AllSane.call (hs : s.Fits view Sane content token key)
    (haction : s.action = .call device op events) :
    After view Sane content key (view (cloud.devices device).data) cloud.gist
      (op.run s.platform token [s.provider] (cloud.world device events)).2 := by
  have hfit := hs.edits
  rw [haction] at hfit
  have hrun := run_rises hs.merging op s.platform (view (cloud.devices device).data) cloud.gist
    (cloud.world device events) ⟨hfit, hsane device, le_refl _, rfl⟩
  rw [hs.key] at hrun
  cases hr : op.run s.platform token [s.provider] (cloud.world device events) with
  | mk r w =>
    cases r with
    | ok a => exact hrun.1 a w hr
    | error e => exact hrun.2 e w hr

theorem Cloud.AllSane.performStep
    (hs : s.Fits view Sane content token key) : (cloud.performStep token s).AllSane view Sane := by
  intro d
  cases haction : s.action with
  | edit device change =>
    have hfit := hs.edits
    rw [haction] at hfit
    simp only [Cloud.performStep, Cloud.perform, haction]
    by_cases hd : d = device
    · subst hd
      rw [Cloud.settle_self]
      obtain ⟨-, h⟩ | ⟨-, h⟩ := (cloud.world d []).edit_device change
      · rw [h]
        exact hfit _ (hsane d)
      · rw [h]
        exact hsane d
    · rw [Cloud.settle_of_ne _ _ hd]
      exact hsane d
  | call device op events =>
    have hafter := hsane.call hs haction
    simp only [Cloud.performStep, Cloud.perform, haction]
    by_cases hd : d = device
    · subst hd
      rw [Cloud.settle_self]
      exact hafter.2.sane
    · rw [Cloud.settle_of_ne _ _ hd]
      exact hsane d

theorem Cloud.AllSane.performSteps {steps : List (SyncStep D J P)}
    (hsteps : ∀ s ∈ steps, s.Fits view Sane content token key) :
    (cloud.performSteps token steps).AllSane view Sane := by
  induction steps generalizing cloud with
  | nil => exact hsane
  | cons s steps ih =>
    exact ih (hsane.performStep (hsteps s (by simp))) fun s' hs' => hsteps s' (by simp [hs'])

theorem Cloud.AllSane.rises (hs : s.Fits view Sane content token key)
    (haction : s.action = .call device op events) :
    cloud.Rises view content key (cloud.performStep token s) := by
  have hafter := hsane.call hs haction
  simp only [Cloud.performStep, Cloud.perform, haction]
  refine ⟨fun d => ?_, hafter.2.rises⟩
  by_cases hd : d = device
  · subst hd
    rw [Cloud.settle_self]
    exact hafter.2.le
  · rw [Cloud.settle_of_ne _ _ hd]

end

/-- A call without local edits that returned `AlreadyUpToDate` at the version of its device. -/
def UpToDate (token : String) (cloud : Cloud D J) (s : SyncStep D J P) (device : Nat) : Prop :=
  ∃ op events, s.action = .call device op events ∧ (∀ event ∈ events, event.edits = []) ∧
    (op.run s.platform token [s.provider] (cloud.world device events)).1 =
      .ok (.alreadyUpToDate (cloud.devices device).syncVersion)

/-- A round: each step is such a call, of one of the devices after the other. -/
def Round (token : String) : Cloud D J → List (SyncStep D J P × Nat) → Prop
  | _, [] => True
  | cloud, (s, device) :: rest =>
    UpToDate token cloud s device ∧ Round token (cloud.performStep token s) rest

theorem UpToDate.agrees (hsane : cloud.AllSane view Sane)
    (hs : s.Merges view Sane content token key) (h : UpToDate token cloud s device) :
    (cloud.performStep token s).gist = cloud.gist ∧
    (∀ d, view ((cloud.performStep token s).devices d).data = view (cloud.devices d).data) ∧
    gistView content key cloud.gist = some (view (cloud.devices device).data) := by
  obtain ⟨op, events, haction, hevents, hresult⟩ := h
  obtain ⟨w, hrun⟩ : ∃ w, op.run s.platform token [s.provider] (cloud.world device events) =
      (.ok (.alreadyUpToDate (cloud.devices device).syncVersion), w) := ⟨_, Prod.ext hresult rfl⟩
  have hagreed := (run_agreed hs.merging op s.platform (cloud.devices device).syncVersion
    (view (cloud.devices device).data) (hsane device) cloud.gist (cloud.world device events)
    ⟨fun event he change hc => by simp [hevents event he] at hc, rfl, rfl, rfl⟩).1 _ w hrun rfl
  rw [hs.key] at hagreed
  have hstep : cloud.performStep token s = cloud.settle device w := by
    simp only [Cloud.performStep, Cloud.perform, haction, hrun]
  rw [hstep]
  refine ⟨hagreed.1.2.gist, fun d => ?_, hagreed.2⟩
  by_cases hd : d = device
  · subst hd
    rw [Cloud.settle_self]
    exact hagreed.1.2.view
  · rw [Cloud.settle_of_ne _ _ hd]

theorem Round.converged {steps : List (SyncStep D J P × Nat)} (hsane : cloud.AllSane view Sane)
    (hsteps : ∀ s ∈ steps, s.1.Merges view Sane content token key) (h : Round token cloud steps) :
    (cloud.performSteps token (steps.map Prod.fst)).gist = cloud.gist ∧
    (∀ d, view ((cloud.performSteps token (steps.map Prod.fst)).devices d).data = view (cloud.devices d).data) ∧
    ∀ s ∈ steps, gistView content key cloud.gist = some (view (cloud.devices s.2).data) := by
  induction steps generalizing cloud with
  | nil => exact ⟨rfl, fun _ => rfl, by simp⟩
  | cons s steps ih =>
    obtain ⟨hgist, hdevices, hview⟩ := UpToDate.agrees hsane (hsteps s (by simp)) h.1
    have hsane' : (cloud.performStep token s.1).AllSane view Sane := fun d => by
      rw [hdevices d]
      exact hsane d
    obtain ⟨hgist', hdevices', hview'⟩ := ih hsane' (fun s' hs' => hsteps s' (by simp [hs'])) h.2
    refine ⟨hgist'.trans hgist, fun d => (hdevices' d).trans (hdevices d), fun s' hs' => ?_⟩
    rcases List.mem_cons.mp hs' with rfl | hs'
    · exact hview
    · rw [← hdevices, ← hgist]
      exact hview' s' hs'

end InfiniShell.Sync
