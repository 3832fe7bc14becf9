import InfiniShell.Sync.Engine

namespace InfiniShell.Sync

open Effects Effects.Program

variable {D J P A : Type}

/-- The versions that local edits handed out since the call read the counter. -/
def handedOut : List Trace → List Int
  | [] => []
  | .versionRead _ :: _ => []
  | .edited version :: t => version :: handedOut t
  | _ :: t => handedOut t

def handedOutBeforeCommit : List Trace → List Int
  | [] => []
  | .versionRead _ :: _ => []
  | .committed _ :: t => handedOut t
  | _ :: t => handedOutBeforeCommit t

/-- The version of the gist content last written or read. -/
def lastGist : List Trace → Option Int
  | [] => none
  | .gistRead version :: _ => some version
  | .gistWritten version :: _ => some version
  | _ :: t => lastGist t

def editCount : List Trace → Nat
  | [] => 0
  | .edited _ :: t => editCount t + 1
  | _ :: t => editCount t

def Committed (t : List Trace) : Prop := ∃ version, .committed version ∈ t

def Written (t : List Trace) : Prop := ∃ version, .gistWritten version ∈ t

def gistVersion : Option (GistContent J) → Option Int
  | some (.data data) => some data.version
  | _ => none

/-- The version of gist `g` is not below that of `g₀`. -/
def NeverLower (g₀ g : Option (GistContent J)) : Prop :=
  ∀ v₀, gistVersion g₀ = some v₀ → ∃ v, gistVersion g = some v ∧ v₀ ≤ v

/-- Only local edits have changed the counter since it was `v₀`. -/
def Untouched (v₀ v : Int) (t : List Trace) : Prop := v = v₀ + editCount t

/-- The counter `v` after a call that brought device and gist to version `n`. -/
structure Synced (n v : Int) (t : List Trace) : Prop where
  clean : handedOut t = [] → v = n
  dirty : handedOut t ≠ [] → n < v
  bound : ∀ e ∈ handedOut t, e ≤ v
  strict : ∀ e ∈ handedOutBeforeCommit t, e < v

abbrev Condition (J : Type) := Int → Option (GistContent J) → List Trace → Prop

def Condition.Holds (I : Condition J) (w : SyncWorld D J) : Prop := I w.device.syncVersion w.gist w.trace

def Condition.Stable (I : Condition J) : Prop :=
  ∀ v g t, I v g t → I (v + 1) g (.edited (v + 1) :: t)

theorem checkedSucc_eq_some {v v' : Int} (h : checkedSucc v = some v') : v' = v + 1 := by
  unfold checkedSucc at h
  split at h
  · simp at h
  · simpa using h.symm

variable {I : Condition J}

theorem edit_holds (hI : I.Stable) (w : SyncWorld D J) (change : D → D)
    (h : I.Holds w) : I.Holds (w.edit change) := by
  unfold SyncWorld.edit
  cases hv : checkedSucc w.device.syncVersion with
  | none => exact h
  | some version =>
    rw [checkedSucc_eq_some hv]
    exact hI _ _ _ h

theorem Condition.Stable.steady (hI : I.Stable) : Steady (fun w : SyncWorld D J => I.Holds w) := by
  intro w h
  unfold SyncWorld.arrive
  split
  · exact h
  · rename_i event events _
    have hfold : ∀ (edits : List (D → D)) (w' : SyncWorld D J), I.Holds w' →
        I.Holds (edits.foldl SyncWorld.edit w') := by
      intro edits
      induction edits with
      | nil => exact fun _ h => h
      | cons change edits ih => exact fun w' h => ih _ (edit_holds hI w' change h)
    exact hfold event.edits _ h

theorem onData_triple (hI : I.Stable) (p : Program D (SyncEngineError P) A) :
    Triple I.Holds (onData p : Call D J P A) (fun _ => I.Holds) (fun _ => I.Holds) :=
  hI.steady.onData_triple fun _ hw _ _ => ⟨fun _ _ _ => hw, fun _ _ _ => hw⟩

theorem collectSections_triple (hI : I.Stable) (token : String)
    (providers : List (SyncDataProvider D J P)) (sections : Collections.BTreeMap String J) :
    Triple I.Holds (collectSections token sections providers : Call D J P _) (fun _ => I.Holds)
      (fun _ => I.Holds) := by
  induction providers generalizing sections with
  | nil => exact Triple.ret fun _ h => h
  | cons provider providers ih => exact Triple.bind (onData_triple hI _) fun _ => ih _

theorem mergeSections_triple (hI : I.Stable)
    (run : SyncDataProvider D J P → J → Program D (SyncEngineError P) ApplyDataOutcome)
    (remoteData : SyncData J) (outcome : ApplyDataOutcome) (providers : List (SyncDataProvider D J P)) :
    Triple I.Holds (mergeSections run remoteData outcome providers) (fun _ => I.Holds)
      (fun _ => I.Holds) := by
  induction providers generalizing outcome with
  | nil => exact Triple.ret fun _ h => h
  | cons provider providers ih =>
    unfold mergeSections
    split
    · exact Triple.bind (onData_triple hI _) fun _ => ih _
    · exact ih _

/-- Nothing has been written or committed yet. -/
structure Started (v₀ : Int) (g₀ : Option (GistContent J)) (v : Int) (g : Option (GistContent J))
    (t : List Trace) : Prop where
  uncommitted : ¬Committed t
  untouched : Untouched v₀ v t
  gist : g = g₀

/-- The counter was read as `l`. -/
structure Reading (v₀ : Int) (g₀ : Option (GistContent J)) (l v : Int) (g : Option (GistContent J))
    (t : List Trace) : Prop extends Started v₀ g₀ v g t where
  since : v = l + (handedOut t).length
  bound : ∀ e ∈ handedOut t, e ≤ v

/-- What holds of every failed call. `writes` is set where a commit follows a gist write. -/
structure Failed (writes : Prop) (v₀ : Int) (g₀ : Option (GistContent J)) (v : Int)
    (g : Option (GistContent J)) (t : List Trace) : Prop where
  untouched : ¬Committed t → Untouched v₀ v t
  writeFirst : writes → Committed t → Written t
  neverLower : NeverLower g₀ g

/-- Device and gist are about to be recorded as being at version `n`. -/
structure Ready (writes : Prop) (v₀ : Int) (g₀ : Option (GistContent J)) (l n v : Int)
    (g : Option (GistContent J)) (t : List Trace) : Prop where
  reading : Reading v₀ g l v g t
  lastGist : lastGist t = some n
  written : writes → Written t
  neverLower : NeverLower g₀ g

structure Done (n : Int) (g₀ : Option (GistContent J)) (v : Int) (g : Option (GistContent J))
    (t : List Trace) : Prop where
  synced : Synced n v t
  lastGist : lastGist t = some n
  neverLower : NeverLower g₀ g

theorem NeverLower.refl (g : Option (GistContent J)) : NeverLower g g := fun v hv => ⟨v, hv, le_refl v⟩

theorem Started.stable (v₀ : Int) (g₀ : Option (GistContent J)) : Condition.Stable (Started v₀ g₀) := by
  intro v g t h
  refine ⟨fun hc => h.uncommitted ?_, ?_, h.gist⟩
  · simpa [Committed] using hc
  · have hv := h.untouched
    simp only [Untouched, editCount] at hv ⊢
    omega

theorem Reading.stable (v₀ : Int) (g₀ : Option (GistContent J)) (l : Int) :
    Condition.Stable (Reading v₀ g₀ l) := by
  intro v g t h
  refine ⟨Started.stable v₀ g₀ v g t h.toStarted, ?_, ?_⟩
  · have hv := h.since
    simp only [handedOut, List.length_cons]
    omega
  · intro e he
    rcases List.mem_cons.mp he with rfl | he
    · exact le_refl _
    · have hb := h.bound e he
      omega

theorem Ready.stable (writes : Prop) (v₀ : Int) (g₀ : Option (GistContent J)) (l n : Int) :
    Condition.Stable (Ready writes v₀ g₀ l n) := by
  intro v g t h
  refine ⟨Reading.stable v₀ g l v g t h.reading, h.lastGist, fun hw => ?_, h.neverLower⟩
  simpa [Written] using h.written hw

variable {t : List Trace}

theorem Synced.edited {n v : Int} (h : Synced n v t) : Synced n (v + 1) (.edited (v + 1) :: t) := by
  have hn : n ≤ v := by
    by_cases ht : handedOut t = []
    · exact (h.clean ht).ge
    · exact (h.dirty ht).le
  refine ⟨fun ht => by simp [handedOut] at ht, fun _ => by omega, fun e he => ?_, fun e he => ?_⟩
  · rcases List.mem_cons.mp he with rfl | he
    · exact le_refl _
    · have hb := h.bound e he
      omega
  · have hs := h.strict e he
    omega

theorem Done.stable (n : Int) (g₀ : Option (GistContent J)) : Condition.Stable (Done n g₀) :=
  fun _ _ _ h => ⟨h.synced.edited, h.lastGist, h.neverLower⟩

theorem handedOutBeforeCommit_eq_nil (h : ¬Committed t) : handedOutBeforeCommit t = [] := by
  induction t with
  | nil => rfl
  | cons entry t ih =>
    have ht : ¬Committed t := fun ⟨c, hc⟩ => h ⟨c, by simp [hc]⟩
    cases entry with
    | committed c => exact absurd ⟨c, by simp⟩ h
    | versionRead v => rfl
    | edited v => exact ih ht
    | gistRead v => exact ih ht
    | gistWritten v => exact ih ht

variable {g₀ g : Option (GistContent J)}

theorem Reading.synced {v₀ l v : Int} (h : Reading v₀ g₀ l v g t) : Synced l v t := by
  have hv := h.since
  refine ⟨fun ht => by simp [hv, ht], fun ht => ?_, h.bound, ?_⟩
  · have hpos := List.length_pos_of_ne_nil ht
    omega
  · simp [handedOutBeforeCommit_eq_nil h.uncommitted]

variable {writes : Prop} {v₀ l n v : Int}

theorem Ready.failed (h : Ready writes v₀ g₀ l n v g t) : Failed writes v₀ g₀ v g t :=
  ⟨fun _ => h.reading.untouched, fun hw _ => h.written hw, h.neverLower⟩

theorem Started.failed (h : Started v₀ g₀ v g t) : Failed writes v₀ g₀ v g t :=
  ⟨fun _ => h.untouched, fun _ hc => absurd hc h.uncommitted, h.gist ▸ NeverLower.refl g⟩

/-- The state after a commit, to version `n` or above. -/
structure Settled (writes : Prop) (n : Int) (g₀ : Option (GistContent J)) (v : Int)
    (g : Option (GistContent J)) (t : List Trace) : Prop extends Done n g₀ v g t where
  committed : Committed t
  written : writes → Written t

theorem Settled.stable (writes : Prop) (n : Int) (g₀ : Option (GistContent J)) :
    Condition.Stable (Settled writes n g₀) := by
  intro v g t h
  refine ⟨Done.stable n g₀ v g t h.toDone, ?_, fun hw => ?_⟩
  · simpa [Committed] using h.committed
  · simpa [Written] using h.written hw

theorem Settled.failed (h : Settled writes n g₀ v g t) : Failed writes v₀ g₀ v g t :=
  ⟨fun hc => absurd h.committed hc, fun hw _ => h.written hw, h.neverLower⟩

theorem commitSyncVersion_triple (writes : Prop) (v₀ l n : Int) (g₀ : Option (GistContent J)) :
    Triple (Condition.Holds (Ready writes v₀ g₀ l n)) (commitSyncVersion l n : Call D J P Int)
      (fun _ => Condition.Holds (Settled writes n g₀))
      (fun _ => Condition.Holds (Failed writes v₀ g₀)) := by
  refine (Ready.stable writes v₀ g₀ l n).steady.step_triple ?_ fun _ _ h => h.failed
  refine Triple.read_bind fun currentVersion => ?_
  split
  · rename_i hcur
    subst hcur
    refine Triple.bind (Triple.modify (Q := fun _ w => handedOut w.trace = [] ∧
      w.device.syncVersion = n ∧ lastGist w.trace = some n ∧ (writes → Written w.trace) ∧
      NeverLower g₀ w.gist) ?_) fun _ => Triple.bind (Triple.modify (Q := fun _ =>
        Condition.Holds (Settled writes n g₀)) ?_) fun _ => Triple.ret fun _ h => h
    · rintro w ⟨h, hv⟩
      have hsince := h.reading.since
      have hlen : (handedOut w.trace).length = 0 := by omega
      refine ⟨List.length_eq_zero_iff.mp hlen, rfl, h.lastGist, h.written, h.neverLower⟩
    · rintro w ⟨ht, hv, hlast, hw, hn⟩
      refine ⟨⟨⟨fun _ => hv, fun h => absurd ht h, ?_, ?_⟩, hlast, hn⟩, ⟨n, by simp [SyncWorld.record]⟩, fun h => ?_⟩
      · simp [SyncWorld.record, handedOut, ht]
      · simp [SyncWorld.record, handedOutBeforeCommit, ht]
      · obtain ⟨m, hm⟩ := hw h
        exact ⟨m, by simp [SyncWorld.record, hm]⟩
  · rename_i hcur
    split
    · rename_i c hc
      rw [checkedSucc_eq_some hc]
      refine Triple.bind (Triple.modify (Q := fun _ w => handedOut w.trace ≠ [] ∧
        (∀ e ∈ handedOut w.trace, e ≤ currentVersion) ∧
        w.device.syncVersion = max currentVersion n + 1 ∧ lastGist w.trace = some n ∧
        (writes → Written w.trace) ∧ NeverLower g₀ w.gist) ?_) fun _ =>
          Triple.bind (Triple.modify (Q := fun _ => Condition.Holds (Settled writes n g₀)) ?_)
            fun _ => Triple.ret fun _ h => h
      · rintro w ⟨h, rfl⟩
        have hsince := h.reading.since
        refine ⟨fun ht => hcur ?_, h.reading.bound, rfl, h.lastGist, h.written, h.neverLower⟩
        rw [hsince, ht]
        simp
      · rintro w ⟨ht, hb, hv, hlast, hw, hn⟩
        have hmax : max currentVersion n = currentVersion ∨ max currentVersion n = n := max_choice _ _
        have hle := le_max_left currentVersion n
        have hle' := le_max_right currentVersion n
        refine ⟨⟨⟨fun h => absurd h ht, fun _ => ?_, fun e he => ?_, fun e he => ?_⟩, hlast, hn⟩,
          ⟨max currentVersion n + 1, by simp [SyncWorld.record]⟩, fun h => ?_⟩
        · simp only [SyncWorld.record, hv]
          omega
        · have := hb e he
          simp only [SyncWorld.record, hv]
          omega
        · have := hb e he
          simp only [SyncWorld.record, hv]
          omega
        · obtain ⟨m, hm⟩ := hw h
          exact ⟨m, by simp [SyncWorld.record, hm]⟩
    · exact Triple.fail fun _ h => h.1.failed

theorem Failed.of_writes (h : Failed True v₀ g₀ v g t) : Failed writes v₀ g₀ v g t :=
  ⟨h.untouched, fun _ => h.writeFirst trivial, h.neverLower⟩

def Returned (v₀ : Int) (g₀ : Option (GistContent J)) : SyncResult → Condition J
  | .success n _ => Done n g₀
  | .conflict _ _ => Started v₀ g₀
  | .alreadyUpToDate _ => Started v₀ g₀

theorem finish_triple (writes : Prop) (platform : SyncPlatform) (v₀ l n : Int)
    (g₀ : Option (GistContent J)) :
    Triple (Condition.Holds (Ready writes v₀ g₀ l n)) (finish platform l n : Call D J P SyncResult)
      (fun r => Condition.Holds (Returned v₀ g₀ r)) (fun _ => Condition.Holds (Failed writes v₀ g₀)) := by
  refine Triple.bind (commitSyncVersion_triple writes v₀ l n g₀) fun _ => ?_
  refine Triple.bind ((Settled.stable writes n g₀).steady.step_triple (Q := fun _ =>
    Condition.Holds (Settled writes n g₀)) ?_ fun _ _ h => h.failed) fun _ => ?_
  · exact Triple.modify fun _ h => h
  · exact Triple.ret fun _ h => h.toDone

theorem writeGist_triple (v₀ l : Int) (g₀ : Option (GistContent J)) (content : SyncData J)
    (hle : ∀ v, gistVersion g₀ = some v → v ≤ content.version) :
    Triple (Condition.Holds (Reading v₀ g₀ l)) (writeGist content : Call D J P Unit)
      (fun _ => Condition.Holds (Ready True v₀ g₀ l content.version))
      (fun _ => Condition.Holds (Failed True v₀ g₀)) := by
  have hput : ∀ w : SyncWorld D J, Condition.Holds (Reading v₀ g₀ l) w →
      Condition.Holds (Ready True v₀ g₀ l content.version) (w.putGist content) := by
    intro w hw
    refine ⟨⟨⟨fun hc => hw.uncommitted ?_, hw.untouched, rfl⟩, hw.since, hw.bound⟩,
      rfl, fun _ => ⟨content.version, by simp [SyncWorld.putGist, SyncWorld.record]⟩,
      fun v hv => ⟨content.version, rfl, hle v hv⟩⟩
    simpa [Committed, SyncWorld.putGist, SyncWorld.record] using hc
  exact (Reading.stable v₀ g₀ l).steady.writeGist_triple hput (fun _ _ h => h.failed)
    fun _ w h => (hput w h).failed

theorem publish_triple (writes : Prop) (platform : SyncPlatform) (token : String)
    (providers : List (SyncDataProvider D J P)) (v₀ l n : Int) (g₀ : Option (GistContent J))
    (hle : ∀ v, gistVersion g₀ = some v → v ≤ n) :
    Triple (Condition.Holds (Reading v₀ g₀ l)) (publish platform token providers l n)
      (fun r => Condition.Holds (Returned v₀ g₀ r)) (fun _ => Condition.Holds (Failed writes v₀ g₀)) := by
  refine Triple.bind (Q := fun content w => Condition.Holds (Reading v₀ g₀ l) w ∧ content.version = n)
    ?_ fun content => Triple.of_pure fun hcontent => ?_
  · refine Triple.bind (Triple.of_imp (fun _ h => h)
      (collectSections_triple (Reading.stable v₀ g₀ l) token providers _) (fun _ _ h => h)
      fun _ _ h => h.failed) fun sections => Triple.ret fun _ h => ⟨h, rfl⟩
  · subst hcontent
    refine Triple.bind (Triple.of_imp (fun _ h => h) (writeGist_triple v₀ l g₀ content hle)
      (fun _ _ h => h) fun _ _ h => h.of_writes) fun _ => ?_
    exact Triple.of_imp (fun _ h => h) (finish_triple True platform v₀ l content.version g₀)
      (fun _ _ h => h) fun _ _ h => h.of_writes

theorem getSyncVersion_triple (v₀ : Int) (g₀ : Option (GistContent J)) (writes : Prop)
    (m : Option Int) :
    Triple (fun w : SyncWorld D J => Condition.Holds (Started v₀ g₀) w ∧ lastGist w.trace = m)
      (getSyncVersion : Call D J P Int)
      (fun l w => Condition.Holds (Reading v₀ g₀ l) w ∧ lastGist w.trace = m)
      (fun _ => Condition.Holds (Failed writes v₀ g₀)) := by
  have hstable : Condition.Stable (fun v g t => Started v₀ g₀ v g t ∧ lastGist t = m) :=
    fun v g t h => ⟨Started.stable v₀ g₀ v g t h.1, h.2⟩
  refine hstable.steady.step_triple ?_ fun _ _ h => h.1.failed
  refine Triple.read_bind fun l => ?_
  refine Triple.bind (Triple.modify (Q := fun _ w => Condition.Holds (Reading v₀ g₀ l) w ∧
    lastGist w.trace = m) ?_) fun _ => Triple.ret fun _ h => h
  rintro w ⟨⟨h, hm⟩, rfl⟩
  refine ⟨⟨⟨fun hc => h.uncommitted ?_, h.untouched, h.gist⟩, ?_, by simp [SyncWorld.record, handedOut]⟩, hm⟩
  · simpa [Committed, SyncWorld.record] using hc
  · simp [SyncWorld.record, handedOut]

variable {R : SyncEngineError P → SyncWorld D J → Prop}

theorem findGist_triple (hI : I.Stable) (g₀ : Option (GistContent J)) (hg : ∀ v g t, I v g t → g = g₀)
    (hfail : ∀ e w, I.Holds w → R e w) :
    Triple I.Holds (findGist : Call D J P Bool) (fun b w => I.Holds w ∧ b = g₀.isSome) R :=
  Triple.of_imp (fun _ h => h) (hI.steady.findGist_triple hfail)
    (fun _ _ h => ⟨h.1, by rw [h.2, hg _ _ _ h.1]⟩) fun _ _ h => h

theorem getRemoteData_triple (hI : I.Stable) (g₀ : Option (GistContent J))
    (hg : ∀ v g t, I v g t → g = g₀) (hread : ∀ v g t n, I v g t → I v g (.gistRead n :: t)) (hfail : ∀ e w, I.Holds w → R e w) :
    Triple I.Holds (getRemoteData : Call D J P (SyncData J))
      (fun data w => (I.Holds w ∧ lastGist w.trace = some data.version) ∧ g₀ = some (.data data)) R :=
  hI.steady.getRemoteData_triple
    (fun _ _ h hgist => ⟨⟨hread _ _ _ _ h, rfl⟩, by rw [← hg _ _ _ h, hgist]⟩) hfail

theorem Reading.gistRead (h : Reading v₀ g₀ l v g t) : Reading v₀ g₀ l v g (.gistRead n :: t) :=
  ⟨⟨fun hc => h.uncommitted (by simpa [Committed] using hc), h.untouched, h.gist⟩, h.since, h.bound⟩

theorem Started.gistRead (h : Started v₀ g₀ v g t) : Started v₀ g₀ v g (.gistRead n :: t) :=
  ⟨fun hc => h.uncommitted (by simpa [Committed] using hc), h.untouched, h.gist⟩

/-- The counter was read as `l`, and the gist content last read carries version `m`. -/
def ReadBoth (v₀ : Int) (g₀ : Option (GistContent J)) (l m : Int) : Condition J := fun v g t =>
  Reading v₀ g₀ l v g t ∧ lastGist t = some m

theorem ReadBoth.stable (v₀ : Int) (g₀ : Option (GistContent J)) (l m : Int) :
    Condition.Stable (ReadBoth v₀ g₀ l m) :=
  fun v g t h => ⟨Reading.stable v₀ g₀ l v g t h.1, h.2⟩

theorem ReadBoth.ready (h : ReadBoth v₀ g₀ l n v g t) : Ready False v₀ g₀ l n v g t := by
  obtain ⟨h, hlast⟩ := h
  have hg := h.gist
  subst hg
  exact ⟨h, hlast, False.elim, NeverLower.refl g⟩

section

variable (platform : SyncPlatform)
include platform

variable (token : String)
include token

theorem uploadOver_triple (providers : List (SyncDataProvider D J P)) (v₀ l : Int) (remoteData : SyncData J)
    (hle : remoteData.version ≤ l) :
    Triple (Condition.Holds (ReadBoth v₀ (some (.data remoteData)) l remoteData.version))
      (uploadOver platform token providers l remoteData)
      (fun r => Condition.Holds (Returned v₀ (some (.data remoteData)) r))
      (fun _ => Condition.Holds (Failed True v₀ (some (.data remoteData)))) := by
  have hversion : ∀ n, remoteData.version ≤ n →
      ∀ v, gistVersion (some (.data remoteData) : Option (GistContent J)) = some v → v ≤ n := by
    intro n hn v hv
    simp only [gistVersion, Option.some.injEq] at hv
    omega
  refine Triple.bind (Triple.of_imp (fun _ h => h)
    (mergeSections_triple (ReadBoth.stable v₀ _ l _) _ remoteData {} providers) (fun _ _ h => h)
    fun _ _ h => h.1.failed) fun outcome => ?_
  split
  · rename_i heq
    split
    · refine Triple.bind (Triple.ofResult fun w h => h.1.failed) fun n => Triple.of_pure fun hn => ?_
      rw [nextSyncVersion_eq hn]
      exact Triple.of_imp (fun _ h => h.1)
        (publish_triple True platform token providers v₀ l _ _ (hversion _ (by omega)))
        (fun _ _ h => h) fun _ _ h => h
    · split
      · -- no gist write and no commit: both sides are at `l` already
        refine Triple.bind ((ReadBoth.stable v₀ _ l _).steady.step_triple (Q := fun _ =>
          Condition.Holds (ReadBoth v₀ (some (.data remoteData)) l remoteData.version)) ?_
          fun _ _ h => h.1.failed) fun _ => Triple.ret fun _ h => ?_
        · exact Triple.modify fun _ h => h
        · exact ⟨h.1.synced, heq ▸ h.2, h.1.gist ▸ NeverLower.refl _⟩
      · exact Triple.ret fun _ h => h.1.toStarted
  · exact Triple.of_imp (fun _ h => h.1)
      (publish_triple True platform token providers v₀ l _ _ (hversion _ hle)) (fun _ _ h => h)
      fun _ _ h => h

theorem upload_triple (providers : List (SyncDataProvider D J P)) (v₀ : Int) (g₀ : Option (GistContent J)) :
    Triple (fun w : SyncWorld D J => Condition.Holds (Started v₀ g₀) w ∧ lastGist w.trace = none)
      (upload platform token providers) (fun r => Condition.Holds (Returned v₀ g₀ r))
      (fun _ => Condition.Holds (Failed True v₀ g₀)) := by
  refine Triple.bind (getSyncVersion_triple v₀ g₀ True none) fun l => ?_
  refine Triple.bind (Triple.of_imp (fun _ h => h.1) (findGist_triple (Reading.stable v₀ g₀ l) g₀
    (fun _ _ _ h => h.gist) fun _ _ h => h.failed) (fun _ _ h => h) fun _ _ h => h) fun found =>
      Triple.of_pure fun hfound => ?_
  split
  · refine Triple.bind (getRemoteData_triple (Reading.stable v₀ g₀ l) g₀ (fun _ _ _ h => h.gist)
      (fun _ _ _ _ h => h.gistRead) fun _ _ h => h.failed) fun remoteData =>
        Triple.of_pure fun hg₀ => ?_
    subst hg₀
    split
    · exact Triple.ret fun _ h => h.1.toStarted
    · rename_i hle
      exact uploadOver_triple platform token providers v₀ l remoteData (not_lt.mp hle)
  · rename_i hnone
    have hg₀ : g₀ = none := by simpa [hfound] using hnone
    exact publish_triple True platform token providers v₀ l l g₀ (by simp [hg₀, gistVersion])

theorem downloadOver_triple
    (providers : List (SyncDataProvider D J P)) (v₀ l : Int) (remoteData : SyncData J) :
    Triple (Condition.Holds (ReadBoth v₀ (some (.data remoteData)) l remoteData.version))
      (downloadOver platform token providers l remoteData)
      (fun r => Condition.Holds (Returned v₀ (some (.data remoteData)) r))
      (fun _ => Condition.Holds (Failed False v₀ (some (.data remoteData)))) := by
  have hmerge : ∀ run, Triple (Condition.Holds (ReadBoth v₀ (some (.data remoteData)) l remoteData.version))
      (mergeSections run remoteData {} providers)
      (fun _ => Condition.Holds (ReadBoth v₀ (some (.data remoteData)) l remoteData.version))
      (fun _ => Condition.Holds (Failed False v₀ (some (.data remoteData)))) := fun run =>
    Triple.of_imp (fun _ h => h) (mergeSections_triple (ReadBoth.stable v₀ _ l _) run remoteData {} providers)
      (fun _ _ h => h) fun _ _ h => h.1.failed
  refine Triple.bind (Q := fun _ => Condition.Holds (ReadBoth v₀ (some (.data remoteData)) l
    remoteData.version)) ?_ fun outcome => ?_
  · split
    · exact hmerge _
    · exact hmerge _
  · split
    · exact Triple.ret fun _ h => h.1.toStarted
    · split
      · refine Triple.bind (Triple.ofResult fun w h => h.1.failed) fun n => Triple.of_pure fun hn => ?_
        rw [nextSyncVersion_eq hn]
        refine Triple.of_imp (fun _ h => h.1) (publish_triple False platform token providers v₀ l _ _ ?_)
          (fun _ _ h => h) fun _ _ h => h
        intro v hv
        simp only [gistVersion, Option.some.injEq] at hv
        have := le_max_right l remoteData.version
        omega
      · exact Triple.of_imp (fun _ h => h.ready) (finish_triple False platform v₀ l _ _) (fun _ _ h => h)
          fun _ _ h => h

theorem download_triple
    (providers : List (SyncDataProvider D J P)) (v₀ : Int) (g₀ : Option (GistContent J)) :
    Triple (Condition.Holds (Started v₀ g₀)) (download platform token providers : Call D J P SyncResult)
      (fun r => Condition.Holds (Returned v₀ g₀ r)) (fun _ => Condition.Holds (Failed False v₀ g₀)) := by
  refine Triple.bind (findGist_triple (Started.stable v₀ g₀) g₀ (fun _ _ _ h => h.gist)
    fun _ _ h => h.failed) fun found => Triple.of_pure fun hfound => ?_
  split
  · refine Triple.bind (getRemoteData_triple (Started.stable v₀ g₀) g₀ (fun _ _ _ h => h.gist)
      (fun _ _ _ _ h => h.gistRead) fun _ _ h => h.failed) fun remoteData =>
        Triple.of_pure fun hg₀ => ?_
    subst hg₀
    refine Triple.bind (getSyncVersion_triple v₀ _ False (some remoteData.version)) fun l => ?_
    split
    · exact Triple.ret fun _ h => h.1.toStarted
    · exact downloadOver_triple platform token providers v₀ l remoteData
  · exact Triple.fail fun _ h => h.failed

theorem forceUpload_triple
    (providers : List (SyncDataProvider D J P)) (v₀ : Int) (g₀ : Option (GistContent J)) :
    Triple (fun w : SyncWorld D J => Condition.Holds (Started v₀ g₀) w ∧ lastGist w.trace = none)
      (forceUpload platform token providers) (fun r => Condition.Holds (Returned v₀ g₀ r))
      (fun _ => Condition.Holds (Failed True v₀ g₀)) := by
  refine Triple.bind (getSyncVersion_triple v₀ g₀ True none) fun l => ?_
  refine Triple.bind (Triple.of_imp (fun _ h => h.1) (findGist_triple (Reading.stable v₀ g₀ l) g₀
    (fun _ _ _ h => h.gist) fun _ _ h => h.failed) (fun _ _ h => h) fun _ _ h => h) fun found =>
      Triple.of_pure fun hfound => ?_
  split
  · refine Triple.bind (getRemoteData_triple (Reading.stable v₀ g₀ l) g₀ (fun _ _ _ h => h.gist)
      (fun _ _ _ _ h => h.gistRead) fun _ _ h => h.failed) fun remoteData =>
        Triple.of_pure fun hg₀ => ?_
    subst hg₀
    refine Triple.bind (Triple.of_imp (fun _ h => h.1)
      (mergeSections_triple (Reading.stable v₀ _ l) _ remoteData {} providers) (fun _ _ h => h)
      fun _ _ h => h.failed) fun outcome => ?_
    refine Triple.bind (Triple.ofResult fun w h => h.failed) fun n => Triple.of_pure fun hn => ?_
    refine publish_triple True platform token providers v₀ l n _ ?_
    intro v hv
    simp only [gistVersion, Option.some.injEq] at hv
    have := le_max_right l remoteData.version
    rw [nextSyncVersion_eq hn]
    omega
  · rename_i hnone
    have hg₀ : g₀ = none := by simpa [hfound] using hnone
    refine Triple.bind (Triple.ofResult fun w h => h.failed) fun n => Triple.of_pure fun hn => ?_
    exact publish_triple True platform token providers v₀ l n g₀ (by simp [hg₀, gistVersion])

end

theorem run_triple (op : Operation) (platform : SyncPlatform) (token : String)
    (providers : List (SyncDataProvider D J P)) (v₀ : Int) (g₀ : Option (GistContent J)) :
    Triple (fun w : SyncWorld D J => w.trace = [] ∧ w.device.syncVersion = v₀ ∧ w.gist = g₀)
      (op.run platform token providers) (fun r => Condition.Holds (Returned v₀ g₀ r))
      (fun _ => Condition.Holds (Failed (op ≠ .download) v₀ g₀)) := by
  have hstart : ∀ w : SyncWorld D J, w.trace = [] ∧ w.device.syncVersion = v₀ ∧ w.gist = g₀ →
      Condition.Holds (Started v₀ g₀) w ∧ lastGist w.trace = none := by
    rintro w ⟨ht, hv, hg⟩
    refine ⟨⟨?_, ?_, hg⟩, by rw [ht]; rfl⟩
    · simp [Committed, ht]
    · simp [Untouched, editCount, ht, hv]
  cases op with
  | upload =>
    exact Triple.of_imp hstart (upload_triple platform token providers v₀ g₀) (fun _ _ h => h)
      fun _ _ h => h.of_writes
  | download =>
    exact Triple.of_imp (fun w hw => (hstart w hw).1) (download_triple platform token providers v₀ g₀)
      (fun _ _ h => h) fun _ _ h => ⟨h.untouched, fun hne => absurd rfl hne, h.neverLower⟩
  | forceUpload =>
    exact Triple.of_imp hstart (forceUpload_triple platform token providers v₀ g₀) (fun _ _ h => h)
      fun _ _ h => h.of_writes

theorem performAll_neverLower (platform : SyncPlatform) (token : String)
    (providers : List (SyncDataProvider D J P)) (cloud : Cloud D J) (actions : List (Action D)) :
    NeverLower cloud.gist (cloud.performAll platform token providers actions).gist := by
  induction actions generalizing cloud with
  | nil => exact NeverLower.refl _
  | cons action actions ih =>
    have hstep : NeverLower cloud.gist (cloud.perform platform token providers action).gist := by
      cases action with
      | edit device change =>
        have hgist : ((cloud.world device []).edit change).gist = cloud.gist :=
          SyncWorld.edit_gist _ _
        simp only [Cloud.perform, Cloud.settle, hgist]
        exact NeverLower.refl _
      | call device op events =>
        have h := run_triple op platform token providers (cloud.devices device).syncVersion cloud.gist
          (cloud.world device events) ⟨rfl, rfl, rfl⟩
        simp only [Cloud.perform, Cloud.settle]
        cases hr : op.run platform token providers (cloud.world device events) with
        | mk r w =>
          cases r with
          | error e => exact (h.2 e w hr).neverLower
          | ok result =>
            have hok := h.1 result w hr
            cases result with
            | success n p => exact hok.neverLower
            | conflict a b => exact hok.gist ▸ NeverLower.refl _
            | alreadyUpToDate a => exact hok.gist ▸ NeverLower.refl _
    intro v hv
    obtain ⟨v₁, hv₁, hle₁⟩ := hstep v hv
    obtain ⟨v₂, hv₂, hle₂⟩ := ih (cloud.perform platform token providers action) v₁ hv₁
    exact ⟨v₂, hv₂, hle₁.trans hle₂⟩

/-- What `upload`, `download` and `force_upload` do to the version counters, with
local edits and failures at any of their steps. -/
theorem version_discipline (platform : SyncPlatform) (token : String)
    (providers : List (SyncDataProvider D J P)) :
    (∀ (op : Operation) (device : Device D) (gist : Option (GistContent J)) (events : List (Event D)),
      match op.run platform token providers ⟨device, gist, events, []⟩ with
      | (.ok (.success n _), w) => lastGist w.trace = some n ∧ Synced n w.device.syncVersion w.trace
      | (.ok _, w) => Untouched device.syncVersion w.device.syncVersion w.trace
      | (.error _, w) => ¬Committed w.trace ∨ (op ≠ .download ∧ ¬Written w.trace) →
          Untouched device.syncVersion w.device.syncVersion w.trace) ∧
    (∀ (cloud : Cloud D J) (actions : List (Action D)),
      NeverLower cloud.gist (cloud.performAll platform token providers actions).gist) := by
  refine ⟨fun op device gist events => ?_, fun cloud actions =>
    performAll_neverLower platform token providers cloud actions⟩
  have h := run_triple op platform token providers device.syncVersion gist ⟨device, gist, events, []⟩
    ⟨rfl, rfl, rfl⟩
  cases hr : op.run platform token providers ⟨device, gist, events, []⟩ with
  | mk r w =>
    cases r with
    | error e =>
      have hfail := h.2 e w hr
      rintro (hc | ⟨hop, hw⟩)
      · exact hfail.untouched hc
      · exact hfail.untouched fun hc => hw (hfail.writeFirst hop hc)
    | ok result =>
      have hok := h.1 result w hr
      cases result with
      | success n p => exact ⟨hok.lastGist, hok.synced⟩
      | conflict a b => exact hok.untouched
      | alreadyUpToDate a => exact hok.untouched

/-- A provider that takes over a change of the gist and has nothing to upload. -/
def takingProvider : SyncDataProvider Unit Unit Empty where
  sectionKey := "ssh"
  collectData _ := pure ()
  applyData _ _ := pure { localChanged := true }
  reconcileData _ _ := pure { localChanged := true }

/-- A local edit during an upload at equal versions. No commit follows, and the
counter is the very version the edit got. -/
theorem upload_edit_keeps_version : ∃ n p w,
    Operation.upload.run .gitHub "token" [takingProvider]
      ⟨⟨3, none, ()⟩, some (.data ⟨3, Collections.BTreeMap.empty.insert "ssh" ()⟩),
        [{}, {}, {}, { edits := [id] }], []⟩ = (.ok (.success n p), w) ∧
    handedOut w.trace = [4] ∧ w.device.syncVersion = 4 ∧
    ¬∀ e ∈ handedOut w.trace, e < w.device.syncVersion :=
  ⟨3, .gitHub, _, rfl, by decide, by decide, by decide⟩

end InfiniShell.Sync
