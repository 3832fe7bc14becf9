import InfiniShell.Collections.BTreeMap
import InfiniShell.Effects.Program
import Mathlib.Data.String.Basic

namespace InfiniShell.Sync

open Collections Effects Effects.Program

inductive SyncPlatform where
  | gitHub
  | gitee
  deriving DecidableEq

inductive SyncResult where
  | success (version : Int) (platform : SyncPlatform)
  | conflict (localVersion remoteVersion : Int)
  | alreadyUpToDate (version : Int)
  deriving DecidableEq

inductive CryptoError where
  | encrypt (message : String)
  | decrypt (message : String)
  deriving DecidableEq

inductive GistClientError where
  | request (message : String)
  | notFound
  | noToken
  | api (status : Nat) (body : String)
  | missingLogin
  deriving DecidableEq

/-- `P` is what a data provider reports. -/
inductive SyncEngineError (P : Type) where
  | crypto (source : CryptoError)
  | gist (source : GistClientError)
  | provider (source : P)
  | serialization (message : String)
  | versionStore (message : String)
  deriving DecidableEq

structure ApplyDataOutcome where
  localChanged : Bool := false
  needsUpload : Bool := false

def ApplyDataOutcome.merge (self other : ApplyDataOutcome) : ApplyDataOutcome where
  localChanged := self.localChanged || other.localChanged
  needsUpload := self.needsUpload || other.needsUpload

/-- `crypto::encrypt` and `crypto::decrypt`. The nonce `encrypt` draws is an argument. -/
structure Crypto where
  encrypt : String → Nat → String → Except CryptoError String
  decrypt : String → String → Except CryptoError String

/-- Decryption with the token a text was encrypted with gives the text back. -/
def Crypto.RoundTrips (crypto : Crypto) : Prop :=
  ∀ token nonce text cipher, crypto.encrypt token nonce text = .ok cipher →
    crypto.decrypt token cipher = .ok text

/-- RFC 3339 texts of instants, counted in nanoseconds. -/
structure Rfc3339 where
  format : Int → String
  parse : String → Option Int

def Rfc3339.RoundTrips (rfc3339 : Rfc3339) : Prop := ∀ at', rfc3339.parse (rfc3339.format at') = some at'

def i64Max : Int := 9223372036854775807

/-- `i64::checked_add(1)`. -/
def checkedSucc (version : Int) : Option Int := if i64Max ≤ version then none else some (version + 1)

structure SyncData (J : Type) where
  version : Int
  sections : BTreeMap String J

/-- The text of the gist: sync data, or something `serde_json` refuses. -/
inductive GistContent (J : Type) where
  | data (data : SyncData J)
  | malformed (message : String)

/-- A device: the counter of `sync_meta`, the platform last synced with, and the
data `D` of the providers. -/
structure Device (D : Type) where
  syncVersion : Int
  lastSyncPlatform : Option SyncPlatform
  data : D

/-- Local edits before a step, and its failure; `applied` tells of a gist write whose answer was lost. -/
structure Event (D : Type) where
  edits : List (D → D) := []
  fault : Option Fault := none
  applied : Bool := false

/-- The steps of a run that the version counters are about. -/
inductive Trace where
  | versionRead (version : Int)
  | edited (version : Int)
  | gistRead (version : Int)
  | gistWritten (version : Int)
  | committed (version : Int)

/-- A device and the gist during a call. The newest trace entry comes first. -/
structure SyncWorld (D J : Type) where
  device : Device D
  gist : Option (GistContent J)
  events : List (Event D) := []
  trace : List Trace := []

structure SyncDataProvider (D J P : Type) where
  sectionKey : String
  collectData : String → Program D (SyncEngineError P) J
  applyData : String → J → Program D (SyncEngineError P) ApplyDataOutcome
  reconcileData : String → J → Program D (SyncEngineError P) ApplyDataOutcome

variable {D J P A : Type}

abbrev Call (D J P A : Type) := Program (SyncWorld D J) (SyncEngineError P) A

def SyncWorld.record (entry : Trace) (w : SyncWorld D J) : SyncWorld D J :=
  { w with trace := entry :: w.trace }

/-- A local edit bumps the counter with `increment_sync_version` in the same
transaction; an overflow undoes both. -/
def SyncWorld.edit (w : SyncWorld D J) (change : D → D) : SyncWorld D J :=
  match checkedSucc w.device.syncVersion with
  | some version =>
    { w with device := { w.device with syncVersion := version, data := change w.device.data } }.record
      (.edited version)
  | none => w

def SyncWorld.arrive (w : SyncWorld D J) : SyncWorld D J :=
  match w.events with
  | [] => w
  | event :: events => event.edits.foldl SyncWorld.edit { w with events }

def SyncWorld.nextFault (w : SyncWorld D J) : Option Fault := w.events.head?.bind Event.fault

def SyncWorld.nextApplied (w : SyncWorld D J) : Bool := (w.events.head?.map Event.applied).getD false

/-- A step that can fail and then has no effect. -/
def step (failure : String → SyncEngineError P) (body : Call D J P A) : Call D J P A := fun w =>
  match w.nextFault with
  | some fault => (.error (failure fault.message), w.arrive)
  | none => body w.arrive

def gistFailure (message : String) : SyncEngineError P := .gist (.request message)

/-! `SyncVersionStore` of a device -/

def getSyncVersion : Call D J P Int := step .versionStore do
  let version ← Program.read fun w => w.device.syncVersion
  Program.modify (SyncWorld.record (.versionRead version))
  pure version

def setSyncVersion (version : Int) : Call D J P Unit :=
  Program.modify fun w => { w with device := { w.device with syncVersion := version } }

def commitSyncVersion (expectedVersion syncedVersion : Int) : Call D J P Int :=
  step .versionStore do
    let currentVersion ← Program.read fun w => w.device.syncVersion
    if currentVersion = expectedVersion then
      setSyncVersion syncedVersion
      Program.modify (SyncWorld.record (.committed syncedVersion))
      pure syncedVersion
    else
      match checkedSucc (max currentVersion syncedVersion) with
      | some committedVersion =>
        setSyncVersion committedVersion
        Program.modify (SyncWorld.record (.committed committedVersion))
        pure committedVersion
      | none => throw (.versionStore s!"sync version overflow at {max currentVersion syncedVersion}")

def updateSyncMeta (platform : SyncPlatform) : Call D J P Unit := step .versionStore <|
  Program.modify fun w => { w with device := { w.device with lastSyncPlatform := some platform } }

/-! `GistOps` -/

def findGist : Call D J P Bool := step gistFailure (Program.read fun w => w.gist.isSome)

/-- `get_gist_content` and the parse of its answer. -/
def getRemoteData : Call D J P (SyncData J) := step gistFailure do
  match ← Program.read fun w => w.gist with
  | none => throw (.gist .notFound)
  | some (.malformed message) => throw (.serialization message)
  | some (.data data) =>
    Program.modify (SyncWorld.record (.gistRead data.version))
    pure data

def SyncWorld.putGist (content : SyncData J) (w : SyncWorld D J) : SyncWorld D J :=
  { w with gist := some (.data content) }.record (.gistWritten content.version)

/-- `create_gist` and `update_gist`. -/
def writeGist (content : SyncData J) : Call D J P Unit := fun w =>
  match w.nextFault with
  | none => (.ok (), w.arrive.putGist content)
  | some fault =>
    (.error (gistFailure fault.message),
      if w.nextApplied then w.arrive.putGist content else w.arrive)

/-! The providers -/

def onData (p : Program D (SyncEngineError P) A) : Call D J P A := fun w =>
  zoom (fun w : SyncWorld D J => w.device.data)
    (fun data w => { w with device := { w.device with data } }) p w.arrive

def collectSections (token : String) :
    BTreeMap String J → List (SyncDataProvider D J P) → Call D J P (BTreeMap String J)
  | sections, [] => pure sections
  | sections, provider :: providers => do
    let data ← onData (provider.collectData token)
    collectSections token (sections.insert provider.sectionKey data) providers

def collectSyncContent (token : String) (providers : List (SyncDataProvider D J P)) (version : Int) :
    Call D J P (SyncData J) := do
  let sections ← collectSections token BTreeMap.empty providers
  pure ⟨version, sections⟩

/-- The loop of `reconcile_provider_sections` and `apply_provider_sections`. -/
def mergeSections (run : SyncDataProvider D J P → J → Program D (SyncEngineError P) ApplyDataOutcome)
    (remoteData : SyncData J) :
    ApplyDataOutcome → List (SyncDataProvider D J P) → Call D J P ApplyDataOutcome
  | outcome, [] => pure outcome
  | outcome, provider :: providers =>
    match remoteData.sections.get provider.sectionKey with
    | some sectionData => do
      let other ← onData (run provider sectionData)
      mergeSections run remoteData (outcome.merge other) providers
    | none => mergeSections run remoteData { outcome with needsUpload := true } providers

def reconcileProviderSections (token : String) (providers : List (SyncDataProvider D J P))
    (remoteData : SyncData J) : Call D J P ApplyDataOutcome :=
  mergeSections (fun provider => provider.reconcileData token) remoteData {} providers

def applyProviderSections (token : String) (providers : List (SyncDataProvider D J P))
    (remoteData : SyncData J) : Call D J P ApplyDataOutcome :=
  mergeSections (fun provider => provider.applyData token) remoteData {} providers

/-! The calls -/

def nextSyncVersion (version : Int) : Except (SyncEngineError P) Int :=
  match checkedSucc version with
  | some version => .ok version
  | none => .error (.versionStore s!"sync version overflow at {version}")

/-- The end of every call that has brought device and gist to `version`. -/
def finish (platform : SyncPlatform) (localVersion version : Int) : Call D J P SyncResult := do
  let _ ← commitSyncVersion localVersion version
  updateSyncMeta platform
  pure (.success version platform)

/-- Collect the local data, write them to the gist under `version`, commit. -/
def publish (platform : SyncPlatform) (token : String) (providers : List (SyncDataProvider D J P))
    (localVersion version : Int) : Call D J P SyncResult := do
  let content ← collectSyncContent token providers version
  writeGist content
  finish platform localVersion version

/-- `upload` on a gist that is not newer than the device. -/
def uploadOver (platform : SyncPlatform) (token : String) (providers : List (SyncDataProvider D J P))
    (localVersion : Int) (remoteData : SyncData J) : Call D J P SyncResult := do
  let outcome ← reconcileProviderSections token providers remoteData
  if remoteData.version = localVersion then
    if outcome.needsUpload then
      let uploadVersion ← ofResult (nextSyncVersion localVersion)
      publish platform token providers localVersion uploadVersion
    else if outcome.localChanged then
      updateSyncMeta platform
      pure (.success localVersion platform)
    else pure (.alreadyUpToDate localVersion)
  else publish platform token providers localVersion localVersion

def upload (platform : SyncPlatform) (token : String) (providers : List (SyncDataProvider D J P)) :
    Call D J P SyncResult := do
  let localVersion ← getSyncVersion
  if ← findGist then
    let remoteData ← getRemoteData
    if localVersion < remoteData.version then pure (.conflict localVersion remoteData.version)
    else uploadOver platform token providers localVersion remoteData
  else publish platform token providers localVersion localVersion

/-- `download` of a gist that is not older than the device. -/
def downloadOver (platform : SyncPlatform) (token : String)
    (providers : List (SyncDataProvider D J P)) (localVersion : Int) (remoteData : SyncData J) :
    Call D J P SyncResult := do
  let outcome ← (if remoteData.version = localVersion then
      reconcileProviderSections token providers remoteData
    else applyProviderSections token providers remoteData : Call D J P ApplyDataOutcome)
  if remoteData.version = localVersion ∧ ¬outcome.localChanged ∧ ¬outcome.needsUpload then
    pure (.alreadyUpToDate remoteData.version)
  else if outcome.needsUpload then
    let version ← ofResult (nextSyncVersion (max localVersion remoteData.version))
    publish platform token providers localVersion version
  else finish platform localVersion remoteData.version

def download (platform : SyncPlatform) (token : String) (providers : List (SyncDataProvider D J P)) :
    Call D J P SyncResult := do
  if ← findGist then
    let remoteData ← getRemoteData
    let localVersion ← getSyncVersion
    if remoteData.version < localVersion then pure (.alreadyUpToDate remoteData.version)
    else downloadOver platform token providers localVersion remoteData
  else throw (.gist .notFound)

def forceUpload (platform : SyncPlatform) (token : String)
    (providers : List (SyncDataProvider D J P)) : Call D J P SyncResult := do
  let localVersion ← getSyncVersion
  if ← findGist then
    let remoteData ← getRemoteData
    let _ ← reconcileProviderSections token providers remoteData
    let newVersion ← ofResult (nextSyncVersion (max localVersion remoteData.version))
    publish platform token providers localVersion newVersion
  else
    let newVersion ← ofResult (nextSyncVersion (max localVersion 0))
    publish platform token providers localVersion newVersion

inductive Operation where
  | upload
  | download
  | forceUpload

def Operation.run (op : Operation) (platform : SyncPlatform) (token : String)
    (providers : List (SyncDataProvider D J P)) : Call D J P SyncResult :=
  match op with
  | .upload => Sync.upload platform token providers
  | .download => Sync.download platform token providers
  | .forceUpload => Sync.forceUpload platform token providers

/-! Several devices on one gist -/

structure Cloud (D J : Type) where
  gist : Option (GistContent J)
  devices : Nat → Device D

inductive Action (D : Type) where
  | edit (device : Nat) (change : D → D)
  | call (device : Nat) (op : Operation) (events : List (Event D))

def Cloud.world (cloud : Cloud D J) (device : Nat) (events : List (Event D)) : SyncWorld D J where
  device := cloud.devices device
  gist := cloud.gist
  events

/-- The cloud after `device` and the gist have come to the state of `w`. -/
def Cloud.settle (cloud : Cloud D J) (device : Nat) (w : SyncWorld D J) : Cloud D J where
  gist := w.gist
  devices := Function.update cloud.devices device w.device

@[simp] theorem Cloud.settle_gist (cloud : Cloud D J) (device : Nat) (w : SyncWorld D J) :
    (cloud.settle device w).gist = w.gist := rfl

@[simp] theorem Cloud.settle_self (cloud : Cloud D J) (device : Nat) (w : SyncWorld D J) :
    (cloud.settle device w).devices device = w.device := Function.update_self ..

theorem Cloud.settle_of_ne (cloud : Cloud D J) {device d : Nat} (w : SyncWorld D J) (hd : d ≠ device) :
    (cloud.settle device w).devices d = cloud.devices d := Function.update_of_ne hd ..

def Cloud.perform (platform : SyncPlatform) (token : String) (providers : List (SyncDataProvider D J P))
    (cloud : Cloud D J) : Action D → Cloud D J
  | .edit device change => cloud.settle device ((cloud.world device []).edit change)
  | .call device op events =>
    cloud.settle device (op.run platform token providers (cloud.world device events)).2

def Cloud.performAll (platform : SyncPlatform) (token : String)
    (providers : List (SyncDataProvider D J P)) (cloud : Cloud D J) (actions : List (Action D)) :
    Cloud D J :=
  actions.foldl (Cloud.perform platform token providers) cloud

/-- One thing that happens, with the platform and the provider of a call. -/
structure SyncStep (D J P : Type) where
  platform : SyncPlatform
  provider : SyncDataProvider D J P
  action : Action D

def Cloud.performStep (token : String) (cloud : Cloud D J) (s : SyncStep D J P) : Cloud D J :=
  cloud.perform s.platform token [s.provider] s.action

def Cloud.performSteps (token : String) (cloud : Cloud D J) (steps : List (SyncStep D J P)) : Cloud D J :=
  steps.foldl (Cloud.performStep token) cloud

variable {D J P A : Type}

/-- The predicate survives the local edits before the next step of a call. -/
def Steady (I : SyncWorld D J → Prop) : Prop := ∀ w, I w → I w.arrive

variable {I : SyncWorld D J → Prop} {Q : A → SyncWorld D J → Prop}
  {R : SyncEngineError P → SyncWorld D J → Prop}

theorem Steady.step_triple (hI : Steady I) {failure : String → SyncEngineError P}
    {body : Call D J P A} (hbody : Triple I body Q R) (hfail : ∀ e w, I w → R e w) :
    Triple I (step failure body) Q R := by
  intro w hw
  have harrive := hI w hw
  unfold step
  cases w.nextFault with
  | none => exact hbody _ harrive
  | some fault =>
    refine ⟨fun a w' ha => by simp at ha, fun e w' he => ?_⟩
    simp only [Prod.mk.injEq, Except.error.injEq] at he
    obtain ⟨rfl, rfl⟩ := he
    exact hfail _ _ harrive

def SyncWorld.withData (data : D) (w : SyncWorld D J) : SyncWorld D J :=
  { w with device := { w.device with data } }

theorem Steady.onData_triple (hI : Steady I) {p : Program D (SyncEngineError P) A}
    (hp : ∀ w, I w → Triple (fun data => data = w.device.data) p (fun a data => Q a (w.withData data))
      (fun e data => R e (w.withData data))) :
    Triple I (onData p : Call D J P A) Q R := by
  intro w hw
  have harrive := hI w hw
  obtain ⟨hok, herr⟩ := hp w.arrive harrive w.arrive.device.data rfl
  refine ⟨fun a w' ha => ?_, fun e w' he => ?_⟩
  · simp only [onData, zoom, Prod.mk.injEq] at ha
    exact ha.2 ▸ hok a _ (Prod.ext ha.1 rfl)
  · simp only [onData, zoom, Prod.mk.injEq] at he
    exact he.2 ▸ herr e _ (Prod.ext he.1 rfl)

theorem Steady.writeGist_triple (hI : Steady I) {content : SyncData J}
    {Q : Unit → SyncWorld D J → Prop} (hput : ∀ w, I w → Q () (w.putGist content))
    (hfail : ∀ e w, I w → R e w) (hlate : ∀ e w, I w → R e (w.putGist content)) :
    Triple I (writeGist content : Call D J P Unit) Q R := by
  intro w hw
  have harrive := hI w hw
  unfold writeGist
  cases w.nextFault with
  | none =>
    refine ⟨fun a w' ha => ?_, fun e w' he => by simp at he⟩
    simp only [Prod.mk.injEq] at ha
    exact ha.2 ▸ hput _ harrive
  | some fault =>
    refine ⟨fun a w' ha => by simp at ha, fun e w' he => ?_⟩
    simp only [Prod.mk.injEq] at he
    rw [← he.2]
    split
    · exact hlate e _ harrive
    · exact hfail e _ harrive

theorem Steady.findGist_triple (hI : Steady I) (hfail : ∀ e w, I w → R e w) :
    Triple I (findGist : Call D J P Bool) (fun found w => I w ∧ found = w.gist.isSome) R :=
  hI.step_triple (Triple.read fun _ h => ⟨h, rfl⟩) hfail

theorem Steady.getRemoteData_triple (hI : Steady I) {Q : SyncData J → SyncWorld D J → Prop}
    (hread : ∀ w data, I w → w.gist = some (.data data) → Q data (w.record (.gistRead data.version)))
    (hfail : ∀ e w, I w → R e w) : Triple I (getRemoteData : Call D J P (SyncData J)) Q R := by
  refine hI.step_triple (Triple.read_bind fun g => ?_) hfail
  cases g with
  | none => exact Triple.fail fun w h => hfail _ w h.1
  | some content =>
    cases content with
    | malformed message => exact Triple.fail fun w h => hfail _ w h.1
    | data data =>
      refine Triple.bind (Triple.modify (Q := fun _ w => Q data w) fun w h => ?_) fun _ =>
        Triple.ret fun _ h => h
      exact hread w data h.1 h.2

/-- Local edits are restricted to those that `allowed` allows, and `K` holds of device and gist. -/
def During (allowed : (D → D) → Prop) (K : Device D → Option (GistContent J) → Prop)
    (w : SyncWorld D J) : Prop :=
  (∀ event ∈ w.events, ∀ change ∈ event.edits, allowed change) ∧ K w.device w.gist

variable {allowed : (D → D) → Prop} {K : Device D → Option (GistContent J) → Prop}

section

variable (hK : ∀ change, allowed change → ∀ device g version, K device g → K { device with syncVersion := version, data := change device.data } g)
include hK

theorem During.edit {w : SyncWorld D J} (h : During allowed K w) {change : D → D} (hc : allowed change) :
    During allowed K (w.edit change) := by
  unfold SyncWorld.edit
  split
  · exact ⟨h.1, hK change hc _ _ _ h.2⟩
  · exact h

theorem During.steady : Steady (During allowed K : SyncWorld D J → Prop) := by
  intro w h
  unfold SyncWorld.arrive
  split
  · exact h
  · rename_i event events hevents
    have hfold : ∀ (edits : List (D → D)) (w' : SyncWorld D J), During allowed K w' →
        (∀ change ∈ edits, allowed change) → During allowed K (edits.foldl SyncWorld.edit w') := by
      intro edits
      induction edits with
      | nil => exact fun _ h _ => h
      | cons change edits ih =>
        intro w' h' hall
        exact ih _ (h'.edit hK (hall change (by simp))) fun c hc => hall c (by simp [hc])
    have hallowed := h.1
    rw [hevents] at hallowed
    exact hfold event.edits _ ⟨fun e he => hallowed e (by simp [he]), h.2⟩ (hallowed event (by simp))

end

/-- `K` holds of device and gist, and nothing happens to the call from outside. -/
def Calm (K : Device D → Option (GistContent J) → Prop) (w : SyncWorld D J) : Prop :=
  w.events = [] ∧ K w.device w.gist

theorem Calm.steady : Steady (Calm K : SyncWorld D J → Prop) := by
  intro w h
  have harrive : w.arrive = w := by
    unfold SyncWorld.arrive
    rw [h.1]
  rw [harrive]
  exact h

theorem Calm.step_triple {failure : String → SyncEngineError P} {body : Call D J P A}
    (hbody : Triple (Calm K) body Q R) : Triple (Calm K) (step failure body) Q R := by
  intro w h
  have hfault : w.nextFault = none := by simp [SyncWorld.nextFault, h.1]
  have hrun : step failure body w = body w.arrive := by
    unfold step
    rw [hfault]
  rw [hrun]
  exact hbody _ (Calm.steady w h)

theorem Calm.writeGist_triple {content : SyncData J} {Q : Unit → SyncWorld D J → Prop}
    (hput : ∀ w, Calm K w → Q () (w.putGist content)) :
    Triple (Calm K) (writeGist content : Call D J P Unit) Q R := by
  intro w h
  have hfault : w.nextFault = none := by simp [SyncWorld.nextFault, h.1]
  have hrun : (writeGist content : Call D J P Unit) w = (.ok (), w.arrive.putGist content) := by
    unfold writeGist
    rw [hfault]
  rw [hrun]
  refine ⟨fun a w' ha => ?_, fun e w' he => by simp at he⟩
  simp only [Prod.mk.injEq] at ha
  exact ha.2 ▸ hput _ (Calm.steady w h)

def gistView {T : Type} (content : J → Option T) (key : String) : Option (GistContent J) → Option T
  | some (.data data) => (data.sections.get key).bind content
  | _ => none

/-- The device has version `v` and part `x`, and the gist is `g₀`. -/
structure Still {T : Type} (view : D → T) (v : Int) (x : T) (g₀ : Option (GistContent J))
    (device : Device D) (g : Option (GistContent J)) : Prop where
  version : device.syncVersion = v
  view : view device.data = x
  gist : g = g₀

theorem SyncWorld.edit_device (w : SyncWorld D J) (change : D → D) :
    ((w.edit change).device.syncVersion = w.device.syncVersion + 1 ∧
      (w.edit change).device.data = change w.device.data) ∨
    ((w.edit change).device.syncVersion = w.device.syncVersion ∧
      (w.edit change).device.data = w.device.data) := by
  unfold SyncWorld.edit checkedSucc
  by_cases hmax : i64Max ≤ w.device.syncVersion
  · simp [hmax]
  · simp [hmax, SyncWorld.record]

theorem SyncWorld.edit_gist (w : SyncWorld D J) (change : D → D) : (w.edit change).gist = w.gist := by
  unfold SyncWorld.edit
  split <;> rfl

theorem nextSyncVersion_eq {v n : Int} (h : (nextSyncVersion v : Except (SyncEngineError P) Int) = .ok n) :
    n = v + 1 := by
  unfold nextSyncVersion checkedSucc at h
  split at h <;> simp_all

end InfiniShell.Sync
