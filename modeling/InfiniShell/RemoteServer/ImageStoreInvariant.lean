import InfiniShell.RemoteServer.ImageStoreCalls

namespace InfiniShell.RemoteServer

open Collections
open RuntimeHost (Uuid Bytes)

variable {V : Type} {crates : ImageCrates V} {d w : Disk V}

/-- No record is ever removed or replaced. -/
structure Keeps (d w : Disk V) : Prop where
  references : ∀ id reference, d.references.get id = some reference → w.references.get id = some reference
  releases : ∀ id release, d.releases.get id = some release → w.releases.get id = some release
  claims : ∀ submission claim, d.claims.get submission = some claim → w.claims.get submission = some claim
  results : ∀ submission result, d.results.get submission = some result → w.results.get submission = some result

theorem Keeps.refl (d : Disk V) : Keeps d d := ⟨fun _ _ => id, fun _ _ => id, fun _ _ => id, fun _ _ => id⟩

theorem Keeps.trans {u : Disk V} (h : Keeps d w) (h' : Keeps w u) : Keeps d u where
  references := fun id reference hreference => h'.references id reference (h.references id reference hreference)
  releases := fun id release hrelease => h'.releases id release (h.releases id release hrelease)
  claims := fun submission claim hclaim => h'.claims submission claim (h.claims submission claim hclaim)
  results := fun submission result hresult => h'.results submission result (h.results submission result hresult)

theorem Keeps.released {id : Uuid} (h : Keeps d w) (hreleased : (d.releases.get id).isSome = true) :
    (w.releases.get id).isSome = true := by
  obtain ⟨release, hrelease⟩ := Option.isSome_iff_exists.mp hreleased
  exact Option.isSome_iff_exists.mpr ⟨release, h.releases id release hrelease⟩

theorem DiskChange.keeps (h : DiskChange crates d w) : Keeps d w := by
  cases h with
  | directory | uploaded | rejected => exact ⟨fun _ _ => id, fun _ _ => id, fun _ _ => id, fun _ _ => id⟩
  | published reference hvalid hfile hunreleased hnew =>
    exact ⟨fun _ _ => AssocMap.get_insert_of_new hnew, fun _ _ => id, fun _ _ => id, fun _ _ => id⟩
  | released transfer key hnew =>
    exact ⟨fun _ _ => id, fun _ _ => AssocMap.get_insert_of_new hnew, fun _ _ => id, fun _ _ => id⟩
  | claimed claim _ _ _ _ _ _ _ hnew =>
    exact ⟨fun _ _ => id, fun _ _ => id, fun _ _ => AssocMap.get_insert_of_new hnew, fun _ _ => id⟩
  | finished result _ _ hnew =>
    exact ⟨fun _ _ => id, fun _ _ => id, fun _ _ => id, fun _ _ => AssocMap.get_insert_of_new hnew⟩

/-- Only files are removed. -/
structure SameRecords (d w : Disk V) : Prop where
  references : w.references = d.references
  releases : w.releases = d.releases
  claims : w.claims = d.claims
  rejections : w.rejections = d.rejections
  results : w.results = d.results

theorem Removals.sameRecords (h : Removals d w) : SameRecords d w := by
  induction h with
  | refl => exact ⟨rfl, rfl, rfl, rfl, rfl⟩
  | tail _ hlast ih =>
    obtain ⟨id, reference, -, -, rfl⟩ := hlast
    exact ⟨ih.references, ih.releases, ih.claims, ih.rejections, ih.results⟩

theorem SameRecords.keeps (h : SameRecords d w) : Keeps d w where
  references := fun _ _ hreference => h.references ▸ hreference
  releases := fun _ _ hrelease => h.releases ▸ hrelease
  claims := fun _ _ hclaim => h.claims ▸ hclaim
  results := fun _ _ hresult => h.results ▸ hresult

theorem CallChanges.keeps (h : CallChanges crates d w) : Keeps d w := by
  obtain ⟨v, hv, hremovals⟩ := h
  have hkept := hremovals.sameRecords.keeps
  cases hv with
  | inl hsame => exact hsame ▸ hkept
  | inr hchange => exact hchange.keeps.trans hkept

/-- The readers accept a claim: its images are those of different transfers, and
the record of each of them belongs to the claim. -/
structure Readable (crates : ImageCrates V) (d : Disk V) (id : Uuid) (claim : QueueClaim V) : Prop where
  version : claim.version = 1
  submission : claim.submission = id
  notNil : id ≠ 0
  nonempty : claim.references ≠ []
  length : claim.references.length ≤ 20
  distinct : Distinct claim.references
  reread : claim.reread crates = claim
  images : ∀ reference ∈ claim.references, ∃ stored key, d.references.get reference.1 = some stored ∧
    keyHash crates reference.2 = .ok key ∧ Owned stored claim.host claim.nativeSession key

theorem Readable.keep {submission : Uuid} {claim : QueueClaim V} (h : Readable crates d submission claim)
    (hkeeps : Keeps d w) : Readable crates w submission claim := by
  refine ⟨h.version, h.submission, h.notNil, h.nonempty, h.length, h.distinct, h.reread, ?_⟩
  intro reference hmem
  obtain ⟨stored, key, hstored, hkey, howned⟩ := h.images reference hmem
  exact ⟨stored, key, hkeeps.references _ _ hstored, hkey, howned⟩

structure DiskSound (crates : ImageCrates V) (d : Disk V) : Prop where
  transfers : ∀ id reference, d.references.get id = some reference → reference.transferId = id
  files : ∀ first second a b, d.references.get first = some a → d.references.get second = some b → a.path = b.path →
    first = second
  claims : ∀ submission claim, d.claims.get submission = some claim → Readable crates d submission claim
  exclusive : ∀ submission, d.claims.get submission = none ∨ d.rejections.get submission = none
  results : ∀ submission result, d.results.get submission = some result →
    d.claims.get submission = some result.claim ∧ result.status ∈ ReferenceStore.finalStatuses

def Disk.empty : Disk V := ⟨.empty, .empty, .empty, .empty, .empty, .empty, .empty⟩

theorem diskSound_empty : DiskSound crates (Disk.empty : Disk V) where
  transfers := nofun
  files := nofun
  claims := nofun
  exclusive := fun _ => .inl rfl
  results := nofun

theorem reread_reread (claim : QueueClaim V) : (claim.reread crates).reread crates = claim.reread crates := by
  simp only [QueueClaim.reread, Option.filter_filter, Bool.and_self]

theorem DiskChange.sound (hsound : DiskSound crates d) (h : DiskChange crates d w) : DiskSound crates w := by
  have hclaims : ∀ submission claim, d.claims.get submission = some claim → Readable crates w submission claim :=
    fun submission claim hclaim => (hsound.claims submission claim hclaim).keep h.keeps
  cases h with
  | directory | uploaded => exact ⟨hsound.transfers, hsound.files, hclaims, hsound.exclusive, hsound.results⟩
  | released transfer key hnew => exact ⟨hsound.transfers, hsound.files, hclaims, hsound.exclusive, hsound.results⟩
  | published reference hvalid hfile hunreleased hnew =>
    refine ⟨?_, ?_, hclaims, hsound.exclusive, hsound.results⟩
    · intro id stored hstored
      cases AssocMap.get_insert_cases hstored with
      | inl hadded => exact hadded.2 ▸ hadded.1.symm
      | inr hold => exact hsound.transfers id stored hold
    · intro first second a b ha hb hpath
      cases AssocMap.get_insert_cases ha with
      | inl hadded =>
        obtain ⟨rfl, rfl⟩ := hadded
        cases AssocMap.get_insert_cases hb with
        | inl hadded => exact hadded.1.symm
        | inr hold => exact (hfile second b hold hpath.symm).symm
      | inr hfirst =>
        cases AssocMap.get_insert_cases hb with
        | inl hadded =>
          obtain ⟨rfl, rfl⟩ := hadded
          exact hfile first a hfirst hpath
        | inr hsecond => exact hsound.files first second a b hfirst hsecond hpath
  | rejected rejection hclaim hnew =>
    refine ⟨hsound.transfers, hsound.files, hclaims, ?_, hsound.results⟩
    intro submission
    by_cases heq : submission = rejection.submission
    · exact .inl (heq ▸ hclaim)
    · refine (hsound.exclusive submission).imp id fun hnone => ?_
      exact (AssocMap.get_insert d.rejections _ _ _).trans ((if_neg heq).trans hnone)
  | claimed claim hversion hreferences hlength hsubmission hrejection hdistinct hclaimable hnew =>
    refine ⟨hsound.transfers, hsound.files, ?_, ?_, ?_⟩
    · intro submission stored hstored
      cases AssocMap.get_insert_cases hstored with
      | inl hadded =>
        obtain ⟨rfl, rfl⟩ := hadded
        refine ⟨hversion, rfl, hsubmission, hreferences, hlength, hdistinct, reread_reread claim, ?_⟩
        intro reference hmem
        obtain ⟨image, key, himage, hkey, howned, -⟩ := hclaimable reference hmem
        exact ⟨image, key, himage, hkey, howned⟩
      | inr hold => exact hclaims submission stored hold
    · intro submission
      by_cases heq : submission = claim.submission
      · exact .inr (heq ▸ hrejection)
      · refine (hsound.exclusive submission).imp (fun hnone => ?_) id
        exact (AssocMap.get_insert d.claims _ _ _).trans ((if_neg heq).trans hnone)
    · intro submission result hresult
      obtain ⟨hclaim, hstatus⟩ := hsound.results submission result hresult
      exact ⟨AssocMap.get_insert_of_new hnew hclaim, hstatus⟩
  | finished result hclaim hstatus hnew =>
    refine ⟨hsound.transfers, hsound.files, hclaims, hsound.exclusive, ?_⟩
    intro submission stored hstored
    cases AssocMap.get_insert_cases hstored with
    | inl hadded =>
      obtain ⟨rfl, rfl⟩ := hadded
      refine ⟨hclaim.trans ?_, hstatus⟩
      exact congrArg some (hsound.claims _ _ hclaim).reread.symm
    | inr hold => exact hsound.results submission stored hold

theorem SameRecords.sound (h : SameRecords d w) (hsound : DiskSound crates d) : DiskSound crates w where
  transfers := h.references ▸ hsound.transfers
  files := h.references ▸ hsound.files
  claims := by
    intro submission claim hclaim
    rw [h.claims] at hclaim
    exact (hsound.claims submission claim hclaim).keep h.keeps
  exclusive := h.claims ▸ h.rejections ▸ hsound.exclusive
  results := h.claims ▸ h.results ▸ hsound.results

theorem CallChanges.sound (hsound : DiskSound crates d) (h : CallChanges crates d w) : DiskSound crates w := by
  obtain ⟨v, hv, hremovals⟩ := h
  refine hremovals.sameRecords.sound ?_
  cases hv with
  | inl hsame => exact hsame ▸ hsound
  | inr hchange => exact hchange.sound hsound

inductive StatusMoves : SubmissionStatus V → SubmissionStatus V → Prop
  | same (status : SubmissionStatus V) : StatusMoves status status
  | claimed (claim : QueueClaim V) : StatusMoves .absent (.unknown claim)
  | finished (result : QueueResult V) (hstatus : result.status ∈ ReferenceStore.finalStatuses) :
      StatusMoves (.unknown result.claim) (.final result)

theorem status_congr {submission : Uuid} (hclaims : w.claims.get submission = d.claims.get submission)
    (hresults : w.results.get submission = d.results.get submission) : w.status submission = d.status submission := by
  rw [Disk.status, hclaims, hresults, Disk.status]

theorem statusMoves_of_eq {before after : SubmissionStatus V} (h : after = before) : StatusMoves before after :=
  h ▸ .same after

theorem DiskChange.statusMoves (hsound : DiskSound crates d) (h : DiskChange crates d w) (submission : Uuid) :
    StatusMoves (d.status submission) (w.status submission) := by
  cases h with
  | directory | uploaded | published | released | rejected => exact .same _
  | claimed claim hversion hreferences hlength hsubmission hrejection hdistinct hclaimable hnew =>
    by_cases heq : submission = claim.submission
    · subst heq
      have hresult : d.results.get claim.submission = none := by
        cases hstored : d.results.get claim.submission with
        | none => rfl
        | some result => exact absurd (hnew.symm.trans (hsound.results _ _ hstored).1) nofun
      have habsent : d.status claim.submission = .absent := by
        rw [Disk.status, hnew]
      have hunknown : Disk.status { d with claims := d.claims.insert claim.submission (claim.reread crates) }
          claim.submission = .unknown (claim.reread crates) := by
        rw [Disk.status, AssocMap.get_insert, if_pos rfl, hresult]
      rw [habsent, hunknown]
      exact .claimed _
    · refine statusMoves_of_eq (status_congr ?_ rfl)
      rw [AssocMap.get_insert, if_neg heq]
  | finished result hclaim hstatus hnew =>
    by_cases heq : submission = result.claim.submission
    · subst heq
      have hunknown : d.status result.claim.submission = .unknown (result.reread crates).claim := by
        rw [Disk.status, hclaim, hnew]
        exact congrArg SubmissionStatus.unknown (hsound.claims _ _ hclaim).reread.symm
      have hfinal : Disk.status { d with results := d.results.insert result.claim.submission (result.reread crates) }
          result.claim.submission = .final (result.reread crates) := by
        rw [Disk.status, hclaim, AssocMap.get_insert, if_pos rfl]
      rw [hunknown, hfinal]
      exact .finished _ hstatus
    · refine statusMoves_of_eq (status_congr rfl ?_)
      rw [AssocMap.get_insert, if_neg heq]

theorem CallChanges.statusMoves (hsound : DiskSound crates d) (h : CallChanges crates d w) (submission : Uuid) :
    StatusMoves (d.status submission) (w.status submission) := by
  obtain ⟨v, hv, hremovals⟩ := h
  have hsame := hremovals.sameRecords
  rw [status_congr (congrArg (AssocMap.get · submission) hsame.claims)
    (congrArg (AssocMap.get · submission) hsame.results)]
  cases hv with
  | inl hv => exact hv ▸ .same _
  | inr hchange => exact hchange.statusMoves hsound submission

theorem Removals.file {id : Uuid} {reference : Reference} {file : ImageFile} (hsound : DiskSound crates d)
    (h : Removals d w) (hpublished : d.references.get id = some reference)
    (hfile : d.files.get reference.path = some file) :
    w.files.get reference.path = some file ∨ (d.releases.get id).isSome = true := by
  induction h with
  | refl => exact .inl hfile
  | tail hearlier hlast ih =>
    refine ih.elim (fun hkept => ?_) .inr
    have hsame := Removals.sameRecords hearlier
    obtain ⟨other, stored, hstored, hreleased, rfl⟩ := hlast
    rw [hsame.references] at hstored
    rw [hsame.releases] at hreleased
    by_cases hpath : reference.path = stored.path
    · exact .inr (hsound.files id other reference stored hpublished hstored hpath ▸ hreleased)
    · exact .inl ((AssocMap.get_erase _ _ _).trans ((if_neg hpath).trans hkept))

theorem DiskChange.file {path : FilePath} {file : ImageFile} (h : DiskChange crates d w)
    (hfile : d.files.get path = some file) : w.files.get path = some file := by
  cases h with
  | directory | published | released | rejected | claimed | finished => exact hfile
  | uploaded path file hnew => exact AssocMap.get_insert_of_new hnew hfile

theorem CallChanges.file {id : Uuid} {reference : Reference} {file : ImageFile} (hsound : DiskSound crates d)
    (h : CallChanges crates d w) (hpublished : d.references.get id = some reference)
    (hfile : d.files.get reference.path = some file) :
    w.files.get reference.path = some file ∨ (w.releases.get id).isSome = true := by
  obtain ⟨v, hv, hremovals⟩ := h
  rw [hremovals.sameRecords.releases]
  cases hv with
  | inl hsame =>
    subst hsame
    exact hremovals.file hsound hpublished hfile
  | inr hchange =>
    exact hremovals.file (hchange.sound hsound) (hchange.keeps.references id reference hpublished) (hchange.file hfile)

end InfiniShell.RemoteServer
