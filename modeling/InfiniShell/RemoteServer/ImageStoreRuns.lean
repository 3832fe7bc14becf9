import InfiniShell.RemoteServer.ImageStoreInvariant

namespace InfiniShell.RemoteServer

open Collections Effects Effects.Program
open RuntimeHost (Uuid Bytes)

inductive StoreCall (V : Type) where
  | persist (reference : Reference)
  | identifierAvailable (id : Uuid)
  | retainedBytes
  | recover (host nativeSession : String) (id key : Uuid)
  | release (host nativeSession : String) (id key : Uuid)
  | rejectPreflight (rejection : PreflightRejection)
  | claimQueue (claim : QueueClaim V)
  | finishQueue (result : QueueResult V)
  | queueStatus (host nativeSession : String) (submission key : Uuid)
  | queueRecoveryClaim (nativeSession : String) (submission key : Uuid)
  | referenceRecoveryClaim (nativeSession : String) (submission transfer key : Uuid)

inductive StoreAnswer (V : Type) where
  | done
  | available (available : Bool)
  | bytes (bytes : Nat)
  | recovered (reference : Option Reference) (released : Bool)
  | status (result : Option (QueueResult V))
  | claim (claim : Option (QueueClaim V))
deriving DecidableEq

variable {V : Type}

section Answers

variable {A : Type} {crates : ImageCrates V} {d : Disk V} {p : Stored V A} {f : A → StoreAnswer V}
  {T : StoreAnswer V → Disk V → Prop}

theorem leaves_told {S : A → Disk V → Prop}
    (h : Leaves d p (fun a w => CallChanges crates d w ∧ S a w) (CallChanges crates d))
    (htold : ∀ a w, S a w → T (f a) w) :
    Leaves d (p >>= fun a => pure (f a)) (fun a w => CallChanges crates d w ∧ T a w) (CallChanges crates d) :=
  h.bind fun a w hw => Leaves.ret ⟨hw.1, htold a w hw.2⟩

theorem reads_told {φ : A → Prop} (h : Reads d p φ) (htold : ∀ a, φ a → T (f a) d) :
    Leaves d (p >>= fun a => pure (f a)) (fun a w => CallChanges crates d w ∧ T a w) (CallChanges crates d) :=
  h.then .refl fun a ha => Leaves.ret ⟨.refl, htold a ha⟩

end Answers

variable [DecidableEq V]

def perform (crates : ImageCrates V) : StoreCall V → Stored V (StoreAnswer V)
  | .persist reference => do
    ReferenceStore.persist crates reference
    return .done
  | .identifierAvailable id => return .available (← ReferenceStore.identifierAvailable crates id)
  | .retainedBytes => return .bytes (← ReferenceStore.retainedBytes crates)
  | .recover host nativeSession id key => do
    let answer ← ReferenceStore.recover crates host nativeSession id key
    return .recovered answer.1 answer.2
  | .release host nativeSession id key => return .bytes (← ReferenceStore.release crates host nativeSession id key)
  | .rejectPreflight rejection => do
    ReferenceStore.rejectPreflight crates rejection
    return .done
  | .claimQueue claim => do
    ReferenceStore.claimQueue crates claim
    return .done
  | .finishQueue result => do
    ReferenceStore.finishQueue crates result
    return .done
  | .queueStatus host nativeSession submission key =>
    return .status (← ReferenceStore.queueStatus crates host nativeSession submission key)
  | .queueRecoveryClaim nativeSession submission key =>
    return .claim (← ReferenceStore.queueRecoveryClaim crates nativeSession submission key)
  | .referenceRecoveryClaim nativeSession submission transfer key =>
    return .claim (← ReferenceStore.referenceRecoveryClaim crates nativeSession submission transfer key)

/-- Directories and images are made by the upload, and never over another one;
everything else is done by the calls. -/
inductive StoreStep (V : Type) where
  | directory (name : String) (entry : Entry)
  | uploaded (path : FilePath) (file : ImageFile)
  | called (call : StoreCall V) (faults : List Bool)

def Disk.after (crates : ImageCrates V) (d : Disk V) : StoreStep V → Disk V
  | .directory name entry =>
    if d.directories.contains name then d else { d with directories := d.directories.insert name entry }
  | .uploaded path file => if d.files.contains path then d else { d with files := d.files.insert path file }
  | .called call faults => (perform crates call ⟨d, faults⟩).2.disk

def answer (crates : ImageCrates V) (d : Disk V) (call : StoreCall V) (faults : List Bool) :
    Except IoError (StoreAnswer V) :=
  (perform crates call ⟨d, faults⟩).1

def diskAfter (crates : ImageCrates V) (steps : List (StoreStep V)) : Disk V :=
  steps.foldl (Disk.after crates) Disk.empty

/-- A claim names different transfers, and a file is published under one transfer. -/
def Orderly (d : Disk V) : StoreStep V → Prop
  | .called (.claimQueue claim) _ => Distinct claim.references
  | .called (.persist reference) _ => OwnFile d reference
  | _ => True

def OrderlyRun (crates : ImageCrates V) (steps : List (StoreStep V)) : Prop :=
  ∀ earlier step later, steps = earlier ++ step :: later → Orderly (diskAfter crates earlier) step

def Told (crates : ImageCrates V) (d w : Disk V) : StoreCall V → StoreAnswer V → Prop
  | .persist reference, .done =>
    d.releases.get reference.transferId = none ∧ w.references.get reference.transferId = some reference
  | .identifierAvailable id, .available available =>
    available = ((d.references.get id).isNone && (d.releases.get id).isNone)
  | .retainedBytes, .bytes bytes => bytes = d.reservedBytes
  | .recover _ _ id _, .recovered reference released =>
    released = (d.releases.get id).isSome ∧ (reference.isSome = true → released = false)
  | .release _ _ id _, .bytes _ => (w.releases.get id).isSome = true
  | .rejectPreflight rejection, .done => w.rejections.get rejection.submission = some rejection
  | .claimQueue claim, .done =>
    d.claims.get claim.submission = none ∧ (∀ reference ∈ claim.references, d.releases.get reference.1 = none) ∧
      w.claims.get claim.submission = some (claim.reread crates)
  | .finishQueue result, .done => w.results.get result.claim.submission = some result
  | .queueStatus _ _ submission _, .status result => result = (d.status submission).answer
  | .queueRecoveryClaim _ submission _, .claim claim => claim = d.claims.get submission
  | .referenceRecoveryClaim _ submission _ _, .claim claim => claim = d.claims.get submission
  | _, _ => False

section Steps

variable {crates : ImageCrates V} {d : Disk V} {call : StoreCall V} {faults : List Bool}

theorem perform_leaves (hsound : DiskSound crates d) (horderly : Orderly d (.called call faults)) :
    Leaves d (perform crates call) (fun a w => CallChanges crates d w ∧ Told crates d w call a)
      (CallChanges crates d) := by
  cases call with
  | persist reference => exact leaves_told (leaves_persist horderly) fun _ _ => id
  | identifierAvailable id => exact reads_told reads_identifierAvailable fun _ h => h
  | retainedBytes => exact leaves_told leaves_retainedBytes fun _ _ => id
  | recover => exact leaves_told leaves_recover fun _ _ => id
  | release => exact leaves_told leaves_release fun _ _ => id
  | rejectPreflight => exact leaves_told leaves_rejectPreflight fun _ _ => id
  | claimQueue claim => exact leaves_told (leaves_claimQueue horderly) fun _ _ => id
  | finishQueue result =>
    refine leaves_told (leaves_finishQueue ?_) fun _ _ => id
    exact fun submission claim hclaim => (hsound.claims submission claim hclaim).reread
  | queueStatus => exact reads_told reads_queueStatus fun _ h => h
  | queueRecoveryClaim => exact reads_told reads_queueRecoveryClaim fun _ h => h
  | referenceRecoveryClaim => exact reads_told reads_referenceRecoveryClaim fun _ h => h

theorem after_changes (hsound : DiskSound crates d) {step : StoreStep V} (horderly : Orderly d step) :
    CallChanges crates d (d.after crates step) := by
  cases step with
  | directory name entry =>
    rw [Disk.after]
    split
    · exact .refl
    · rename_i hnew
      exact .single (.directory name entry (Option.not_isSome_iff_eq_none.mp hnew))
  | uploaded path file =>
    rw [Disk.after]
    split
    · exact .refl
    · rename_i hnew
      exact .single (.uploaded path file (Option.not_isSome_iff_eq_none.mp hnew))
  | called call faults =>
    have hleaves : Leaves d (perform crates call) (fun _ => CallChanges crates d) (CallChanges crates d) :=
      (perform_leaves hsound horderly).of_imp (fun _ _ h => h.1) fun _ => id
    exact Triple.world (S := fun s : Durable (Disk V) => CallChanges crates d s.disk) hleaves rfl

theorem answer_told (hsound : DiskSound crates d)
    (horderly : Orderly d (.called call faults)) {a : StoreAnswer V} (h : answer crates d call faults = .ok a) :
    Told crates d (d.after crates (.called call faults)) call a :=
  (Triple.of_ok (perform_leaves hsound horderly) rfl h).2

end Steps

section Runs

variable {crates : ImageCrates V} {steps earlier middle later : List (StoreStep V)} {step : StoreStep V}

theorem diskAfter_append (earlier later : List (StoreStep V)) :
    diskAfter crates (earlier ++ later) = later.foldl (Disk.after crates) (diskAfter crates earlier) :=
  List.foldl_append

theorem diskAfter_concat (earlier : List (StoreStep V)) (step : StoreStep V) :
    diskAfter crates (earlier ++ [step]) = (diskAfter crates earlier).after crates step :=
  diskAfter_append earlier [step]

theorem OrderlyRun.left (h : OrderlyRun crates (earlier ++ later)) : OrderlyRun crates earlier := by
  rintro before step after rfl
  exact h before step (after ++ later) (by simp)

theorem OrderlyRun.orderly (h : OrderlyRun crates (earlier ++ step :: later)) : Orderly (diskAfter crates earlier) step :=
  h earlier step later rfl

theorem OrderlyRun.concat (h : OrderlyRun crates steps) (next : StoreStep V)
    (hnext : Orderly (diskAfter crates steps) next) : OrderlyRun crates (steps ++ [next]) := by
  intro earlier other later heq
  cases List.eq_nil_or_concat later with
  | inl hnil =>
    subst hnil
    obtain ⟨rfl, hlast⟩ := List.append_inj' heq rfl
    obtain rfl := (List.cons.inj hlast).1
    exact hnext
  | inr hconcat =>
    obtain ⟨rest, last, rfl⟩ := hconcat
    rw [List.concat_eq_append, ← List.cons_append, ← List.append_assoc] at heq
    obtain ⟨hsteps, -⟩ := List.append_inj' heq rfl
    exact h earlier other rest hsteps

theorem OrderlyRun.sound (h : OrderlyRun crates steps) : DiskSound crates (diskAfter crates steps) := by
  induction steps using List.reverseRecOn with
  | nil => exact diskSound_empty
  | append_singleton steps step ih =>
    have hsound := ih h.left
    rw [diskAfter_concat]
    exact (after_changes hsound h.orderly).sound hsound

theorem OrderlyRun.keeps (h : OrderlyRun crates (earlier ++ later)) :
    Keeps (diskAfter crates earlier) (diskAfter crates (earlier ++ later)) := by
  induction later using List.reverseRecOn with
  | nil =>
    rw [List.append_nil]
    exact Keeps.refl _
  | append_singleton later step ih =>
    rw [← List.append_assoc] at h ⊢
    refine (ih h.left).trans ?_
    rw [diskAfter_concat]
    exact (after_changes h.left.sound h.orderly).keeps

end Runs

/-- With no fault ahead the call answers `a` and changes nothing. -/
def Steady {V A : Type} (d : Disk V) (p : Stored V A) (a : A) : Prop := p ⟨d, []⟩ = (.ok a, ⟨d, []⟩)

section Steady

variable {V A B T : Type} {crates : ImageCrates V} {d : Disk V}

theorem Steady.bind {p : Stored V A} {g : A → Stored V B} {a : A} {b : B} (hp : Steady d p a)
    (hg : Steady d (g a) b) : Steady d (p >>= g) b :=
  (bind_ok hp).trans hg

theorem steady_pure (a : A) : Steady d (pure a : Stored V A) a := rfl

theorem steady_fileCall : Steady d fileCall () := rfl

theorem steady_require {q : Prop} [Decidable q] (h : q) : Steady d (require q) () := by
  rw [Steady, require, ensure, if_pos h]
  rfl

theorem steady_ofResult {r : Except IoError A} {a : A} (h : r = .ok a) : Steady d (ofResult r) a := ofResult_ok h _

theorem steady_acquire : Steady d acquire () := rfl

theorem steady_readRecord (kind : RecordKind V T) (id : Uuid) : Steady d (readRecord kind id) ((kind.records d).get id) := by
  refine steady_fileCall.bind ?_
  rw [show onDisk (fun w => (kind.records w).get id) = Program.read fun s => (kind.records s.disk).get id from rfl]
  refine Steady.bind (a := (kind.records d).get id) rfl ?_
  cases (kind.records d).get id with
  | none => exact steady_pure none
  | some record => exact steady_fileCall.bind (steady_fileCall.bind (steady_fileCall.bind (steady_pure _)))

variable {reference : Reference}

theorem steady_requireOwner {host nativeSession : String} {key : Digest}
    (h : Owned reference host nativeSession key) : Steady d (requireOwner reference host nativeSession key) () :=
  (steady_require h.isValid).bind (steady_require ⟨h.host, h.nativeSession, h.keyHash⟩)

theorem repeatsTransfer_eq_false {references : List (Uuid × Uuid)} (h : Distinct references) :
    ReferenceStore.repeatsTransfer references = false := by
  induction references with
  | nil => rfl
  | cons reference rest ih =>
    obtain ⟨hnew, hrest⟩ := List.nodup_cons.mp h
    rw [ReferenceStore.repeatsTransfer, ih hrest, Bool.or_false, Bool.eq_false_iff]
    intro hany
    obtain ⟨other, hmem, hsame⟩ := List.any_eq_true.mp hany
    exact hnew (List.mem_map.mpr ⟨other, hmem, of_decide_eq_true hsame⟩)

variable {submission : Uuid} {claim : QueueClaim V} {key : Uuid}

theorem keyHash_ne_zero {hash : Digest} (h : keyHash crates key = .ok hash) : key ≠ 0 := by
  rintro rfl
  exact absurd h nofun

theorem Reference.isValid_iff :
    reference.isValid = true ↔ reference.version = 1 ∧ reference.transferId ≠ 0 ∧ reference.host ≠ "" ∧
      reference.nativeSession ≠ "" ∧ reference.byteLen ≠ 0 ∧
      safeComponent reference.directory "cli-image-unpublished-" "" = true ∧
      safeComponent reference.filename "attachment-" ".png" = true :=
  decide_eq_true_iff

theorem Readable.identifiers (h : Readable crates d submission claim) (hsound : DiskSound crates d) :
    claim.references.all (fun reference => reference.1 ≠ 0 ∧ reference.2 ≠ 0) = true := by
  apply List.all_eq_true.mpr
  intro reference hmem
  obtain ⟨stored, hash, hstored, hkey, howned⟩ := h.images reference hmem
  obtain ⟨-, htransfer, -⟩ := Reference.isValid_iff.mp howned.isValid
  rw [hsound.transfers _ _ hstored] at htransfer
  exact decide_eq_true ⟨htransfer, keyHash_ne_zero hkey⟩

theorem Readable.session (h : Readable crates d submission claim) : claim.host ≠ "" ∧ claim.nativeSession ≠ "" := by
  obtain ⟨reference, hmem⟩ := List.exists_mem_of_ne_nil _ h.nonempty
  obtain ⟨stored, hash, -, -, howned⟩ := h.images reference hmem
  obtain ⟨-, -, hhost, hsession, -⟩ := Reference.isValid_iff.mp howned.isValid
  exact ⟨howned.host ▸ hhost, howned.nativeSession ▸ hsession⟩

variable (hsound : DiskSound crates d)
include hsound

variable (hclaim : d.claims.get submission = some claim)
include hclaim

theorem steady_readRecoveryClaim :
    Steady d (ReferenceStore.readRecoveryClaim crates claim.nativeSession submission) (some claim) := by
  have h := hsound.claims submission claim hclaim
  obtain ⟨hhost, hsession⟩ := h.session
  refine (steady_readRecord crates.claimKind submission).bind ?_
  rw [show (crates.claimKind.records d).get submission = some claim from hclaim]
  refine (steady_require ⟨h.version, h.notNil, h.submission, hhost, hsession, rfl, h.nonempty, h.length,
    h.identifiers hsound⟩).bind ?_
  exact (steady_require (repeatsTransfer_eq_false h.distinct)).bind (steady_pure _)

theorem steady_queueRecoveryClaim (hkey : keyHash crates key = .ok claim.keyHash) :
    Steady d (ReferenceStore.queueRecoveryClaim crates claim.nativeSession submission key) (some claim) := by
  refine steady_acquire.bind ((steady_readRecoveryClaim hsound hclaim).bind ?_)
  exact (steady_ofResult hkey).bind ((steady_require rfl).bind (steady_pure _))

theorem steady_referenceRecoveryClaim {reference : Uuid × Uuid} (hmem : reference ∈ claim.references) :
    Steady d (ReferenceStore.referenceRecoveryClaim crates claim.nativeSession submission reference.1 reference.2)
      (some claim) := by
  obtain ⟨stored, hash, hstored, hkey, howned⟩ := (hsound.claims submission claim hclaim).images reference hmem
  refine steady_acquire.bind ((steady_readRecoveryClaim hsound hclaim).bind ?_)
  refine (steady_require hmem).bind ((steady_readRecord crates.referenceKind reference.1).bind ?_)
  rw [show (crates.referenceKind.records d).get reference.1 = some stored from hstored]
  exact (steady_pure stored).bind ((steady_ofResult hkey).bind ((steady_requireOwner howned).bind (steady_pure _)))

theorem steady_queueStatus [DecidableEq V] (hkey : keyHash crates key = .ok claim.keyHash) :
    Steady d (ReferenceStore.queueStatus crates claim.host claim.nativeSession submission key)
      (d.status submission).answer := by
  have h := hsound.claims submission claim hclaim
  refine steady_acquire.bind ((steady_readRecord crates.claimKind submission).bind ?_)
  rw [show (crates.claimKind.records d).get submission = some claim from hclaim, Disk.status, hclaim]
  refine (steady_require ⟨h.version, rfl, rfl, h.submission⟩).bind ((steady_ofResult hkey).bind ?_)
  refine (steady_require rfl).bind ((steady_readRecord crates.resultKind submission).bind ?_)
  rw [show (crates.resultKind.records d).get submission = d.results.get submission from rfl]
  cases hresult : d.results.get submission with
  | none => exact steady_pure _
  | some result =>
    obtain ⟨hstored, hstatus⟩ := hsound.results submission result hresult
    have hsame := Option.some.inj (hstored.symm.trans hclaim)
    exact (steady_require ⟨hsame, hstatus⟩).bind (steady_pure _)

end Steady

end InfiniShell.RemoteServer
