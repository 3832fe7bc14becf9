import InfiniShell.Collections.AssocMap
import Mathlib.Tactic.Cases
import Mathlib.Data.List.Forall2

namespace InfiniShell.Effects

/-- A program over a world `W`. A run that fails keeps what it did to the world
before the failure. -/
def Program (W E A : Type) := W → Except E A × W

namespace Program

variable {V W E F A B : Type}

def ret (a : A) : Program W E A := fun w => (.ok a, w)

def fail (e : E) : Program W E A := fun w => (.error e, w)

def bind (p : Program W E A) (f : A → Program W E B) : Program W E B := fun w =>
  match p w with
  | (.ok a, w') => f a w'
  | (.error e, w') => (.error e, w')

instance : Monad (Program W E) where
  pure := ret
  bind := bind

instance : MonadExceptOf E (Program W E) where
  throw := fail
  tryCatch p h := fun w =>
    match p w with
    | (.ok a, w') => (.ok a, w')
    | (.error e, w') => h e w'

def read (f : W → A) : Program W E A := fun w => (.ok (f w), w)

def modify (f : W → W) : Program W E Unit := fun w => (.ok (), f w)

def ofResult (r : Except E A) : Program W E A := fun w => (r, w)

/-- Go on if `p` holds. -/
def ensure (p : Prop) [Decidable p] (e : E) : Program W E Unit := if p then ret () else fail e

/-- Run `p` and hand its result to the caller, an error included. -/
def attempt (p : Program W E A) : Program W F (Except E A) := fun w => (.ok (p w).1, (p w).2)

def mapError (f : E → F) (p : Program W E A) : Program W F A := fun w =>
  match p w with
  | (.ok a, w') => (.ok a, w')
  | (.error e, w') => (.error (f e), w')

/-- Run a program of the part `get v` of a larger world. -/
def zoom (get : V → W) (set : W → V → V) (p : Program W E A) : Program V E A := fun v =>
  ((p (get v)).1, set (p (get v)).2 v)

/-- Run `p`; if it fails, `restore` computes the final world from the one before
and the one the failure left. -/
def onErrorRestore (restore : W → W → W) (p : Program W E A) : Program W E A := fun w =>
  match p w with
  | (.ok a, w') => (.ok a, w')
  | (.error e, w') => (.error e, restore w w')

def forEach : List A → (A → Program W E Unit) → Program W E Unit
  | [], _ => ret ()
  | a :: l, f => bind (f a) fun _ => forEach l f

/-- From a world in `P`, a run of `p` ends with a value and a world in `Q` or
with an error and a world in `R`. -/
def Triple (P : W → Prop) (p : Program W E A) (Q : A → W → Prop) (R : E → W → Prop) : Prop :=
  ∀ w, P w → (∀ a w', p w = (.ok a, w') → Q a w') ∧ (∀ e w', p w = (.error e, w') → R e w')

variable {P P' : W → Prop} {Q Q' : A → W → Prop} {R R' : E → W → Prop}

@[simp] theorem pure_apply (a : A) (w : W) : (pure a : Program W E A) w = (.ok a, w) := rfl

@[simp] theorem throw_apply (e : E) (w : W) : (throw e : Program W E A) w = (.error e, w) := rfl

theorem bind_apply (p : Program W E A) (f : A → Program W E B) (w : W) :
    (p >>= f) w = match p w with
      | (.ok a, w') => f a w'
      | (.error e, w') => (.error e, w') := rfl

theorem bind_ok {p : Program W E A} {f : A → Program W E B} {w w' : W} {a : A}
    (h : p w = (.ok a, w')) : (p >>= f) w = f a w' := by
  rw [bind_apply, h]

theorem bind_error {p : Program W E A} {f : A → Program W E B} {w w' : W} {e : E}
    (h : p w = (.error e, w')) : (p >>= f) w = (.error e, w') := by
  rw [bind_apply, h]

theorem ofResult_ok {r : Except E A} {a : A} (h : r = .ok a) (w : W) :
    (ofResult r : Program W E A) w = (.ok a, w) := by
  rw [ofResult, h]

theorem Triple.of_imp (hp : ∀ w, P' w → P w) (h : Triple P p Q R)
    (hq : ∀ a w, Q a w → Q' a w) (hr : ∀ e w, R e w → R' e w) : Triple P' p Q' R' :=
  fun w hw => ⟨fun a w' ha => hq a w' ((h w (hp w hw)).1 a w' ha),
    fun e w' he => hr e w' ((h w (hp w hw)).2 e w' he)⟩

theorem Triple.any (p : Program W E A) : Triple P p (fun _ _ => True) (fun _ _ => True) :=
  fun _ _ => ⟨fun _ _ _ => trivial, fun _ _ _ => trivial⟩

theorem Triple.world {p : Program W E A} {S : W → Prop} (h : Triple P p (fun _ => S) (fun _ => S)) {w : W}
    (hw : P w) : S (p w).2 := by
  obtain ⟨hok, herror⟩ := h w hw
  cases hp : p w with
  | mk r w' =>
    cases r with
    | ok a => exact hok a w' hp
    | error e => exact herror e w' hp

theorem Triple.of_ok {p : Program W E A} (h : Triple P p Q R) {w : W} {a : A} (hw : P w) (hok : (p w).1 = .ok a) :
    Q a (p w).2 :=
  (h w hw).1 a (p w).2 (Prod.ext hok rfl)

theorem Triple.of_error {p : Program W E A} (h : Triple P p Q R) {w : W} {e : E} (hw : P w)
    (herror : (p w).1 = .error e) : R e (p w).2 :=
  (h w hw).2 e (p w).2 (Prod.ext herror rfl)

theorem Triple.ret {a : A} (h : ∀ w, P w → Q a w) : Triple P (pure a : Program W E A) Q R := by
  intro w hw
  refine ⟨fun b w' hb => ?_, fun e w' he => ?_⟩
  · simp only [pure_apply, Prod.mk.injEq, Except.ok.injEq] at hb
    obtain ⟨rfl, rfl⟩ := hb
    exact h w hw
  · simp at he

theorem Triple.fail {e : E} (h : ∀ w, P w → R e w) : Triple P (throw e : Program W E A) Q R := by
  intro w hw
  refine ⟨fun b w' hb => ?_, fun d w' hd => ?_⟩
  · simp at hb
  · simp only [throw_apply, Prod.mk.injEq, Except.error.injEq] at hd
    obtain ⟨rfl, rfl⟩ := hd
    exact h w hw

theorem Triple.read {f : W → A} (h : ∀ w, P w → Q (f w) w) :
    Triple P (read f : Program W E A) Q R := by
  intro w hw
  refine ⟨fun a w' ha => ?_, fun e w' he => by simp [Program.read] at he⟩
  simp only [Program.read, Prod.mk.injEq, Except.ok.injEq] at ha
  obtain ⟨rfl, rfl⟩ := ha
  exact h w hw

theorem Triple.modify {f : W → W} {Q : Unit → W → Prop} (h : ∀ w, P w → Q () (f w)) :
    Triple P (modify f : Program W E Unit) Q R := by
  intro w hw
  refine ⟨fun a w' ha => ?_, fun e w' he => by simp [Program.modify] at he⟩
  simp only [Program.modify, Prod.mk.injEq] at ha
  obtain ⟨-, rfl⟩ := ha
  exact h w hw

theorem Triple.bind {p : Program W E A} {f : A → Program W E B} {S : B → W → Prop}
    (hp : Triple P p Q R) (hf : ∀ a, Triple (Q a) (f a) S R) : Triple P (p >>= f) S R := by
  intro w hw
  obtain ⟨hok, herr⟩ := hp w hw
  cases hr : p w with
  | mk r w₁ =>
    cases r with
    | ok a =>
      rw [bind_ok hr]
      exact hf a w₁ (hok a w₁ hr)
    | error e =>
      rw [bind_error hr]
      refine ⟨fun b w' hb => by simp at hb, fun d w' hd => ?_⟩
      simp only [Prod.mk.injEq, Except.error.injEq] at hd
      obtain ⟨rfl, rfl⟩ := hd
      exact herr _ _ hr

theorem Triple.ofResult {r : Except E A} (hr : ∀ {e} w, P w → R e w) :
    Triple P (ofResult r) (fun a w => P w ∧ r = .ok a) R := by
  intro w hw
  refine ⟨fun a w' ha => ?_, fun e w' he => ?_⟩
  · simp only [Program.ofResult, Prod.mk.injEq] at ha
    exact ⟨ha.2 ▸ hw, ha.1⟩
  · simp only [Program.ofResult, Prod.mk.injEq] at he
    exact he.2 ▸ hr w hw

theorem Triple.ofResult_cases {r : Except E A} (hok : ∀ a w, P w → r = .ok a → Q a w)
    (herror : ∀ e w, P w → r = .error e → R e w) : Triple P (Program.ofResult r) Q R := by
  intro w hw
  refine ⟨fun a w' ha => ?_, fun e w' he => ?_⟩
  · simp only [Program.ofResult, Prod.mk.injEq] at ha
    exact ha.2 ▸ hok a w hw ha.1
  · simp only [Program.ofResult, Prod.mk.injEq] at he
    exact he.2 ▸ herror e w hw he.1

theorem Triple.ensure {p : Prop} [Decidable p] {e : E} {Q : Unit → W → Prop} (hok : ∀ w, P w → p → Q () w)
    (herror : ∀ w, P w → ¬p → R e w) : Triple P (Program.ensure p e : Program W E Unit) Q R := by
  by_cases hp : p
  · rw [Program.ensure, if_pos hp]
    exact Triple.ret fun w hw => hok w hw hp
  · rw [Program.ensure, if_neg hp]
    exact Triple.fail fun w hw => herror w hw hp

theorem Triple.of_pure {p : Program W E A} {φ : Prop} (h : φ → Triple P p Q R) :
    Triple (fun w => P w ∧ φ) p Q R :=
  fun w hw => h hw.2 w hw.1

theorem Triple.read_bind {f : W → A} {g : A → Program W E B} {S : B → W → Prop}
    (h : ∀ a, Triple (fun w => P w ∧ f w = a) (g a) S R) : Triple P (Program.read f >>= g) S R :=
  Triple.bind (Triple.read (Q := fun a w => P w ∧ f w = a) fun _ hw => ⟨hw, rfl⟩) h

section Exact

variable {s : W} {S : B → W → Prop}

theorem Triple.read_then {f : W → A} {g : A → Program W E B} (h : Triple (fun w => w = s) (g (f s)) S R) :
    Triple (fun w => w = s) (Program.read f >>= g) S R := by
  apply Triple.read_bind
  rintro a w ⟨rfl, rfl⟩
  exact h w rfl

theorem Triple.ofResult_then {r : Except E A} {g : A → Program W E B}
    (hok : ∀ a, r = .ok a → Triple (fun w => w = s) (g a) S R) (herror : ∀ e, r = .error e → R e s) :
    Triple (fun w => w = s) (Program.ofResult r >>= g) S R := by
  refine Triple.bind (Triple.ofResult_cases (Q := fun a w => w = s ∧ r = .ok a) ?_ ?_) ?_
  · intro a w hw ha
    exact ⟨hw, ha⟩
  · rintro e w rfl he
    exact herror e he
  · intro a
    exact Triple.of_pure fun ha => hok a ha

variable {g : Unit → Program W E B}

theorem Triple.ensure_then {p : Prop} [Decidable p] {e : E}
    (hok : p → Triple (fun w => w = s) (g ()) S R) (herror : ¬p → R e s) :
    Triple (fun w => w = s) (Program.ensure p e >>= g) S R := by
  refine Triple.bind (Triple.ensure (Q := fun _ w => w = s ∧ p) ?_ ?_) ?_
  · intro w hw hp
    exact ⟨hw, hp⟩
  · rintro w rfl hp
    exact herror hp
  · intro u
    exact Triple.of_pure fun hp => hok hp

theorem Triple.modify_then {f : W → W}
    (h : Triple (fun w => w = f s) (g ()) S R) : Triple (fun w => w = s) (Program.modify f >>= g) S R := by
  refine Triple.bind (Q := fun _ w => w = f s) (Triple.modify ?_) fun u => h
  rintro w rfl
  rfl

end Exact

variable {p : Program W E A} {S : F → W → Prop}

theorem Triple.attempt (h : Triple P p Q R) : Triple P (attempt p : Program W F (Except E A))
      (fun r w => match r with
        | .ok a => Q a w
        | .error e => R e w) S := by
  intro w hw
  obtain ⟨hok, herr⟩ := h w hw
  refine ⟨fun r w' hr => ?_, fun e w' he => by simp [Program.attempt] at he⟩
  simp only [Program.attempt, Prod.mk.injEq, Except.ok.injEq] at hr
  obtain ⟨rfl, rfl⟩ := hr
  cases hp : p w with
  | mk r w₁ =>
    cases r with
    | ok a => exact hok a w₁ hp
    | error e => exact herr e w₁ hp

theorem Triple.mapError {f : E → F}
    (h : Triple P p Q (fun e => S (f e))) : Triple P (mapError f p) Q S := by
  intro w hw
  obtain ⟨hok, herr⟩ := h w hw
  cases hp : p w with
  | mk r w₁ =>
    cases r with
    | ok a =>
      simp only [Program.mapError, hp]
      refine ⟨fun b w' hb => ?_, fun e w' he => by simp at he⟩
      simp only [Prod.mk.injEq, Except.ok.injEq] at hb
      obtain ⟨rfl, rfl⟩ := hb
      exact hok _ _ hp
    | error e =>
      simp only [Program.mapError, hp]
      refine ⟨fun b w' hb => by simp at hb, fun d w' hd => ?_⟩
      simp only [Prod.mk.injEq, Except.error.injEq] at hd
      obtain ⟨rfl, rfl⟩ := hd
      exact herr _ _ hp

theorem Triple.zoom {get : V → W} {set : W → V → V} {S : V → Prop} {T : A → V → Prop} {U : E → V → Prop}
    (h : ∀ v, S v → Triple (fun w => w = get v) p (fun a w => T a (set w v))
      (fun e w => U e (set w v))) : Triple S (zoom get set p) T U := by
  intro v hv
  obtain ⟨hok, herr⟩ := h v hv (get v) rfl
  refine ⟨fun a v' ha => ?_, fun e v' he => ?_⟩
  · simp only [Program.zoom, Prod.mk.injEq] at ha
    obtain ⟨ha, rfl⟩ := ha
    exact hok a _ (Prod.ext ha rfl)
  · simp only [Program.zoom, Prod.mk.injEq] at he
    obtain ⟨he, rfl⟩ := he
    exact herr e _ (Prod.ext he rfl)

theorem Triple.onErrorRestore {restore : W → W → W} {s : W}
    (h : Triple (fun w => w = s) p Q (fun e w => R e (restore s w))) :
    Triple (fun w => w = s) (onErrorRestore restore p) Q R := by
  rintro w rfl
  obtain ⟨hok, herr⟩ := h w rfl
  cases hp : p w with
  | mk r w₁ =>
    cases r with
    | ok a =>
      simp only [Program.onErrorRestore, hp]
      refine ⟨fun b w' hb => ?_, fun e w' he => by simp at he⟩
      simp only [Prod.mk.injEq, Except.ok.injEq] at hb
      obtain ⟨rfl, rfl⟩ := hb
      exact hok _ _ hp
    | error e =>
      simp only [Program.onErrorRestore, hp]
      refine ⟨fun b w' hb => by simp at hb, fun d w' hd => ?_⟩
      simp only [Prod.mk.injEq, Except.error.injEq] at hd
      obtain ⟨rfl, rfl⟩ := hd
      exact herr _ _ hp

theorem Triple.forEach {f : A → Program W E Unit} (inv : List A → W → Prop)
    (hstep : ∀ a l, Triple (inv (a :: l)) (f a) (fun _ => inv l) R) (l : List A) :
    Triple (inv l) (forEach l f) (fun _ => inv []) R := by
  induction l with
  | nil => exact Triple.ret fun w hw => hw
  | cons a l ih => exact Triple.bind (hstep a l) fun _ => ih

end Program

/-- What an outside call that goes wrong reports. `platform` marks the errors a
backend raises when it cannot be reached at all. -/
structure Fault where
  platform : Bool
  message : String
  deriving DecidableEq

/-- The failures of the coming calls, in call order. Calls beyond the list succeed. -/
abbrev Faults := List (Option Fault)

namespace Faults

def call : Program Faults Fault Unit
  | [] => (.ok (), [])
  | none :: faults => (.ok (), faults)
  | some fault :: faults => (.error fault, faults)

def quiet (n : Nat) (faults : Faults) : Faults := List.replicate n none ++ faults

@[simp] theorem quiet_zero (faults : Faults) : quiet 0 faults = faults := rfl

@[simp] theorem call_quiet (n : Nat) (faults : Faults) :
    call (quiet (n + 1) faults) = (.ok (), quiet n faults) := rfl

theorem quiet_add (m n : Nat) (faults : Faults) :
    quiet (m + n) faults = quiet m (quiet n faults) := by
  simp [quiet, ← List.append_assoc, List.replicate_append_replicate]

end Faults

end InfiniShell.Effects

namespace InfiniShell.Effects.Results

variable {E A B : Type} {r : Except E A} {f : A → Except E B}

theorem bind_eq_ok {b : B} : (r >>= f) = .ok b ↔ ∃ a, r = .ok a ∧ f a = .ok b := by
  cases r with
  | ok a => simp [bind, Except.bind]
  | error e => simp [bind, Except.bind]

theorem map_eq_ok {f : A → B} {b : B} : f <$> r = .ok b ↔ ∃ a, r = .ok a ∧ f a = b := by
  cases r with
  | ok a => simp [Functor.map, Except.map]
  | error e => simp [Functor.map, Except.map]

@[simp] theorem pure_eq_ok {a b : A} : (pure a : Except E A) = .ok b ↔ a = b := by
  simp [pure, Except.pure]

@[simp] theorem throw_ne_ok {e : E} {a : A} : (throw e : Except E A) ≠ .ok a := nofun

theorem bind_throw_ne_ok {e : E} {b : B} : ((throw e : Except E A) >>= f) ≠ .ok b := nofun

@[simp] theorem ok_bind {a : A} : (Except.ok a >>= f) = f a := rfl

theorem mapM_eq_ok {l : List A} {l' : List B} :
    l.mapM f = .ok l' ↔ List.Forall₂ (fun a b => f a = .ok b) l l' := by
  induction l generalizing l' with
  | nil => rw [List.mapM_nil, pure_eq_ok, List.forall₂_nil_left_iff, eq_comm]
  | cons a l ih =>
    rw [List.mapM_cons, List.forall₂_cons_left_iff]
    simp only [bind_eq_ok, pure_eq_ok, ih]
    constructor
    · rintro ⟨b, hb, bs, hbs, rfl⟩
      exact ⟨b, bs, hb, hbs, rfl⟩
    · rintro ⟨b, bs, hb, hbs, rfl⟩
      exact ⟨b, hb, bs, hbs, rfl⟩

theorem exists_of_mem_mapM {l : List A} {l' : List B} (h : l.mapM f = .ok l') {a : A} (ha : a ∈ l) :
    ∃ b ∈ l', f a = .ok b := by
  induction mapM_eq_ok.mp h with
  | nil => cases ha
  | cons hb hl ih =>
    cases List.mem_cons.mp ha with
    | inl heq => exact ⟨_, List.mem_cons_self, heq ▸ hb⟩
    | inr ha =>
      obtain ⟨b, hmem, hb'⟩ := ih (mapM_eq_ok.mpr hl) ha
      exact ⟨b, List.mem_cons_of_mem _ hmem, hb'⟩

end InfiniShell.Effects.Results

namespace InfiniShell.Effects

open Collections Effects.Program

/-- The disk, and which of the next file operations are to fail. A call that
crashes does no more than one that fails at the same operation. -/
structure Durable (D : Type) where
  disk : D
  faults : List Bool

inductive IoError where
  | notFound
  | alreadyExists
  | other
deriving DecidableEq

abbrev Stored (D A : Type) := Program (Durable D) IoError A

structure RecordKind (D K T : Type) where
  records : D → AssocMap K T
  put : K → T → D → D
  size : T → Nat
  limit : Nat
  reread : T → T

variable {D K T A B : Type}

def fileCall : Stored D Unit := fun s =>
  match s.faults with
  | [] => (.ok (), s)
  | fault :: faults => (if fault then .error .other else .ok (), { s with faults := faults })

def changeDisk (f : D → D) : Stored D Unit := modify fun s => { s with disk := f s.disk }

def onDisk (f : D → A) : Stored D A := Program.read fun s => f s.disk

/-- A check that ends in `invalid()`. -/
def require (p : Prop) [Decidable p] : Stored D Unit := ensure p .other

def orInvalid (value : Option A) : Stored D A :=
  match value with
  | some a => pure a
  | none => throw .other

def readRecord [DecidableEq K] (kind : RecordKind D K T) (id : K) : Stored D (Option T) := do
  fileCall
  match ← onDisk fun d => (kind.records d).get id with
  | none => return none
  | some record => do
    fileCall
    fileCall
    fileCall
    return some record

/-- The temporary file takes the name of the record only if no file has it; the
directory is flushed after that. -/
def writeRecord [DecidableEq K] (kind : RecordKind D K T) (id : K) (record : T) : Stored D Unit := do
  require (kind.size record ≤ kind.limit)
  fileCall
  fileCall
  fileCall
  fileCall
  ensure ((← onDisk fun d => (kind.records d).get id).isNone = true) .alreadyExists
  changeDisk (kind.put id (kind.reread record))
  fileCall
  fileCall
  fileCall

/-- From the disk `d`, a call that answers ends in `Q`, and one that fails or
crashes ends in `R`. -/
def Leaves (d : D) (p : Stored D A) (Q : A → D → Prop) (R : D → Prop) : Prop :=
  Triple (fun s => s.disk = d) p (fun a s => Q a s.disk) (fun _ s => R s.disk)

def Reads (d : D) (p : Stored D A) (φ : A → Prop) : Prop :=
  Leaves d p (fun a w => w = d ∧ φ a) (fun w => w = d)

section Calls

variable {d : D} {p : Stored D A} {g : A → Stored D B} {φ φ' : A → Prop} {ψ : B → Prop}
  {Q : A → D → Prop} {S : B → D → Prop} {R : D → Prop}

theorem Leaves.ret {a : A} (h : Q a d) : Leaves d (pure a : Stored D A) Q R := by
  apply Triple.ret
  rintro s rfl
  exact h

variable {e : IoError}

theorem Leaves.fail (h : R d) : Leaves d (throw e : Stored D A) Q R := by
  apply Triple.fail
  rintro s rfl
  exact h

theorem Leaves.of_imp {Q' : A → D → Prop} {R' : D → Prop} (h : Leaves d p Q R)
    (hq : ∀ a w, Q a w → Q' a w) (hr : ∀ w, R w → R' w) : Leaves d p Q' R' :=
  Triple.of_imp (fun _ hs => hs) h (fun a s => hq a s.disk) fun _ s => hr s.disk

theorem Leaves.bind (hp : Leaves d p Q R) (hg : ∀ a w, Q a w → Leaves w (g a) S R) : Leaves d (p >>= g) S R := by
  refine Triple.bind hp fun a => ?_
  intro s hs
  exact hg a s.disk hs s rfl

theorem Reads.then (hp : Reads d p φ) (hsame : R d) (hg : ∀ a, φ a → Leaves d (g a) S R) :
    Leaves d (p >>= g) S R := by
  have hp' : Leaves d p (fun a w => w = d ∧ φ a) R := hp.of_imp (fun _ _ => id) fun w hw => hw ▸ hsame
  refine hp'.bind ?_
  rintro a w ⟨rfl, ha⟩
  exact hg a ha

theorem Reads.bind (hp : Reads d p φ) (hg : ∀ a, φ a → Reads d (g a) ψ) : Reads d (p >>= g) ψ :=
  hp.then rfl hg

theorem Reads.ret {a : A} (h : φ a) : Reads d (pure a : Stored D A) φ := Leaves.ret ⟨rfl, h⟩

theorem Reads.fail : Reads d (throw e : Stored D A) φ := Leaves.fail rfl

theorem Reads.of_imp (h : Reads d p φ) (himp : ∀ a, φ a → φ' a) : Reads d p φ' :=
  Leaves.of_imp h (fun a _ ha => ⟨ha.1, himp a ha.2⟩) fun _ => id

theorem Reads.leaves (h : Reads d p φ) (hq : ∀ a, φ a → Q a d) (hsame : R d) : Leaves d p Q R := by
  refine Leaves.of_imp h ?_ ?_
  · rintro a w ⟨rfl, ha⟩
    exact hq a ha
  · rintro w rfl
    exact hsame

theorem Reads.forEach {f : A → Stored D Unit} {l : List A} (h : ∀ a, Reads d (f a) fun _ => φ a) :
    Reads d (forEach l f) fun _ => ∀ a ∈ l, φ a := by
  induction l with
  | nil => exact Reads.ret fun a ha => absurd ha List.not_mem_nil
  | cons a l ih =>
    refine (h a).bind fun _ ha => ih.of_imp fun _ hl => ?_
    exact List.forall_mem_cons.mpr ⟨ha, hl⟩

theorem reads_fileCall : Reads d fileCall fun _ => True := by
  rintro s rfl
  unfold fileCall
  cases s.faults with
  | nil =>
    refine ⟨?_, nofun⟩
    rintro a s' hs
    obtain ⟨-, rfl⟩ := Prod.mk.inj hs
    exact ⟨rfl, trivial⟩
  | cons fault faults =>
    refine ⟨?_, ?_⟩
    · rintro a s' hs
      obtain ⟨-, rfl⟩ := Prod.mk.inj hs
      exact ⟨rfl, trivial⟩
    · rintro e s' hs
      obtain ⟨-, rfl⟩ := Prod.mk.inj hs
      rfl

theorem reads_onDisk {f : D → A} : Reads d (onDisk f) fun a => a = f d := by
  apply Triple.read
  rintro s rfl
  exact ⟨rfl, rfl⟩

variable {q : Prop}

theorem reads_ensure [Decidable q] : Reads d (ensure q e) fun _ => q := by
  apply Triple.ensure
  · rintro s rfl hq
    exact ⟨rfl, hq⟩
  · rintro s rfl -
    rfl

theorem reads_require [Decidable q] : Reads d (require q) fun _ => q := reads_ensure

theorem reads_ofResult {r : Except IoError A} : Reads d (ofResult r) fun a => r = .ok a := by
  apply Triple.ofResult_cases
  · rintro a s rfl ha
    exact ⟨rfl, ha⟩
  · rintro e s rfl -
    rfl

theorem reads_orInvalid {value : Option A} : Reads d (orInvalid value) fun a => value = some a := by
  cases value with
  | none => exact Reads.fail
  | some a => exact Reads.ret rfl

theorem leaves_changeDisk {f : D → D} {Q : Unit → D → Prop} (h : Q () (f d)) :
    Leaves d (changeDisk f) Q R := by
  apply Triple.modify
  rintro s rfl
  exact h

variable [DecidableEq K] {kind : RecordKind D K T} {id : K} {record : T}

theorem reads_readRecord : Reads d (readRecord kind id) fun stored => stored = (kind.records d).get id := by
  refine reads_fileCall.bind fun _ _ => reads_onDisk.bind fun stored hstored => ?_
  cases stored with
  | none => exact Reads.ret hstored
  | some record =>
    exact reads_fileCall.bind fun _ _ => reads_fileCall.bind fun _ _ => reads_fileCall.bind fun _ _ =>
      Reads.ret hstored

theorem leaves_writeRecord : Leaves d (writeRecord kind id record)
    (fun _ w => (kind.records d).get id = none ∧ w = kind.put id (kind.reread record) d)
    (fun w => w = d ∨ (kind.records d).get id = none ∧ w = kind.put id (kind.reread record) d) := by
  refine reads_require.then (.inl rfl) fun _ _ => reads_fileCall.then (.inl rfl) fun _ _ => ?_
  refine reads_fileCall.then (.inl rfl) fun _ _ => reads_fileCall.then (.inl rfl) fun _ _ => ?_
  refine reads_fileCall.then (.inl rfl) fun _ _ => reads_onDisk.then (.inl rfl) ?_
  rintro stored rfl
  refine reads_ensure.then (.inl rfl) fun _ hnone => ?_
  have hnew := Option.isNone_iff_eq_none.mp hnone
  refine (leaves_changeDisk (Q := fun _ w => w = kind.put id (kind.reread record) d) rfl).bind ?_
  rintro _ w rfl
  refine reads_fileCall.then (.inr ⟨hnew, rfl⟩) fun _ _ => reads_fileCall.then (.inr ⟨hnew, rfl⟩) fun _ _ => ?_
  exact reads_fileCall.leaves (fun _ _ => ⟨hnew, rfl⟩) (.inr ⟨hnew, rfl⟩)

end Calls

end InfiniShell.Effects
