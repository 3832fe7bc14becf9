import Mathlib.Data.List.Infix
import Mathlib.Data.Char
import Mathlib.Algebra.Order.BigOperators.Group.List
import Mathlib.Algebra.GroupWithZero.Nat

namespace InfiniShell.RepoMetadata

/-- A unit of the text of an operating system path: a character, or a sequence of bytes that is none. -/
inductive OsChar where
  | char (c : Char)
  | invalid (first : UInt8) (rest : List UInt8)
deriving DecidableEq

namespace OsChar

def isValid : OsChar → Bool
  | char _ => true
  | invalid _ _ => false

def size : OsChar → Nat
  | char c => c.utf8Size
  | invalid _ rest => rest.length + 1

def lossy : OsChar → OsChar
  | char c => char c
  | invalid _ _ => char '\uFFFD'

theorem size_pos (o : OsChar) : 0 < o.size := by
  cases o with
  | char c => exact c.utf8Size_pos
  | invalid _ rest => exact Nat.succ_pos rest.length

end OsChar

def separator : OsChar := .char '/'

abbrev Name := List OsChar

def currentDir : Name := [.char '.']

def parentDir : Name := [.char '.', .char '.']

def textLen (text : List OsChar) : Nat := (text.map OsChar.size).sum

theorem textLen_append (a b : List OsChar) : textLen (a ++ b) = textLen a + textLen b := by
  rw [textLen, List.map_append, List.sum_append]
  rfl

theorem textLen_pos {text : List OsChar} (h : text ≠ []) : 0 < textLen text := by
  cases text with
  | nil => exact absurd rfl h
  | cons o text =>
    rw [textLen, List.map_cons, List.sum_cons]
    exact Nat.add_pos_left o.size_pos _

theorem prefix_unique {a b text : List OsChar} (ha : a <+: text) (hb : b <+: text) (hlen : textLen a = textLen b) :
    a = b := by
  have hshort : ∀ {a b : List OsChar}, a <+: b → textLen a = textLen b → a = b := by
    rintro a b ⟨rest, rfl⟩ hlen
    rw [textLen_append] at hlen
    cases rest with
    | nil => exact (List.append_nil a).symm
    | cons o rest => exact absurd (textLen_pos (List.cons_ne_nil o rest)) (by omega)
  obtain hab | hba := List.prefix_or_prefix_of_prefix ha hb
  · exact hshort hab hlen
  · exact (hshort hba hlen.symm).symm

structure PathBuf where
  text : List OsChar
deriving DecidableEq

namespace PathBuf

def isAbsolute (path : PathBuf) : Bool := path.text.head? == some separator

def pushComponent (names : List Name) (component : Name) : List Name :=
  if component = [] ∨ component = currentDir then names
  else if component = parentDir then names.dropLast
  else names ++ [component]

/-- The names of the path, without `.` and `..`. -/
def normalize (path : PathBuf) : List Name := (path.text.splitOn separator).foldl pushComponent []

def isUtf8 (path : PathBuf) : Bool := path.text.all OsChar.isValid

def toStringLossy (path : PathBuf) : List OsChar := path.text.map OsChar.lossy

end PathBuf

structure IsName (name : Name) : Prop where
  ne_nil : name ≠ []
  ne_current : name ≠ currentDir
  ne_parent : name ≠ parentDir
  no_separator : separator ∉ name

instance (name : Name) : Decidable (IsName name) :=
  decidable_of_iff (name ≠ [] ∧ name ≠ currentDir ∧ name ≠ parentDir ∧ separator ∉ name)
    ⟨fun h => ⟨h.1, h.2.1, h.2.2.1, h.2.2.2⟩, fun h => ⟨h.ne_nil, h.ne_current, h.ne_parent, h.no_separator⟩⟩

theorem IsName.pushComponent {name : Name} (h : IsName name) (names : List Name) :
    PathBuf.pushComponent names name = names ++ [name] := by
  rw [PathBuf.pushComponent, if_neg (not_or.mpr ⟨h.ne_nil, h.ne_current⟩), if_neg h.ne_parent]

theorem foldl_pushComponent {names : List Name} (h : ∀ name ∈ names, IsName name) (before : List Name) :
    names.foldl PathBuf.pushComponent before = before ++ names := by
  induction names generalizing before with
  | nil => exact (List.append_nil before).symm
  | cons name names ih =>
    obtain ⟨hname, hrest⟩ := List.forall_mem_cons.mp h
    rw [List.foldl_cons, hname.pushComponent, ih hrest, List.append_assoc]
    rfl

theorem foldl_pushComponent_names (p : Name → Prop) {components : List Name}
    (hcomponents : ∀ c ∈ components, c ≠ [] → c ≠ currentDir → c ≠ parentDir → p c)
    {before : List Name} (hbefore : ∀ name ∈ before, p name) :
    ∀ name ∈ components.foldl PathBuf.pushComponent before, p name := by
  induction components generalizing before with
  | nil => exact hbefore
  | cons c components ih =>
    obtain ⟨hc, hrest⟩ := List.forall_mem_cons.mp hcomponents
    rw [List.foldl_cons]
    apply ih hrest
    unfold PathBuf.pushComponent
    split
    next => exact hbefore
    next hkept =>
      split
      next =>
        intro name hname
        exact hbefore name (List.mem_of_mem_dropLast hname)
      next hparent =>
        intro name hname
        obtain hname | hname := List.mem_append.mp hname
        · exact hbefore name hname
        · obtain rfl := List.mem_singleton.mp hname
          exact hc (fun h => hkept (.inl h)) (fun h => hkept (.inr h)) hparent

theorem mem_splitOn {text part : List OsChar} (h : part ∈ text.splitOn separator) :
    separator ∉ part ∧ ∀ o ∈ part, o ∈ text := by
  induction text generalizing part with
  | nil =>
    rw [List.splitOn_nil, List.mem_singleton] at h
    simp [h]
  | cons o text ih =>
    rw [List.splitOn_cons_eq_if_modifyHead] at h
    split at h
    next =>
      obtain rfl | h := List.mem_cons.mp h
      · simp
      · obtain ⟨hsep, hsub⟩ := ih h
        exact ⟨hsep, fun x hx => List.mem_cons_of_mem o (hsub x hx)⟩
    next hne =>
      cases hsplit : text.splitOn separator with
      | nil => exact absurd hsplit (List.splitOn_ne_nil separator text)
      | cons first parts =>
        rw [hsplit, List.modifyHead_cons] at h
        obtain rfl | h := List.mem_cons.mp h
        · obtain ⟨hsep, hsub⟩ := ih (hsplit ▸ List.mem_cons_self)
          constructor
          · intro hmem
            obtain heq | hmem := List.mem_cons.mp hmem
            · exact hne (by rw [← heq, beq_self_eq_true])
            · exact hsep hmem
          · intro x hx
            obtain rfl | hx := List.mem_cons.mp hx
            · exact List.mem_cons_self
            · exact List.mem_cons_of_mem o (hsub x hx)
        · obtain ⟨hsep, hsub⟩ := ih (hsplit ▸ List.mem_cons_of_mem first h)
          exact ⟨hsep, fun x hx => List.mem_cons_of_mem o (hsub x hx)⟩

theorem PathBuf.normalize_names (path : PathBuf) :
    ∀ name ∈ path.normalize, IsName name ∧ ∀ o ∈ name, o ∈ path.text := by
  apply foldl_pushComponent_names
  · intro c hc hnil hcurrent hparent
    obtain ⟨hsep, hsub⟩ := mem_splitOn hc
    exact ⟨⟨hnil, hcurrent, hparent, hsep⟩, hsub⟩
  · intro name hname
    cases hname

/-- An absolute path without `.`, `..` and repeated separators, in UTF-8. -/
structure StandardizedPath where
  names : List Name
  isName : ∀ name ∈ names, IsName name
  isValid : ∀ name ∈ names, ∀ o ∈ name, OsChar.isValid o = true
deriving DecidableEq

namespace StandardizedPath

def asStr (path : StandardizedPath) : List OsChar :=
  if path.names = [] then [separator] else path.names.flatMap (separator :: ·)

def startsWith (path base : StandardizedPath) : Bool := base.names.isPrefixOf path.names

def tryFromLocal (path : PathBuf) : Option StandardizedPath :=
  if h : path.isUtf8 = true ∧ path.isAbsolute = true then
    some {
      names := path.normalize
      isName := fun name hname => (path.normalize_names name hname).1
      isValid := fun name hname o ho => List.all_eq_true.mp h.1 o ((path.normalize_names name hname).2 o ho) }
  else none

/-- A canonicalized path is absolute, so that only a text that is not UTF-8 fails. -/
def fromLocalCanonicalized (canonicalize : PathBuf → Option PathBuf) (path : PathBuf) : Option StandardizedPath := do
  tryFromLocal (← canonicalize path)

theorem tryFromLocal_eq_some_iff {path : PathBuf} {std : StandardizedPath} : tryFromLocal path = some std ↔
    path.isUtf8 = true ∧ path.isAbsolute = true ∧ std.names = path.normalize := by
  unfold tryFromLocal
  split
  next h =>
    rw [Option.some.injEq]
    constructor
    · rintro rfl
      exact ⟨h.1, h.2, rfl⟩
    · rintro ⟨-, -, hnames⟩
      cases std
      cases hnames
      rfl
  next h =>
    constructor
    · intro hsome
      cases hsome
    · rintro ⟨hutf8, habsolute, -⟩
      exact absurd ⟨hutf8, habsolute⟩ h

variable {a b : StandardizedPath}

theorem ext_names (h : a.names = b.names) : a = b := by
  cases a
  cases b
  cases h
  rfl

theorem flatMap_separator (name : Name) (names : List Name) :
    (name :: names).flatMap (separator :: ·) = separator :: [separator].intercalate (name :: names) := by
  induction names generalizing name with
  | nil => simp
  | cons other names ih => rw [List.flatMap_cons, ih, List.intercalate_cons_cons, List.cons_append, List.append_assoc,
      List.singleton_append]

theorem normalize_asStr (path : StandardizedPath) : (⟨path.asStr⟩ : PathBuf).normalize = path.names := by
  obtain ⟨names, hname, -⟩ := path
  cases names with
  | nil => rfl
  | cons name names =>
    have hsplit : ((name :: names).flatMap (separator :: ·)).splitOn separator = [] :: (name :: names) := by
      rw [flatMap_separator, List.splitOn_cons_eq_if_modifyHead, if_pos (beq_self_eq_true separator),
        List.splitOn_intercalate separator (fun l hl => (hname l hl).no_separator) (List.cons_ne_nil name names)]
    unfold PathBuf.normalize asStr
    rw [if_neg (List.cons_ne_nil name names), hsplit, List.foldl_cons, foldl_pushComponent hname]
    rfl

theorem asStr_injective (h : a.asStr = b.asStr) : a = b := by
  apply ext_names
  rw [← a.normalize_asStr, ← b.normalize_asStr, h]

theorem asStr_prefix (h : a.names <+: b.names) : a.asStr <+: b.asStr := by
  unfold asStr
  obtain ⟨rest, hrest⟩ := h
  cases ha : a.names with
  | nil =>
    rw [if_pos rfl]
    cases hb : b.names with
    | nil => exact List.prefix_refl _
    | cons name names =>
      rw [if_neg (List.cons_ne_nil name names), List.flatMap_cons]
      exact ⟨_, rfl⟩
  | cons name names =>
    have hne : b.names ≠ [] := by
      rw [← hrest, ha]
      exact List.cons_ne_nil _ _
    rw [if_neg (List.cons_ne_nil name names), if_neg hne, ← ha, ← hrest, List.flatMap_append]
    exact List.prefix_append _ _

end StandardizedPath

end InfiniShell.RepoMetadata
