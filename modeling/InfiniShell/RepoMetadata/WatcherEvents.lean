import InfiniShell.Collections.AssocMap
import InfiniShell.Collections.LongestMatch
import InfiniShell.RepoMetadata.StandardizedPath

namespace InfiniShell.RepoMetadata

open Collections

/-- What the watcher reports; a move maps the target to the source. -/
structure BulkFilesystemWatcherEvent where
  added : List PathBuf
  modified : List PathBuf
  deleted : List PathBuf
  moved : AssocMap PathBuf PathBuf

namespace BulkFilesystemWatcherEvent

variable (event : BulkFilesystemWatcherEvent)

def addedOrUpdated : List PathBuf := event.added ++ event.modified

def movedTo : List PathBuf := event.moved.entries.map Prod.fst

def movedFrom : List PathBuf := event.moved.entries.map Prod.snd

end BulkFilesystemWatcherEvent

structure RepoUpdate where
  added : List PathBuf := []
  deleted : List PathBuf := []
  moved : AssocMap PathBuf PathBuf := .empty

inductive FileTreeMutation (M : Type) where
  | remove (path : PathBuf)
  | add (mutation : M)

namespace RepoUpdate

variable (update : RepoUpdate)

def pathsToRemove : List PathBuf := update.deleted ++ update.moved.entries.map Prod.snd

def pathsToAdd : List PathBuf := update.added ++ update.moved.entries.map Prod.fst

/-- What is added for a path depends on the file system. The second part are the roots whose watches are dropped. -/
def computeFileTreeMutations {M : Type} (addition : PathBuf → Option M) :
    List (FileTreeMutation M) × List StandardizedPath :=
  (update.pathsToRemove.map .remove ++ (update.pathsToAdd.filterMap addition).map .add,
    update.pathsToRemove.filterMap StandardizedPath.tryFromLocal)

end RepoUpdate

inductive IndexedRepoState (C T E : Type) where
  | pending (condition : C)
  | indexed (state : T)
  | failed (error : E)

def IndexedRepoState.isIndexed {C T E : Type} : IndexedRepoState C T E → Bool
  | .indexed _ => true
  | _ => false

section Roots

variable {C T E : Type} (repositories : AssocMap StandardizedPath (IndexedRepoState C T E))

def longestRoot (test : StandardizedPath → Bool) : Option StandardizedPath :=
  (longestMatch (fun e => textLen e.1.asStr) repositories.entries
    fun e => test e.1 = true ∧ e.2.isIndexed = true).map Prod.fst

def hasRootPrefix (pathStr : List OsChar) (repoPath : StandardizedPath) : Bool := repoPath.asStr.isPrefixOf pathStr

def findRepositoryForPathString (pathStr : List OsChar) : Option StandardizedPath :=
  longestRoot repositories (hasRootPrefix pathStr)

def findRepositoryForStandardizedPath (path : StandardizedPath) : Option StandardizedPath :=
  longestRoot repositories path.startsWith

variable (canonicalize : PathBuf → Option PathBuf)

def findRepositoryForPath (path : PathBuf) : Option StandardizedPath :=
  (StandardizedPath.fromLocalCanonicalized canonicalize path).bind (findRepositoryForStandardizedPath repositories)

def findRepositoryForWatcherEntryPath (path : PathBuf) : Option StandardizedPath :=
  ((StandardizedPath.tryFromLocal path).bind (findRepositoryForStandardizedPath repositories)).or
    (findRepositoryForPath repositories canonicalize path)

variable {repositories}

/-- No two roots that pass have texts of one length. -/
def Distinguished (test : StandardizedPath → Bool) : Prop :=
  ∀ a b, test a = true → test b = true → textLen a.asStr = textLen b.asStr → a = b

def Indexed (repositories : AssocMap StandardizedPath (IndexedRepoState C T E)) (repo : StandardizedPath) : Prop :=
  ∃ state, repositories.get repo = some (.indexed state)

variable {repo : StandardizedPath}

theorem indexed_iff :
    Indexed repositories repo ↔ ∃ e ∈ repositories.entries, e.1 = repo ∧ e.2.isIndexed = true := by
  constructor
  · rintro ⟨state, hget⟩
    exact ⟨(repo, .indexed state), AssocMap.get_eq_some_iff.mp hget, rfl, rfl⟩
  · rintro ⟨⟨root, state⟩, hmem, rfl, hindexed⟩
    cases state with
    | indexed state => exact ⟨state, AssocMap.get_eq_some_iff.mpr hmem⟩
    | pending condition => cases hindexed
    | failed error => cases hindexed

theorem entry_inj {a b : StandardizedPath × IndexedRepoState C T E} (ha : a ∈ repositories.entries)
    (hb : b ∈ repositories.entries) (h : a.1 = b.1) : a = b := by
  obtain ⟨root, state⟩ := a
  obtain ⟨other, state'⟩ := b
  cases h
  have heq := (AssocMap.get_eq_some_iff.mpr ha).symm.trans (AssocMap.get_eq_some_iff.mpr hb)
  rw [Option.some.inj heq]

variable {test : StandardizedPath → Bool}

theorem Distinguished.graded (h : Distinguished test) :
    Graded (fun e : StandardizedPath × IndexedRepoState C T E => textLen e.1.asStr) repositories.entries
      (fun e => test e.1 = true ∧ e.2.isIndexed = true) := by
  intro a b ha hb hpa hpb hlen
  exact entry_inj ha hb (h a.1 b.1 hpa.1 hpb.1 hlen)

theorem longestRoot_eq_some_iff (h : Distinguished test) :
    longestRoot repositories test = some repo ↔ Indexed repositories repo ∧ test repo = true ∧
      ∀ other, Indexed repositories other → test other = true → textLen other.asStr ≤ textLen repo.asStr := by
  unfold longestRoot
  rw [Option.map_eq_some_iff]
  constructor
  · rintro ⟨e, he, rfl⟩
    obtain ⟨hmem, ⟨htest, hindexed⟩, hmax⟩ := longestMatch_spec he
    refine ⟨indexed_iff.mpr ⟨e, hmem, rfl, hindexed⟩, htest, ?_⟩
    intro other hother hpass
    obtain ⟨e', hmem', rfl, hindexed'⟩ := indexed_iff.mp hother
    exact hmax e' hmem' ⟨hpass, hindexed'⟩
  · rintro ⟨hindexed, htest, hmax⟩
    obtain ⟨e, hmem, rfl, hflag⟩ := indexed_iff.mp hindexed
    refine ⟨e, h.graded.longestMatch_iff.mpr ⟨hmem, ⟨htest, hflag⟩, ?_⟩, rfl⟩
    intro e' hmem' hpass
    exact hmax e'.1 (indexed_iff.mpr ⟨e', hmem', rfl, hpass.2⟩) hpass.1

theorem longestRoot_eq_none_iff :
    longestRoot repositories test = none ↔ ∀ repo, Indexed repositories repo → test repo = false := by
  unfold longestRoot
  rw [Option.map_eq_none_iff, longestMatch_eq_none]
  constructor
  · intro h repo hindexed
    obtain ⟨e, hmem, rfl, hflag⟩ := indexed_iff.mp hindexed
    rw [Bool.eq_false_iff]
    exact fun htest => h e hmem ⟨htest, hflag⟩
  · rintro h e hmem ⟨htest, hindexed⟩
    have hfalse := h e.1 (indexed_iff.mpr ⟨e, hmem, rfl, hindexed⟩)
    rw [htest] at hfalse
    cases hfalse

/-- An indexed root that passes one test only is shorter than one that passes both. -/
def SameRoot (repositories : AssocMap StandardizedPath (IndexedRepoState C T E))
    (test test' : StandardizedPath → Bool) : Prop :=
  ∀ repo, Indexed repositories repo → test repo ≠ test' repo → ∃ other, Indexed repositories other ∧
    test other = true ∧ test' other = true ∧ textLen repo.asStr < textLen other.asStr

theorem longestRoot_eq_iff {test test' : StandardizedPath → Bool} (h : Distinguished test) (h' : Distinguished test') :
    longestRoot repositories test = longestRoot repositories test' ↔ SameRoot repositories test test' := by
  have hentries : longestRoot repositories test = longestRoot repositories test' ↔
      longestMatch (fun e => textLen e.1.asStr) repositories.entries (fun e => test e.1 = true ∧ e.2.isIndexed = true) =
        longestMatch (fun e => textLen e.1.asStr) repositories.entries
          (fun e => test' e.1 = true ∧ e.2.isIndexed = true) := by
    unfold longestRoot
    constructor
    · intro heq
      cases hl : longestMatch (fun e => textLen e.1.asStr) repositories.entries
          (fun e => test e.1 = true ∧ e.2.isIndexed = true) with
      | none =>
        rw [hl, Option.map_none, eq_comm, Option.map_eq_none_iff] at heq
        exact heq.symm
      | some e =>
        rw [hl, Option.map_some, eq_comm, Option.map_eq_some_iff] at heq
        obtain ⟨e', he', hroot⟩ := heq
        rw [he', entry_inj (longestMatch_spec hl).1 (longestMatch_spec he').1 hroot.symm]
    · intro heq
      rw [heq]
  rw [hentries, longestMatch_eq_iff h.graded h'.graded]
  constructor
  · intro hsame repo hindexed hne
    obtain ⟨e, hmem, rfl, hflag⟩ := indexed_iff.mp hindexed
    have hone : test e.1 = true ∧ e.2.isIndexed = true ↔ ¬ (test' e.1 = true ∧ e.2.isIndexed = true) := by
      rw [and_iff_left hflag, and_iff_left hflag]
      cases ht : test e.1 <;> cases ht' : test' e.1 <;> simp [ht, ht'] at hne ⊢
    obtain ⟨b, hb, hp, hq, hlt⟩ := hsame e hmem hone
    exact ⟨b.1, indexed_iff.mpr ⟨b, hb, rfl, hp.2⟩, hp.1, hq.1, hlt⟩
  · intro hsame e hmem hone
    change test e.1 = true ∧ e.2.isIndexed = true ↔ ¬ (test' e.1 = true ∧ e.2.isIndexed = true) at hone
    have hindexed : e.2.isIndexed = true := by
      by_cases hindexed : e.2.isIndexed = true
      · exact hindexed
      · exact absurd (hone.mpr fun h => hindexed h.2).2 hindexed
    have hne : test e.1 ≠ test' e.1 := by
      rw [and_iff_left hindexed, and_iff_left hindexed] at hone
      intro heq
      rw [heq] at hone
      exact iff_not_self hone
    obtain ⟨other, hother, hp, hq, hlt⟩ := hsame e.1 (indexed_iff.mpr ⟨e, hmem, rfl, hindexed⟩) hne
    obtain ⟨e', hmem', rfl, hindexed'⟩ := indexed_iff.mp hother
    exact ⟨e', hmem', ⟨hp, hindexed'⟩, ⟨hq, hindexed'⟩, hlt⟩

theorem distinguished_hasRootPrefix (text : List OsChar) : Distinguished (hasRootPrefix text) := by
  intro a b ha hb hlen
  exact StandardizedPath.asStr_injective
    (prefix_unique (List.isPrefixOf_iff_prefix.mp ha) (List.isPrefixOf_iff_prefix.mp hb) hlen)

def PathBuf.isIn (path : PathBuf) (repo : StandardizedPath) : Bool :=
  path.isAbsolute && repo.names.isPrefixOf path.normalize

variable {path : PathBuf}

theorem PathBuf.isIn_iff :
    path.isIn repo = true ↔ path.isAbsolute = true ∧ repo.names <+: path.normalize := by
  rw [isIn, Bool.and_eq_true, List.isPrefixOf_iff_prefix]

theorem textLen_le_iff {a b : StandardizedPath} (ha : path.isIn a = true) (hb : path.isIn b = true) :
    textLen a.asStr ≤ textLen b.asStr ↔ a.names.length ≤ b.names.length := by
  obtain ⟨-, ha⟩ := PathBuf.isIn_iff.mp ha
  obtain ⟨-, hb⟩ := PathBuf.isIn_iff.mp hb
  have hmono : ∀ {a b : StandardizedPath}, a.names <+: b.names → textLen a.asStr ≤ textLen b.asStr := by
    intro a b hab
    obtain ⟨rest, hrest⟩ := StandardizedPath.asStr_prefix hab
    rw [← hrest, textLen_append]
    exact Nat.le_add_right _ _
  obtain hab | hba := List.prefix_or_prefix_of_prefix ha hb
  · exact ⟨fun _ => hab.length_le, fun _ => hmono hab⟩
  · constructor
    · intro hle
      have hlen := Nat.le_antisymm hle (hmono hba)
      have heq := prefix_unique (List.prefix_refl _) (StandardizedPath.asStr_prefix hba) hlen
      rw [StandardizedPath.asStr_injective heq]
    · intro hle
      rw [StandardizedPath.ext_names (hba.eq_of_length (Nat.le_antisymm hba.length_le hle))]

theorem distinguished_isIn (path : PathBuf) : Distinguished path.isIn := by
  intro a b ha hb hlen
  obtain ⟨-, hpa⟩ := PathBuf.isIn_iff.mp ha
  obtain ⟨-, hpb⟩ := PathBuf.isIn_iff.mp hb
  apply StandardizedPath.ext_names
  obtain hab | hba := List.prefix_or_prefix_of_prefix hpa hpb
  · exact hab.eq_of_length (Nat.le_antisymm hab.length_le ((textLen_le_iff hb ha).mp (Nat.le_of_eq hlen.symm)))
  · exact (hba.eq_of_length (Nat.le_antisymm hba.length_le ((textLen_le_iff ha hb).mp (Nat.le_of_eq hlen)))).symm

def DeepestRepo (repositories : AssocMap StandardizedPath (IndexedRepoState C T E)) (path : PathBuf)
    (repo : StandardizedPath) : Prop :=
  Indexed repositories repo ∧ path.isIn repo = true ∧
    ∀ other, Indexed repositories other → path.isIn other = true → other.names.length ≤ repo.names.length

theorem deepestRepo_iff :
    DeepestRepo repositories path repo ↔ longestRoot repositories path.isIn = some repo := by
  rw [longestRoot_eq_some_iff (distinguished_isIn path)]
  constructor
  · rintro ⟨hindexed, hin, hmax⟩
    exact ⟨hindexed, hin, fun other hother hoin => (textLen_le_iff hoin hin).mpr (hmax other hother hoin)⟩
  · rintro ⟨hindexed, hin, hmax⟩
    exact ⟨hindexed, hin, fun other hother hoin => (textLen_le_iff hoin hin).mp (hmax other hother hoin)⟩

/-- How an added path is looked up if canonicalization changes nothing. -/
def entryTest (path : PathBuf) (repo : StandardizedPath) : Bool := path.isUtf8 && path.isIn repo

theorem findRepositoryForWatcherEntryPath_eq (path : PathBuf) :
    findRepositoryForWatcherEntryPath repositories some path = longestRoot repositories (entryTest path) := by
  have hlookup : (StandardizedPath.tryFromLocal path).bind (findRepositoryForStandardizedPath repositories) =
      longestRoot repositories (entryTest path) := by
    cases hstd : StandardizedPath.tryFromLocal path with
    | some std =>
      obtain ⟨hutf8, habsolute, hnames⟩ := StandardizedPath.tryFromLocal_eq_some_iff.mp hstd
      have htest : entryTest path = std.startsWith := by
        funext repo
        rw [entryTest, PathBuf.isIn, hutf8, habsolute, StandardizedPath.startsWith, hnames]
        rfl
      rw [htest]
      rfl
    | none =>
      rw [Option.bind_none, eq_comm, longestRoot_eq_none_iff]
      intro repo _
      rw [entryTest, PathBuf.isIn]
      cases hutf8 : path.isUtf8 with
      | false => rfl
      | true =>
        cases habsolute : path.isAbsolute with
        | false => rfl
        | true =>
          rw [StandardizedPath.tryFromLocal, dif_pos ⟨hutf8, habsolute⟩] at hstd
          cases hstd
  rw [findRepositoryForWatcherEntryPath, hlookup]
  change (longestRoot repositories (entryTest path)).or
    ((StandardizedPath.tryFromLocal path).bind (findRepositoryForStandardizedPath repositories)) = _
  rw [hlookup]
  cases longestRoot repositories (entryTest path) <;> rfl

theorem distinguished_entryTest (path : PathBuf) : Distinguished (entryTest path) := by
  intro a b ha hb
  exact distinguished_isIn path a b (Bool.and_eq_true_iff.mp ha).2 (Bool.and_eq_true_iff.mp hb).2

end Roots

section Updates

abbrev RepoUpdates := AssocMap StandardizedPath RepoUpdate

def RepoUpdates.entry (updates : RepoUpdates) (repo : StandardizedPath) : RepoUpdate := (updates.get repo).getD {}

def RepoUpdates.record {α : Type} (find : α → Option StandardizedPath) (push : α → RepoUpdate → RepoUpdate)
    (updates : RepoUpdates) (item : α) : RepoUpdates :=
  match find item with
  | none => updates
  | some repo => updates.insert repo (push item (updates.entry repo))

def pushAdded (path : PathBuf) (update : RepoUpdate) : RepoUpdate := { update with added := update.added ++ [path] }

def pushDeleted (path : PathBuf) (update : RepoUpdate) : RepoUpdate :=
  { update with deleted := update.deleted ++ [path] }

def insertMoved (move : PathBuf × PathBuf) (update : RepoUpdate) : RepoUpdate :=
  { update with moved := update.moved.insert move.1 move.2 }

theorem RepoUpdates.entry_insert (updates : RepoUpdates) (repo other : StandardizedPath) (update : RepoUpdate) :
    (RepoUpdates.entry (updates.insert repo update) other) = if other = repo then update else updates.entry other := by
  rw [entry, AssocMap.get_insert]
  split
  next => rfl
  next => rfl

theorem RepoUpdates.entry_foldl {α : Type} (find : α → Option StandardizedPath) (push : α → RepoUpdate → RepoUpdate)
    (items : List α) (updates : RepoUpdates) (repo : StandardizedPath) :
    RepoUpdates.entry (items.foldl (record find push) updates) repo =
      (items.filter fun item => find item = some repo).foldl (fun update item => push item update)
        (updates.entry repo) := by
  induction items generalizing updates with
  | nil => rfl
  | cons item items ih =>
    rw [List.foldl_cons, ih]
    unfold record
    cases hfind : find item with
    | none => rw [List.filter_cons_of_neg (by simp [hfind])]
    | some other =>
      simp only
      rw [entry_insert]
      by_cases heq : repo = other
      · rw [if_pos heq, List.filter_cons_of_pos (by simp [hfind, heq]), List.foldl_cons, heq]
      · rw [if_neg heq, List.filter_cons_of_neg (by simp [hfind, Ne.symm heq])]

theorem foldl_pushAdded (paths : List PathBuf) (update : RepoUpdate) :
    paths.foldl (fun update path => pushAdded path update) update = { update with added := update.added ++ paths } := by
  induction paths generalizing update with
  | nil => simp
  | cons path paths ih =>
    rw [List.foldl_cons, ih]
    simp [pushAdded]

theorem foldl_pushDeleted (paths : List PathBuf) (update : RepoUpdate) :
    paths.foldl (fun update path => pushDeleted path update) update =
      { update with deleted := update.deleted ++ paths } := by
  induction paths generalizing update with
  | nil => simp
  | cons path paths ih =>
    rw [List.foldl_cons, ih]
    simp [pushDeleted]

theorem foldl_insertMoved (moves : List (PathBuf × PathBuf)) (update : RepoUpdate)
    (hnodup : ((update.moved.entries ++ moves).map Prod.fst).Nodup) :
    (moves.foldl (fun update move => insertMoved move update) update).added = update.added ∧
      (moves.foldl (fun update move => insertMoved move update) update).deleted = update.deleted ∧
        (moves.foldl (fun update move => insertMoved move update) update).moved.entries =
          update.moved.entries ++ moves := by
  induction moves generalizing update with
  | nil => simp
  | cons move moves ih =>
    have hnew : move.1 ∉ update.moved.entries.map Prod.fst := by
      intro hmem
      rw [List.map_append, List.nodup_append] at hnodup
      exact hnodup.2.2 move.1 hmem move.1 List.mem_cons_self rfl
    have hentries : (insertMoved move update).moved.entries = update.moved.entries ++ [move] :=
      AssocMap.put_of_not_mem hnew move.2
    obtain ⟨hadded, hdeleted, hmoved⟩ := ih (insertMoved move update) (by
      rw [hentries, List.append_assoc]
      exact hnodup)
    rw [List.foldl_cons]
    refine ⟨hadded, hdeleted, ?_⟩
    rw [hmoved, hentries, List.append_assoc]
    rfl

end Updates

section Handler

variable {C T E : Type} (repositories : AssocMap StandardizedPath (IndexedRepoState C T E))
  (canonicalize : PathBuf → Option PathBuf) (event : BulkFilesystemWatcherEvent)

def collectRepoUpdates : RepoUpdates :=
  let updates := event.addedOrUpdated.foldl
    (RepoUpdates.record (findRepositoryForWatcherEntryPath repositories canonicalize) pushAdded) .empty
  let updates := event.deleted.foldl
    (RepoUpdates.record (fun path => findRepositoryForPathString repositories path.toStringLossy) pushDeleted) updates
  event.moved.entries.foldl
    (RepoUpdates.record (fun move => findRepositoryForWatcherEntryPath repositories canonicalize move.1) insertMoved)
    updates

structure WatcherOutcome where
  fileTreeUpdated : List StandardizedPath
  /-- The updates of which a task computes the mutations. -/
  spawned : List (StandardizedPath × RepoUpdate)

def handleWatcherEvent : WatcherOutcome :=
  let updates := collectRepoUpdates repositories canonicalize event
  { fileTreeUpdated := updates.entries.map Prod.fst
    spawned := updates.entries.filter fun e => (repositories.get e.1).any IndexedRepoState.isIndexed }

theorem collectRepoUpdates_entry (repo : StandardizedPath) :
    ((collectRepoUpdates repositories some event).entry repo).added = event.addedOrUpdated.filter
        (fun path => longestRoot repositories (entryTest path) = some repo) ∧
      ((collectRepoUpdates repositories some event).entry repo).deleted = event.deleted.filter
        (fun path => longestRoot repositories (hasRootPrefix path.toStringLossy) = some repo) ∧
      ((collectRepoUpdates repositories some event).entry repo).moved.entries = event.moved.entries.filter
        (fun move => longestRoot repositories (entryTest move.1) = some repo) := by
  unfold collectRepoUpdates
  simp only [RepoUpdates.entry_foldl, findRepositoryForWatcherEntryPath_eq, foldl_pushAdded, foldl_pushDeleted]
  have hnodup : ((event.moved.entries.filter
      fun move => longestRoot repositories (entryTest move.1) = some repo).map Prod.fst).Nodup :=
    AssocMap.nodup_filter _ event.moved.nodup
  obtain ⟨hadded, hdeleted, hmoved⟩ := foldl_insertMoved (event.moved.entries.filter
    fun move => longestRoot repositories (entryTest move.1) = some repo)
    { added := event.addedOrUpdated.filter fun path => longestRoot repositories (entryTest path) = some repo
      deleted := event.deleted.filter
        fun path => longestRoot repositories (hasRootPrefix path.toStringLossy) = some repo } hnodup
  exact ⟨hadded, hdeleted, hmoved⟩

variable {repositories event}

def RepoUpdates.Keyed (repositories : AssocMap StandardizedPath (IndexedRepoState C T E)) (updates : RepoUpdates) :
    Prop :=
  ∀ repo update, updates.get repo = some update → Indexed repositories repo

theorem RepoUpdates.Keyed.foldl {α : Type} {find : α → Option StandardizedPath} (push : α → RepoUpdate → RepoUpdate)
    (hfind : ∀ item repo, find item = some repo → Indexed repositories repo) (items : List α) {updates : RepoUpdates}
    (h : updates.Keyed repositories) : RepoUpdates.Keyed repositories (items.foldl (record find push) updates) := by
  induction items generalizing updates with
  | nil => exact h
  | cons item items ih =>
    rw [List.foldl_cons]
    apply ih
    intro other value hother
    unfold record at hother
    cases hitem : find item with
    | none =>
      rw [hitem] at hother
      exact h other value hother
    | some found =>
      rw [hitem] at hother
      obtain ⟨rfl, -⟩ | hother := AssocMap.get_insert_cases hother
      · exact hfind item _ hitem
      · exact h other value hother

variable {test : StandardizedPath → Bool} {repo : StandardizedPath}

theorem longestRoot_indexed (h : Distinguished test)
    (hroot : longestRoot repositories test = some repo) : Indexed repositories repo :=
  ((longestRoot_eq_some_iff h).mp hroot).1

theorem collectRepoUpdates_keyed : (collectRepoUpdates repositories some event).Keyed repositories := by
  have hentry : ∀ path repo, findRepositoryForWatcherEntryPath repositories some path = some repo →
      Indexed repositories repo := by
    intro path repo hfind
    rw [findRepositoryForWatcherEntryPath_eq] at hfind
    exact longestRoot_indexed (distinguished_entryTest path) hfind
  have hempty : RepoUpdates.Keyed repositories .empty := by
    intro repo update hget
    cases hget
  have hadded := hempty.foldl pushAdded hentry event.addedOrUpdated
  have hdeleted := hadded.foldl pushDeleted
    (fun path repo => longestRoot_indexed (distinguished_hasRootPrefix path.toStringLossy)) event.deleted
  exact hdeleted.foldl insertMoved (fun move => hentry move.1) event.moved.entries

variable (repositories event)

def SchedulesAddition (repo : StandardizedPath) (path : PathBuf) : Prop :=
  ∃ update, (repo, update) ∈ (handleWatcherEvent repositories some event).spawned ∧ path ∈ update.pathsToAdd

def SchedulesRemoval (repo : StandardizedPath) (path : PathBuf) : Prop :=
  ∃ update, (repo, update) ∈ (handleWatcherEvent repositories some event).spawned ∧ path ∈ update.pathsToRemove

variable {repositories event}

theorem mem_spawned_iff {update : RepoUpdate} :
    (repo, update) ∈ (handleWatcherEvent repositories some event).spawned ↔
      (collectRepoUpdates repositories some event).get repo = some update := by
  rw [handleWatcherEvent, List.mem_filter, ← AssocMap.get_eq_some_iff, and_iff_left_iff_imp]
  intro hget
  obtain ⟨state, hstate⟩ := collectRepoUpdates_keyed repo update hget
  simp only [hstate]
  rfl

variable {path : PathBuf}

theorem exists_spawned_iff (list : RepoUpdate → List PathBuf) (hempty : list {} = []) :
    (∃ update, (repo, update) ∈ (handleWatcherEvent repositories some event).spawned ∧ path ∈ list update) ↔
      path ∈ list ((collectRepoUpdates repositories some event).entry repo) := by
  unfold RepoUpdates.entry
  constructor
  · rintro ⟨update, hmem, hpath⟩
    rw [mem_spawned_iff.mp hmem]
    exact hpath
  · intro hpath
    cases hget : (collectRepoUpdates repositories some event).get repo with
    | some update =>
      rw [hget] at hpath
      exact ⟨update, mem_spawned_iff.mpr hget, hpath⟩
    | none =>
      rw [hget, Option.getD_none, hempty] at hpath
      cases hpath

theorem schedulesAddition_iff :
    SchedulesAddition repositories event repo path ↔ (path ∈ event.addedOrUpdated ∨ path ∈ event.movedTo) ∧
      longestRoot repositories (entryTest path) = some repo := by
  obtain ⟨hadded, -, hmoved⟩ := collectRepoUpdates_entry repositories event repo
  rw [SchedulesAddition, exists_spawned_iff RepoUpdate.pathsToAdd rfl, RepoUpdate.pathsToAdd, hadded, hmoved,
    BulkFilesystemWatcherEvent.movedTo]
  constructor
  · intro hmem
    obtain hmem | hmem := List.mem_append.mp hmem
    · obtain ⟨hmem, hroot⟩ := List.mem_filter.mp hmem
      exact ⟨.inl hmem, of_decide_eq_true hroot⟩
    · obtain ⟨move, hmove, rfl⟩ := List.mem_map.mp hmem
      obtain ⟨hmove, hroot⟩ := List.mem_filter.mp hmove
      exact ⟨.inr (List.mem_map_of_mem hmove), of_decide_eq_true hroot⟩
  · rintro ⟨hmem | hmem, hroot⟩
    · exact List.mem_append_left _ (List.mem_filter.mpr ⟨hmem, decide_eq_true hroot⟩)
    · obtain ⟨move, hmove, rfl⟩ := List.mem_map.mp hmem
      exact List.mem_append_right _ (List.mem_map_of_mem (List.mem_filter.mpr ⟨hmove, decide_eq_true hroot⟩))

/-- The tests by which a removed path is looked up: the text of a deleted path, the target of a move. -/
inductive RemovalTest (event : BulkFilesystemWatcherEvent) (path : PathBuf) : (StandardizedPath → Bool) → Prop
  | deleted (h : path ∈ event.deleted) : RemovalTest event path (hasRootPrefix path.toStringLossy)
  | moved (target : PathBuf) (h : (target, path) ∈ event.moved.entries) : RemovalTest event path (entryTest target)

theorem RemovalTest.distinguished (h : RemovalTest event path test) : Distinguished test := by
  cases h with
  | deleted _ => exact distinguished_hasRootPrefix _
  | moved target _ => exact distinguished_entryTest target

theorem RemovalTest.removed (h : RemovalTest event path test) :
    path ∈ event.deleted ∨ path ∈ event.movedFrom := by
  cases h with
  | deleted h => exact .inl h
  | moved target h => exact .inr (List.mem_map.mpr ⟨(target, path), h, rfl⟩)

theorem schedulesRemoval_iff : SchedulesRemoval repositories event repo path ↔
      ∃ test, RemovalTest event path test ∧ longestRoot repositories test = some repo := by
  obtain ⟨-, hdeleted, hmoved⟩ := collectRepoUpdates_entry repositories event repo
  rw [SchedulesRemoval, exists_spawned_iff RepoUpdate.pathsToRemove rfl, RepoUpdate.pathsToRemove, hdeleted, hmoved]
  constructor
  · intro hmem
    obtain hmem | hmem := List.mem_append.mp hmem
    · obtain ⟨hmem, hroot⟩ := List.mem_filter.mp hmem
      exact ⟨_, .deleted hmem, of_decide_eq_true hroot⟩
    · obtain ⟨⟨target, source⟩, hmove, rfl⟩ := List.mem_map.mp hmem
      obtain ⟨hmove, hroot⟩ := List.mem_filter.mp hmove
      exact ⟨_, .moved target hmove, of_decide_eq_true hroot⟩
  · rintro ⟨test, htest, hroot⟩
    cases htest with
    | deleted h => exact List.mem_append_left _ (List.mem_filter.mpr ⟨h, decide_eq_true hroot⟩)
    | moved target h =>
      exact List.mem_append_right _ (List.mem_map.mpr ⟨(target, path), List.mem_filter.mpr ⟨h, decide_eq_true hroot⟩, rfl⟩)

variable (repositories event)

/-- Additions and removals are scheduled in the repository that holds the path, and nothing else is. -/
def ReachesTrees : Prop :=
  ∀ repo path, (SchedulesAddition repositories event repo path ↔
      (path ∈ event.addedOrUpdated ∨ path ∈ event.movedTo) ∧ DeepestRepo repositories path repo) ∧
    (SchedulesRemoval repositories event repo path ↔
      (path ∈ event.deleted ∨ path ∈ event.movedFrom) ∧ DeepestRepo repositories path repo)

def AdditionsReadable : Prop :=
  ∀ path, path ∈ event.addedOrUpdated ∨ path ∈ event.movedTo →
    path.isUtf8 = true ∨ ∀ repo, Indexed repositories repo → path.isIn repo = false

/-- Each test of a removed path fails everywhere or finds the repository of the path, and one does so if there is a
repository. -/
def RemovalsAlike : Prop :=
  ∀ path, path ∈ event.deleted ∨ path ∈ event.movedFrom →
    (∀ test, RemovalTest event path test →
      (∀ repo, Indexed repositories repo → test repo = false) ∨ SameRoot repositories test path.isIn) ∧
    ((∃ repo, Indexed repositories repo ∧ path.isIn repo = true) →
      ∃ test, RemovalTest event path test ∧ SameRoot repositories test path.isIn)

variable {repositories event}

theorem additions_iff : AdditionsReadable repositories event ↔ ∀ repo path,
    (SchedulesAddition repositories event repo path ↔
      (path ∈ event.addedOrUpdated ∨ path ∈ event.movedTo) ∧ DeepestRepo repositories path repo) := by
  have hutf8 : ∀ {path : PathBuf}, path.isUtf8 = true → entryTest path = path.isIn := by
    intro path hutf8
    funext repo
    rw [entryTest, hutf8, Bool.true_and]
  constructor
  · intro hreadable repo path
    rw [schedulesAddition_iff, deepestRepo_iff]
    apply and_congr_right
    intro hadded
    obtain hvalid | houtside := hreadable path hadded
    · rw [hutf8 hvalid]
    · rw [longestRoot_eq_none_iff.mpr houtside, longestRoot_eq_none_iff.mpr]
      intro other hother
      rw [entryTest, houtside other hother, Bool.and_false]
  · intro hall path hadded
    cases hvalid : path.isUtf8 with
    | true => exact .inl rfl
    | false =>
      right
      rw [← longestRoot_eq_none_iff, Option.eq_none_iff_forall_ne_some]
      intro repo hrepo
      have hscheduled := (hall repo path).mpr ⟨hadded, deepestRepo_iff.mpr hrepo⟩
      have hnone : longestRoot repositories (entryTest path) = none := by
        rw [longestRoot_eq_none_iff]
        intro other _
        rw [entryTest, hvalid, Bool.false_and]
      rw [schedulesAddition_iff, hnone] at hscheduled
      cases hscheduled.2

theorem removals_iff : RemovalsAlike repositories event ↔ ∀ repo path,
    (SchedulesRemoval repositories event repo path ↔
      (path ∈ event.deleted ∨ path ∈ event.movedFrom) ∧ DeepestRepo repositories path repo) := by
  constructor
  · intro halike repo path
    rw [schedulesRemoval_iff, deepestRepo_iff]
    constructor
    · rintro ⟨test, htest, hroot⟩
      refine ⟨htest.removed, ?_⟩
      obtain hnever | hsame := (halike path htest.removed).1 test htest
      · rw [longestRoot_eq_none_iff.mpr hnever] at hroot
        cases hroot
      · rw [← (longestRoot_eq_iff htest.distinguished (distinguished_isIn path)).mpr hsame, hroot]
    · rintro ⟨hremoved, hroot⟩
      obtain ⟨hindexed, hin, -⟩ := (longestRoot_eq_some_iff (distinguished_isIn path)).mp hroot
      obtain ⟨test, htest, hsame⟩ := (halike path hremoved).2 ⟨repo, hindexed, hin⟩
      exact ⟨test, htest,
        ((longestRoot_eq_iff htest.distinguished (distinguished_isIn path)).mpr hsame).trans hroot⟩
  · intro hall path hremoved
    constructor
    · intro test htest
      cases hroot : longestRoot repositories test with
      | none => exact .inl (longestRoot_eq_none_iff.mp hroot)
      | some repo =>
        right
        have hdeepest := ((hall repo path).mp (schedulesRemoval_iff.mpr ⟨test, htest, hroot⟩)).2
        rw [← longestRoot_eq_iff htest.distinguished (distinguished_isIn path), hroot, deepestRepo_iff.mp hdeepest]
    · rintro ⟨held, hheld, hin⟩
      cases hroot : longestRoot repositories path.isIn with
      | none =>
        rw [longestRoot_eq_none_iff.mp hroot held hheld] at hin
        cases hin
      | some repo =>
        have hscheduled := (hall repo path).mpr ⟨hremoved, deepestRepo_iff.mpr hroot⟩
        obtain ⟨test, htest, hfound⟩ := schedulesRemoval_iff.mp hscheduled
        exact ⟨test, htest, (longestRoot_eq_iff htest.distinguished (distinguished_isIn path)).mp (hfound.trans hroot.symm)⟩

/-- The changes of an event reach the trees exactly if added paths are readable, and the tests of a removed path find
its own repository. -/
theorem watcher_changes_reach_iff (C T E : Type) (repositories : AssocMap StandardizedPath (IndexedRepoState C T E))
    (event : BulkFilesystemWatcherEvent) : ReachesTrees repositories event ↔
      AdditionsReadable repositories event ∧ RemovalsAlike repositories event := by
  rw [additions_iff, removals_iff]
  constructor
  · intro h
    exact ⟨fun repo path => (h repo path).1, fun repo path => (h repo path).2⟩
  · rintro ⟨hadd, hremove⟩ repo path
    exact ⟨hadd repo path, hremove repo path⟩

end Handler

def PathBuf.ofString (text : String) : PathBuf := ⟨text.toList.map .char⟩

def outerRepo : StandardizedPath := ⟨[[.char 'r']], by decide, by decide⟩

def innerRepo : StandardizedPath := ⟨[[.char 'r'], [.char 'a']], by decide, by decide⟩

def nestedRepos : AssocMap StandardizedPath (IndexedRepoState Unit Unit Unit) :=
  ⟨[(outerRepo, .indexed ()), (innerRepo, .indexed ())], by decide⟩

def siblingDeleted : BulkFilesystemWatcherEvent := ⟨[], [], [.ofString "/r/ab"], .empty⟩

def movedOut : BulkFilesystemWatcherEvent := ⟨[], [], [], ⟨[(.ofString "/elsewhere", .ofString "/r/f")], by decide⟩⟩

/-- A deleted path whose text extends a sibling root, and a move out of the only repository. -/
theorem watcher_changes_lost : ¬ ReachesTrees nestedRepos siblingDeleted ∧ ¬ ReachesTrees nestedRepos movedOut := by
  have hnever : ∀ (event : BulkFilesystemWatcherEvent) (path : PathBuf),
      (path ∈ event.deleted ∨ path ∈ event.movedFrom) → path.isIn outerRepo = true → path.isIn innerRepo = false →
      (handleWatcherEvent nestedRepos some event).spawned.all (fun e => e.1 ≠ outerRepo) = true →
        ¬ ReachesTrees nestedRepos event := by
    intro event path hremoved hin hout hspawned hreaches
    have hdeepest : DeepestRepo nestedRepos path outerRepo := by
      refine ⟨⟨(), rfl⟩, hin, ?_⟩
      intro other hother hoin
      obtain ⟨e, hmem, rfl, -⟩ := indexed_iff.mp hother
      obtain rfl | hmem := List.mem_cons.mp hmem
      · exact Nat.le_refl _
      · obtain rfl := List.mem_singleton.mp hmem
        rw [hout] at hoin
        cases hoin
    obtain ⟨update, hmem, -⟩ := ((hreaches outerRepo path).2).mpr ⟨hremoved, hdeepest⟩
    exact of_decide_eq_true (List.all_eq_true.mp hspawned _ hmem) rfl
  constructor
  · exact hnever _ (.ofString "/r/ab") (by decide +kernel) (by decide +kernel) (by decide +kernel) (by decide +kernel)
  · exact hnever _ (.ofString "/r/f") (by decide +kernel) (by decide +kernel) (by decide +kernel) (by decide +kernel)

end InfiniShell.RepoMetadata
