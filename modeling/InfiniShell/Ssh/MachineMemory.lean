import InfiniShell.Ssh.Types

namespace InfiniShell.Ssh

open Collections Sync

def maxMemoryChars : Nat := 16000

structure MachineMemory where
  machineKey : String
  content : String
  hostnameAlias : Option String
  sshNodeId : Option String
  lastReviewAt : Option Int
  updatedAt : Int
  deletedAt : Option Int
  deriving DecidableEq

def truncateContent (content : String) : String := String.ofList (content.toList.take maxMemoryChars)

def compareMachineMemories (a b : MachineMemory) : Ordering :=
  (compare a.updatedAt b.updatedAt).then <|
    (compare a.deletedAt.isSome b.deletedAt.isSome).then <|
      (compare a.deletedAt b.deletedAt).then <|
        (compare a.hostnameAlias b.hostnameAlias).then <|
          (compare a.sshNodeId b.sshNodeId).then <|
            (compare a.lastReviewAt b.lastReviewAt).then <|
              compare a.content b.content

abbrev MemoryMap := BTreeMap String MachineMemory

def byKey (memories : List MachineMemory) : MemoryMap :=
  BTreeMap.ofList (memories.map fun memory => (memory.machineKey, memory))

/-! Local writes -/

def newMemory (machineKey content : String) (now : Int) (deletedAt : Option Int) : MachineMemory where
  machineKey
  content
  hostnameAlias := none
  sshNodeId := none
  lastReviewAt := none
  updatedAt := now
  deletedAt

def upsertContent (machineKey content : String) (now : Int) (memories : MemoryMap) : MemoryMap :=
  let content := truncateContent content
  memories.insert machineKey <|
    match memories.get machineKey with
    | some row => { row with content, updatedAt := now, deletedAt := none }
    | none => newMemory machineKey content now none

def deleteMemory (machineKey : String) (now : Int) (memories : MemoryMap) : MemoryMap :=
  memories.insert machineKey <|
    match memories.get machineKey with
    | some row => { row with content := "", updatedAt := now, deletedAt := some now }
    | none => newMemory machineKey "" now (some now)

def setHostnameAlias (machineKey alias' : String) (now : Int) (memories : MemoryMap) : MemoryMap :=
  let row := (memories.get machineKey).getD (newMemory machineKey "" now none)
  memories.insert machineKey { row with hostnameAlias := some alias', updatedAt := now }

def setLastReviewAt (machineKey : String) (at' now : Int) (memories : MemoryMap) : MemoryMap :=
  let row := (memories.get machineKey).getD (newMemory machineKey "" now none)
  memories.insert machineKey { row with lastReviewAt := some at', updatedAt := now }

inductive LocalWrite where
  | upsertContent (machineKey content : String) (now : Int)
  | delete (machineKey : String) (now : Int)
  | setHostnameAlias (machineKey alias' : String) (now : Int)
  | setLastReviewAt (machineKey : String) (at' now : Int)

def LocalWrite.apply : LocalWrite → MemoryMap → MemoryMap
  | .upsertContent machineKey content now => Ssh.upsertContent machineKey content now
  | .delete machineKey now => deleteMemory machineKey now
  | .setHostnameAlias machineKey alias' now => Ssh.setHostnameAlias machineKey alias' now
  | .setLastReviewAt machineKey at' now => Ssh.setLastReviewAt machineKey at' now

def LocalWrite.machineKey : LocalWrite → String
  | .upsertContent machineKey _ _ => machineKey
  | .delete machineKey _ => machineKey
  | .setHostnameAlias machineKey _ _ => machineKey
  | .setLastReviewAt machineKey _ _ => machineKey

def LocalWrite.now : LocalWrite → Int
  | .upsertContent _ _ now => now
  | .delete _ now => now
  | .setHostnameAlias _ _ now => now
  | .setLastReviewAt _ _ now => now

def LocalWrite.Newer (write : LocalWrite) (memories : MemoryMap) : Prop :=
  ∀ row ∈ memories.get write.machineKey, row.updatedAt < write.now

instance (write : LocalWrite) (memories : MemoryMap) : Decidable (write.Newer memories) :=
  inferInstanceAs (Decidable (∀ row ∈ memories.get write.machineKey, row.updatedAt < write.now))

/-! The merge -/

def mergeEntry (merged : MemoryMap) (entry : String × MachineMemory) : MemoryMap :=
  match merged.get entry.1 with
  | some localMemory =>
    if (compareMachineMemories entry.2 localMemory).isGT then merged.insert entry.1 entry.2 else merged
  | none => merged.insert entry.1 entry.2

def mergeMachineMemories (locals remotes : List MachineMemory) :
    List MachineMemory × ApplyDataOutcome :=
  let localByKey := byKey locals
  let remoteByKey := byKey remotes
  let merged := remoteByKey.entries.foldl mergeEntry localByKey
  (merged.values,
    { localChanged := decide (merged ≠ localByKey), needsUpload := decide (merged ≠ remoteByKey) })

/-! The order of the merge -/

theorem compareMachineMemories_eq : compareMachineMemories = compareLex (compareOn MachineMemory.updatedAt)
    (compareLex (compareOn fun m => m.deletedAt.isSome)
      (compareLex (compareOn MachineMemory.deletedAt)
        (compareLex (compareOn MachineMemory.hostnameAlias)
          (compareLex (compareOn MachineMemory.sshNodeId)
            (compareLex (compareOn MachineMemory.lastReviewAt) (compareOn MachineMemory.content)))))) :=
  rfl

instance : Std.TransCmp compareMachineMemories := by
  rw [compareMachineMemories_eq]
  infer_instance

variable {a b : MachineMemory}

theorem eq_of_compareMachineMemories (hkey : a.machineKey = b.machineKey)
    (h : compareMachineMemories a b = .eq) : a = b := by
  simp only [compareMachineMemories, Ordering.then_eq_eq, Std.LawfulEqCmp.compare_eq_iff_eq] at h
  obtain ⟨hu, -, hd, hh, hs, hl, hc⟩ := h
  cases a
  cases b
  simp_all

def memoryOrder (a b : MachineMemory) : Ordering :=
  (compareMachineMemories a b).then (compare a.machineKey b.machineKey)

instance : Std.TransCmp memoryOrder :=
  inferInstanceAs (Std.TransCmp (compareLex compareMachineMemories (compareOn MachineMemory.machineKey)))

theorem eq_of_memoryOrder (h : memoryOrder a b = .eq) : a = b := by
  simp only [memoryOrder, Ordering.then_eq_eq, Std.LawfulEqCmp.compare_eq_iff_eq] at h
  exact eq_of_compareMachineMemories h.2 h.1

instance : LinearOrder MachineMemory where
  le a b := (memoryOrder a b).isLE
  le_refl a := by simp [Std.ReflCmp.compare_self]
  le_trans _ _ _ hab hbc := Std.TransCmp.isLE_trans hab hbc
  le_antisymm a b hab hba := by
    have hsymm : memoryOrder a b = (memoryOrder b a).swap := Std.OrientedCmp.eq_swap
    apply eq_of_memoryOrder
    cases h : memoryOrder b a <;> simp_all
  le_total a b := by
    have hsymm : memoryOrder a b = (memoryOrder b a).swap := Std.OrientedCmp.eq_swap
    cases h : memoryOrder b a <;> simp_all
  toDecidableLE a b := inferInstanceAs (Decidable ((memoryOrder a b).isLE = true))

theorem le_iff_compare (hkey : a.machineKey = b.machineKey) : a ≤ b ↔ compareMachineMemories a b ≠ .gt := by
  have hle : a ≤ b ↔ (memoryOrder a b).isLE = true := Iff.rfl
  have hself : compare b.machineKey b.machineKey = .eq := Std.ReflCmp.compare_self
  rw [hle, memoryOrder, hkey, hself]
  cases compareMachineMemories a b <;> simp

theorem lt_iff_compare (hkey : a.machineKey = b.machineKey) :
    a < b ↔ (compareMachineMemories b a).isGT = true := by
  rw [← not_le, le_iff_compare hkey.symm]
  cases compareMachineMemories b a <;> simp

def Keyed (m : MemoryMap) : Prop := ∀ k v, m.get k = some v → v.machineKey = k

variable {m : MemoryMap}

theorem Keyed.insert (h : Keyed m) (v : MachineMemory) : Keyed (m.insert v.machineKey v) := by
  intro k w hw
  rw [BTreeMap.get_insert] at hw
  split at hw
  · simp_all
  · exact h k w hw

theorem byKey_keyed (memories : List MachineMemory) : Keyed (byKey memories) := by
  have hfold : ∀ (l : List MachineMemory) (m : MemoryMap), Keyed m →
      Keyed ((l.map fun v => (v.machineKey, v)).foldl (fun m e => m.insert e.1 e.2) m) := by
    intro l
    induction l with
    | nil => exact fun _ h => h
    | cons v l ih => exact fun m h => ih _ (h.insert v)
  exact hfold memories _ (fun k v h => by simp at h)

variable {e : String × MachineMemory}

theorem Keyed.mergeEntry_eq (h : Keyed m)
    (he : e.2.machineKey = e.1) : mergeEntry m e = BTreeMap.joinEntry m e := by
  unfold mergeEntry BTreeMap.joinEntry
  cases hm : m.get e.1 with
  | none => rfl
  | some v =>
    have hkey : v.machineKey = e.2.machineKey := (h _ _ hm).trans he.symm
    by_cases hlt : v < e.2
    · simp [hlt, (lt_iff_compare hkey).mp hlt]
    · have hgt := mt (lt_iff_compare hkey).mpr hlt
      simp [hlt, hgt]

theorem Keyed.joinEntry (h : Keyed m) (he : e.2.machineKey = e.1) : Keyed (BTreeMap.joinEntry m e) := by
  have hinsert : Keyed (m.insert e.1 e.2) := he ▸ h.insert e.2
  unfold BTreeMap.joinEntry
  split
  · split
    · exact hinsert
    · exact h
  · exact hinsert

theorem Keyed.foldl_mergeEntry (h : Keyed m) (l : List (String × MachineMemory))
    (hl : ∀ e ∈ l, e.2.machineKey = e.1) :
    l.foldl mergeEntry m = l.foldl BTreeMap.joinEntry m ∧ Keyed (l.foldl BTreeMap.joinEntry m) := by
  induction l generalizing m with
  | nil => exact ⟨rfl, h⟩
  | cons e l ih =>
    have he := hl e (by simp)
    rw [List.foldl_cons, List.foldl_cons, h.mergeEntry_eq he]
    exact ih (h.joinEntry he) fun d hd => hl d (by simp [hd])

theorem Keyed.entries (h : Keyed m) : ∀ e ∈ m.entries, e.2.machineKey = e.1 :=
  fun e he => h e.1 e.2 ((BTreeMap.get_eq_some_iff m e.1 e.2).mpr he)

variable {m n : MemoryMap}

theorem Keyed.sup (hm : Keyed m) (hn : Keyed n) : Keyed (m ⊔ n) :=
  (hm.foldl_mergeEntry n.entries hn.entries).2

theorem Keyed.byKey_of_perm (h : Keyed m) {l : List MachineMemory}
    (hl : l.Perm m.values) : byKey l = m := by
  have hmap : m.values.map (fun v => (v.machineKey, v)) = m.entries := by
    rw [BTreeMap.values, List.map_map]
    conv_rhs => rw [← List.map_id m.entries]
    exact List.map_congr_left fun e he => Prod.ext (h.entries e he) rfl
  have hperm : (l.map fun v => (v.machineKey, v)).Perm m.entries := hmap ▸ hl.map _
  apply BTreeMap.ext_get
  intro k
  apply Option.ext
  intro v
  rw [byKey, BTreeMap.get_ofList _ _ _ ((hperm.map Prod.fst).nodup_iff.mpr m.keys_nodup),
    hperm.mem_iff, BTreeMap.get_eq_some_iff]

theorem mergeMachineMemories_eq (locals remotes : List MachineMemory) :
    mergeMachineMemories locals remotes = ((byKey locals ⊔ byKey remotes).values,
      { localChanged := decide (byKey locals ⊔ byKey remotes ≠ byKey locals)
        needsUpload := decide (byKey locals ⊔ byKey remotes ≠ byKey remotes) }) := by
  have hfold := ((byKey_keyed locals).foldl_mergeEntry (byKey remotes).entries
    (byKey_keyed remotes).entries).1
  simp only [mergeMachineMemories, hfold]
  rfl

def greaterMemory : Option MachineMemory → Option MachineMemory → Option MachineMemory
  | none, b => b
  | a, none => a
  | some a, some b => if (compareMachineMemories b a).isGT then some b else some a

theorem get_sup (hm : Keyed m) (hn : Keyed n) (k : String) :
    (m ⊔ n).get k = greaterMemory (m.get k) (n.get k) := by
  apply BTreeMap.orBot_injective
  have hval := BTreeMap.value_join m n k
  simp only [BTreeMap.value] at hval
  rw [BTreeMap.sup_def, hval]
  cases hmk : m.get k with
  | none => simp [greaterMemory, BTreeMap.orBot]
  | some a =>
    cases hnk : n.get k with
    | none => simp [greaterMemory, BTreeMap.orBot]
    | some b =>
      have hkey : a.machineKey = b.machineKey := (hm k a hmk).trans (hn k b hnk).symm
      by_cases hlt : a < b
      · have hle : (a : WithBot MachineMemory) ≤ b := WithBot.coe_le_coe.mpr hlt.le
        simp [greaterMemory, (lt_iff_compare hkey).mp hlt, BTreeMap.orBot, sup_eq_right.mpr hle]
      · have hgt := mt (lt_iff_compare hkey).mpr hlt
        have hle : (b : WithBot MachineMemory) ≤ a := WithBot.coe_le_coe.mpr (not_lt.mp hlt)
        simp [greaterMemory, hgt, BTreeMap.orBot, sup_eq_left.mpr hle]

/-- Each row of `m` is still there in `n`, no lower in the order of `compare_machine_memories`. -/
def MovesUp (m n : MemoryMap) : Prop :=
  ∀ k a, m.get k = some a → ∃ b, n.get k = some b ∧ compareMachineMemories a b ≠ .gt

theorem le_iff_movesUp (hm : Keyed m) (hn : Keyed n) : m ≤ n ↔ MovesUp m n := by
  have hkey : ∀ k a b, m.get k = some a → n.get k = some b → (a ≤ b ↔ compareMachineMemories a b ≠ .gt) :=
    fun k a b ha hb => le_iff_compare ((hm k a ha).trans (hn k b hb).symm)
  rw [BTreeMap.le_def]
  constructor
  · intro h k a ha
    have hk := h k
    rw [BTreeMap.value, BTreeMap.value, ha] at hk
    cases hb : n.get k with
    | none => simp [hb, BTreeMap.orBot] at hk
    | some b =>
      rw [hb] at hk
      exact ⟨b, rfl, (hkey k a b ha hb).mp (WithBot.coe_le_coe.mp hk)⟩
  · intro h k
    rw [BTreeMap.value, BTreeMap.value]
    cases ha : m.get k with
    | none => exact bot_le
    | some a =>
      obtain ⟨b, hb, hcmp⟩ := h k a ha
      rw [hb]
      exact WithBot.coe_le_coe.mpr ((hkey k a b ha hb).mpr hcmp)

theorem MovesUp.refl (m : MemoryMap) : MovesUp m m := fun _ a ha =>
  ⟨a, ha, by simp [Std.ReflCmp.compare_self]⟩

variable {v : MachineMemory}

theorem movesUp_insert {k : String}
    (h : ∀ row ∈ m.get k, row.updatedAt < v.updatedAt) : MovesUp m (m.insert k v) := by
  intro j a ha
  rw [BTreeMap.get_insert]
  by_cases hj : j = k
  · subst hj
    have hlt := h a ha
    refine ⟨v, by simp, ?_⟩
    have hcmp : compare a.updatedAt v.updatedAt = .lt := compare_lt_iff_lt.mpr hlt
    simp [compareMachineMemories, hcmp]
  · exact ⟨a, by simp [hj, ha], by simp [Std.ReflCmp.compare_self]⟩

theorem LocalWrite.Newer.movesUp {write : LocalWrite} (h : write.Newer m) : MovesUp m (write.apply m) := by
  cases write with
  | upsertContent key content now =>
    apply movesUp_insert
    intro row hrow
    rw [Option.mem_def] at hrow
    simpa [hrow, LocalWrite.now] using h row hrow
  | delete key now =>
    apply movesUp_insert
    intro row hrow
    rw [Option.mem_def] at hrow
    simpa [hrow, LocalWrite.now] using h row hrow
  | setHostnameAlias key alias' now => exact movesUp_insert h
  | setLastReviewAt key at' now => exact movesUp_insert h

/-- The rows as every writer leaves them: within the limit, a tombstone empty. -/
structure RowSound (v : MachineMemory) : Prop where
  length_le : v.content.length ≤ maxMemoryChars
  tombstone : v.deletedAt.isSome → v.content = ""

theorem RowSound.truncate_eq (h : RowSound v) : { v with content := truncateContent v.content } = v := by
  have hlen : v.content.toList.length ≤ maxMemoryChars := by
    rw [String.length_toList]
    exact h.length_le
  have htake : truncateContent v.content = v.content := by
    rw [truncateContent, List.take_of_length_le hlen, String.ofList_toList]
  rw [htake]

structure Sound (m : MemoryMap) : Prop where
  keyed : Keyed m
  row : ∀ k v, m.get k = some v → RowSound v

theorem Sound.insert (h : Sound m) (hv : RowSound v) : Sound (m.insert v.machineKey v) := by
  refine ⟨h.keyed.insert v, fun k w hw => ?_⟩
  rw [BTreeMap.get_insert] at hw
  split at hw
  · cases hw
    exact hv
  · exact h.row k w hw

theorem byKey_sound {memories : List MachineMemory} (h : ∀ v ∈ memories, RowSound v) :
    Sound (byKey memories) := by
  have hfold : ∀ (l : List MachineMemory) (m : MemoryMap), Sound m → (∀ v ∈ l, RowSound v) →
      Sound ((l.map fun v => (v.machineKey, v)).foldl (fun m e => m.insert e.1 e.2) m) := by
    intro l
    induction l with
    | nil => exact fun _ h _ => h
    | cons v l ih => exact fun m hm hl => ih _ (hm.insert (hl v (by simp))) fun w hw => hl w (by simp [hw])
  exact hfold memories _ ⟨fun k v h => by simp at h, fun k v h => by simp at h⟩ h

theorem Sound.sup (hm : Sound m) (hn : Sound n) : Sound (m ⊔ n) := by
  refine ⟨hm.keyed.sup hn.keyed, fun k v hv => ?_⟩
  rw [get_sup hm.keyed hn.keyed] at hv
  cases hmk : m.get k with
  | none => exact hn.row k v (by simpa [hmk, greaterMemory] using hv)
  | some a =>
    cases hnk : n.get k with
    | none => exact hm.row k v (by simpa [hmk, hnk, greaterMemory] using hv)
    | some b =>
      simp only [hmk, hnk, greaterMemory] at hv
      split at hv
      · exact hn.row k v (hnk.trans hv)
      · exact hm.row k v (hmk.trans hv)

theorem Sound.values (h : Sound m) : ∀ v ∈ m.values, RowSound v := by
  intro v hv
  obtain ⟨e, he, rfl⟩ := List.mem_map.mp hv
  exact h.row e.1 e.2 ((BTreeMap.get_eq_some_iff m e.1 e.2).mpr he)

theorem mergeMachineMemories_rows (locals remotes : List MachineMemory) :
    (mergeMachineMemories locals remotes).1 = (byKey locals ⊔ byKey remotes).values := by
  rw [mergeMachineMemories_eq]

theorem byKey_merge (locals remotes : List MachineMemory) :
    byKey (mergeMachineMemories locals remotes).1 = byKey locals ⊔ byKey remotes := by
  rw [mergeMachineMemories_rows]
  exact ((byKey_keyed locals).sup (byKey_keyed remotes)).byKey_of_perm (List.Perm.refl _)

theorem mergeMachineMemories_comm (a b : List MachineMemory) :
    (mergeMachineMemories a b).1 = (mergeMachineMemories b a).1 := by
  rw [mergeMachineMemories_rows, mergeMachineMemories_rows, sup_comm]

theorem mergeMachineMemories_assoc (a b c : List MachineMemory) :
    (mergeMachineMemories (mergeMachineMemories a b).1 c).1 =
      (mergeMachineMemories a (mergeMachineMemories b c).1).1 := by
  rw [mergeMachineMemories_rows _ c, mergeMachineMemories_rows a (mergeMachineMemories b c).1, byKey_merge,
    byKey_merge, sup_assoc]

theorem mergeMachineMemories_self (a : List MachineMemory) :
    (mergeMachineMemories a a).1 = (byKey a).values := by
  rw [mergeMachineMemories_rows, sup_idem]

theorem mergeMachineMemories_flags (locals remotes : List MachineMemory) :
    ((mergeMachineMemories locals remotes).2.localChanged ↔
      ∃ k, (byKey (mergeMachineMemories locals remotes).1).get k ≠ (byKey locals).get k) ∧
    ((mergeMachineMemories locals remotes).2.needsUpload ↔
      ∃ k, (byKey (mergeMachineMemories locals remotes).1).get k ≠ (byKey remotes).get k) := by
  have hne : ∀ m n : MemoryMap, m ≠ n ↔ ∃ k, m.get k ≠ n.get k := by
    intro m n
    rw [← not_forall, not_iff_not]
    exact ⟨fun h k => by rw [h], BTreeMap.ext_get⟩
  rw [byKey_merge, mergeMachineMemories_eq]
  exact ⟨by rw [← hne]; simp, by rw [← hne]; simp⟩

end InfiniShell.Ssh
