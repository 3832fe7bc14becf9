import InfiniShell.LocalCli.BridgeMoves
import Mathlib.Tactic.IntervalCases
import Mathlib.Tactic.Ring

namespace InfiniShell.LocalCli

open RuntimeHost (Uuid)

def hexValue (c : Char) : Nat := if c.toNat < 58 then c.toNat - 48 else c.toNat - 87

theorem hexValue_digitChar {n : Nat} (h : n < 16) : hexValue (Nat.digitChar n) = n := by
  interval_cases n <;> rfl

theorem digitChar_ne_hyphen {n : Nat} (h : n < 16) : Nat.digitChar n ≠ '-' := by
  interval_cases n <;> decide

def hexNumber (digits : List Char) : Nat := digits.foldl (fun n c => 16 * n + hexValue c) 0

def hexOf (count n : Nat) : List Char := (List.range count).map fun i => Nat.digitChar (n / 16 ^ (count - 1 - i) % 16)

theorem hexOf_succ (count n : Nat) : hexOf (count + 1) n = hexOf count (n / 16) ++ [Nat.digitChar (n % 16)] := by
  rw [hexOf, List.range_succ, List.map_append, List.map_singleton]
  congr 1
  · apply List.map_congr_left
    intro i hi
    have hlt := List.mem_range.mp hi
    have hexp : count + 1 - 1 - i = count - 1 - i + 1 := by omega
    rw [hexp, Nat.pow_succ', Nat.div_div_eq_div_mul]
  · simp

theorem hexNumber_hexOf (count n : Nat) : hexNumber (hexOf count n) = n % 16 ^ count := by
  induction count generalizing n with
  | zero => simp [hexNumber, hexOf, Nat.mod_one]
  | succ count ih =>
    have hdigit : hexValue (Nat.digitChar (n % 16)) = n % 16 := hexValue_digitChar (Nat.mod_lt n (by decide))
    have ih := ih (n / 16)
    rw [hexNumber] at ih
    rw [hexNumber, hexOf_succ, List.foldl_append, ih, List.foldl_cons, List.foldl_nil, hdigit, Nat.pow_succ',
      Nat.mod_mul]
    ring

/-- The hyphenated lower-case form, read back. -/
def Uuid.ofText (text : String) : Except String Uuid :=
  let id : Uuid := BitVec.ofNat 128 (hexNumber (text.toList.filter (· ≠ '-')))
  if id.toText = text then .ok id else .error "invalid UUID"

theorem toList_toText (id : Uuid) : id.toText.toList =
    (hexOf 32 id.toNat).take 8 ++ '-' :: (((hexOf 32 id.toNat).drop 8).take 4 ++
      '-' :: (((hexOf 32 id.toNat).drop 12).take 4 ++ '-' :: (((hexOf 32 id.toNat).drop 16).take 4 ++
      '-' :: (hexOf 32 id.toNat).drop 20))) := by
  rw [Uuid.toText, hexOf]
  simp

theorem filter_toText (id : Uuid) : id.toText.toList.filter (· ≠ '-') = hexOf 32 id.toNat := by
  have hall : ∀ c ∈ hexOf 32 id.toNat, decide (c ≠ '-') = true := by
    intro c hc
    obtain ⟨i, -, rfl⟩ := List.mem_map.mp hc
    exact decide_eq_true (digitChar_ne_hyphen (Nat.mod_lt _ (by decide)))
  have hpart : ∀ m n, (((hexOf 32 id.toNat).drop m).take n).filter (· ≠ '-') = ((hexOf 32 id.toNat).drop m).take n := by
    intro m n
    apply List.filter_eq_self.mpr
    intro c hc
    exact hall c (List.mem_of_mem_drop (List.mem_of_mem_take hc))
  have hfirst := hpart 0 8
  have hlast : ((hexOf 32 id.toNat).drop 20).filter (· ≠ '-') = (hexOf 32 id.toNat).drop 20 := by
    apply List.filter_eq_self.mpr
    intro c hc
    exact hall c (List.mem_of_mem_drop hc)
  have hjoin : ∀ m, ((hexOf 32 id.toNat).drop m).take 4 ++ (hexOf 32 id.toNat).drop (m + 4) = (hexOf 32 id.toNat).drop m := by
    intro m
    rw [← List.drop_drop]
    exact List.take_append_drop 4 _
  rw [List.drop_zero] at hfirst
  rw [toList_toText, List.filter_append, hfirst, List.filter_cons_of_neg (by decide), List.filter_append, hpart,
    List.filter_cons_of_neg (by decide), List.filter_append, hpart, List.filter_cons_of_neg (by decide),
    List.filter_append, hpart, List.filter_cons_of_neg (by decide), hlast, hjoin 16, hjoin 12, hjoin 8,
    List.take_append_drop]

theorem Uuid.ofText_toText (id : Uuid) : Uuid.ofText id.toText = .ok id := by
  have hnumber : BitVec.ofNat 128 (hexNumber (id.toText.toList.filter (· ≠ '-'))) = id := by
    rw [filter_toText, hexNumber_hexOf]
    apply BitVec.eq_of_toNat_eq
    have hlt := id.isLt
    rw [BitVec.toNat_ofNat]
    omega
  rw [Uuid.ofText]
  simp only [hnumber]
  rw [if_pos trivial]

theorem Uuid.toText_injective : Function.Injective Uuid.toText := by
  intro a b hab
  have ha := Uuid.ofText_toText a
  rw [hab, Uuid.ofText_toText b] at ha
  exact (Except.ok.inj ha).symm

/-- A reader that looks among some identifiers first. -/
def Uuid.ofTable (ids : List Uuid) (text : String) : Except String Uuid :=
  match ids.find? (·.toText = text) with
  | some id => .ok id
  | none => Uuid.ofText text

theorem Uuid.ofTable_toText (ids : List Uuid) (id : Uuid) : Uuid.ofTable ids id.toText = .ok id := by
  rw [Uuid.ofTable]
  cases hfind : ids.find? (·.toText = id.toText) with
  | none => exact Uuid.ofText_toText id
  | some other =>
    have heq : other.toText = id.toText := by simpa using List.find?_some hfind
    rw [Uuid.toText_injective heq]

end InfiniShell.LocalCli

namespace InfiniShell.LocalCli.NativeBridge

open Collections Collections.LinkedChain Effects Effects.Program
open RuntimeHost (Uuid)

section Invariant

variable {records records' : List NativeBridgeInputRecord} {record : NativeBridgeInputRecord} {answer : Answer}

theorem AttemptChain.snoc (h : AttemptChain records) (hnew : attemptId record ∉ records.map attemptId)
    (hreplaces : record.delivery.replaces = records.getLast?.map attemptId)
    (hlast : ∀ last ∈ records.getLast?, Settled last) : AttemptChain (records ++ [record]) := by
  refine ⟨h.chained.snoc hnew hreplaces, ?_⟩
  rw [List.dropLast_concat]
  intro other hother
  cases hend : records.getLast? with
  | none =>
    obtain rfl := List.getLast?_eq_none_iff.mp hend
    exact absurd hother List.not_mem_nil
  | some last =>
    rw [← List.dropLast_append_getLast? last hend] at hother
    cases List.mem_append.mp hother with
    | inl hother => exact h.settled other hother
    | inr hother =>
      rw [List.mem_singleton.mp hother]
      exact hlast last hend

theorem attempts_settle (sessionId : Uuid) (body : String) (record : NativeBridgeInputRecord)
    (next : NativeBridgeDeliveryState) (records : List NativeBridgeInputRecord) :
    attempts sessionId body (records.map fun other => if other = record then settle record next else other) =
      (attempts sessionId body records).map fun other => if other = record then settle record next else other := by
  rw [attempts, attempts, List.filter_map]
  apply congrArg
  apply List.filter_congr
  intro other _
  rw [Function.comp_apply]
  split
  · rename_i heq
    rw [heq]
    rfl
  · rfl

theorem AttemptChain.settle (h : AttemptChain records) {next : NativeBridgeDeliveryState} (hnext : next ≠ .unknown) :
    AttemptChain (records.map fun other => if other = record then settle record next else other) := by
  refine ⟨h.chained.map ?_ ?_, ?_⟩
  · intro other _
    split
    · rename_i heq
      rw [heq, attemptId_settle]
    · rfl
  · intro other _
    split
    · rename_i heq
      rw [heq]
      rfl
    · rfl
  · rw [← List.map_dropLast]
    intro other hother
    obtain ⟨before, hbefore, rfl⟩ := List.mem_map.mp hother
    split
    · exact hnext
    · exact h.settled before hbefore

theorem Moves.consistent (hmoves : Moves records answer records') (h : Consistent records) : Consistent records' := by
  cases hmoves with
  | existing => exact h
  | quiet => exact h
  | claim record hnew hunknown hreplaces hsettled hrevision =>
    constructor
    · intro sessionId body
      rw [attempts, List.filter_append]
      by_cases hscope : record.delivery.sessionId = sessionId ∧ record.message.body = body
      · obtain ⟨rfl, rfl⟩ := hscope
        rw [List.filter_cons_of_pos (by simp), List.filter_nil]
        refine (h.chains _ _).snoc (fun hmem => hnew ?_) hreplaces hsettled
        exact (List.filter_sublist.map attemptId).subset hmem
      · rw [List.filter_cons_of_neg (by simpa using hscope), List.filter_nil, List.append_nil]
        exact h.chains sessionId body
    · intro a ha b hb hsession hsame
      cases List.mem_append.mp ha with
      | inl ha =>
        cases List.mem_append.mp hb with
        | inl hb => exact h.revisions a ha b hb hsession hsame
        | inr hb =>
          rw [List.mem_singleton.mp hb] at hsession hsame ⊢
          exact hrevision a ha hsession hsame
      | inr ha =>
        rw [List.mem_singleton.mp ha] at hsession hsame ⊢
        cases List.mem_append.mp hb with
        | inl hb => exact (hrevision b hb hsession.symm hsame.symm).symm
        | inr hb => rw [List.mem_singleton.mp hb]
  | settle record next answer hrecord hunknown hnext =>
    constructor
    · intro sessionId body
      rw [attempts_settle]
      exact (h.chains sessionId body).settle hnext
    · intro a ha b hb
      obtain ⟨c, hc, rfl⟩ := List.mem_map.mp ha
      obtain ⟨d, hd, rfl⟩ := List.mem_map.mp hb
      have hsame : ∀ e : NativeBridgeInputRecord, ∀ f, f = (if e = record then NativeBridge.settle record next else e) →
          f.delivery.sessionId = e.delivery.sessionId ∧ f.delivery.inputRevision = e.delivery.inputRevision ∧
            f.message.body = e.message.body := by
        intro e f hf
        rw [hf]
        split
        · rename_i heq
          rw [heq]
          exact ⟨rfl, rfl, rfl⟩
        · exact ⟨rfl, rfl, rfl⟩
      obtain ⟨hcs, hcr, hcb⟩ := hsame c _ rfl
      obtain ⟨hds, hdr, hdb⟩ := hsame d _ rfl
      rw [hcs, hds, hcr, hdr, hcb, hdb]
      exact h.revisions c hc d hd

theorem Moves.keeps (hmoves : Moves records answer records') {settled : NativeBridgeInputRecord}
    (hmem : settled ∈ records) (hsettled : Settled settled) : settled ∈ records' := by
  cases hmoves with
  | existing => exact hmem
  | quiet => exact hmem
  | claim => exact List.mem_append_left _ hmem
  | settle record next answer hrecord hunknown hnext =>
    refine List.mem_map.mpr ⟨settled, hmem, if_neg ?_⟩
    intro heq
    exact hsettled (heq ▸ hunknown)

end Invariant

/-- The attempts that the messages hold. -/
def stored (db : Tables) : List NativeBridgeInputRecord :=
  db.messages.filterMap fun row => row.data.nativeDelivery.map fun delivery => ⟨row.data.message, delivery⟩

theorem Ledger.stored_eq {crates : Crates} {db : Tables} {records : List NativeBridgeInputRecord}
    (h : Ledger crates db records) : stored db = records := by
  rw [stored, h.rows, List.filterMap_map]
  exact List.filterMap_some

def serve (crates : Crates) : List Request → Tables → List (Except String Answer) × Tables
  | [], db => ([], db)
  | request :: requests, db =>
    ((handleRequest crates request db).1 :: (serve crates requests (handleRequest crates request db).2).1,
      (serve crates requests (handleRequest crates request db).2).2)

def grantedIds (answers : List (Except String Answer)) : List Uuid :=
  answers.filterMap fun
    | .ok (.claim (.claimed record)) => some record.delivery.messageId
    | _ => none

section Runs

variable {crates : Crates} {db : Tables} {records : List NativeBridgeInputRecord}

theorem Consistent.nil : Consistent [] := by
  constructor
  · intro sessionId body
    rw [attempts, List.filter_nil]
    exact ⟨Chained.nil, fun _ h => absurd h List.not_mem_nil⟩
  · exact fun _ h => absurd h List.not_mem_nil

theorem Ledger.empty : Ledger crates .empty [] := ⟨rfl, fun _ h => absurd h List.not_mem_nil, List.nodup_nil⟩

theorem Moves.grantedIds {answer : Answer} {records' : List NativeBridgeInputRecord}
    (h : Moves records answer records') :
    records'.map attemptId = records.map attemptId ++ NativeBridge.grantedIds [.ok answer] := by
  cases h with
  | existing => exact (List.append_nil _).symm
  | quiet => exact (List.append_nil _).symm
  | claim record => exact List.map_append
  | settle record next answer =>
    rw [List.map_map]
    refine Eq.trans (List.map_congr_left ?_) (List.append_nil _).symm
    intro other _
    rw [Function.comp_apply]
    split
    · rename_i heq
      rw [heq, attemptId_settle]
    · rfl

theorem Ledger.step (hlawful : crates.Lawful) (hledger : Ledger crates db records) (hconsistent : Consistent records)
    {request : Request} (htext : request.IsText) :
    ∃ records', Ledger crates (handleRequest crates request db).2 records' ∧ Consistent records' ∧
      records'.map attemptId = records.map attemptId ++ grantedIds [(handleRequest crates request db).1] ∧
      ∀ record ∈ records, Settled record → record ∈ records' := by
  obtain ⟨hok, herror⟩ := handleRequest_triple hlawful hledger hconsistent htext db rfl
  cases hrun : handleRequest crates request db with
  | mk result w =>
    cases result with
    | ok answer =>
      obtain ⟨records', hledger', hmoves⟩ := hok answer w hrun
      exact ⟨records', hledger', hmoves.consistent hconsistent, hmoves.grantedIds, fun _ => hmoves.keeps⟩
    | error e =>
      obtain rfl := herror e w hrun
      exact ⟨records, hledger, hconsistent, (List.append_nil _).symm, fun _ hrecord _ => hrecord⟩

theorem Ledger.serve (hlawful : crates.Lawful) (hledger : Ledger crates db records) (hconsistent : Consistent records)
    {requests : List Request} (htext : ∀ request ∈ requests, request.IsText) :
    ∃ records', Ledger crates (NativeBridge.serve crates requests db).2 records' ∧ Consistent records' ∧
      records'.map attemptId = records.map attemptId ++ NativeBridge.grantedIds (NativeBridge.serve crates requests db).1 ∧
      ∀ record ∈ records, Settled record → record ∈ records' := by
  induction requests generalizing db records with
  | nil => exact ⟨records, hledger, hconsistent, (List.append_nil _).symm, fun _ hrecord _ => hrecord⟩
  | cons request requests ih =>
    obtain ⟨middle, hmiddle, hconsistent', hids, hkeeps⟩ :=
      hledger.step hlawful hconsistent (htext request List.mem_cons_self)
    obtain ⟨records', hledger', hfinal, hids', hkeeps'⟩ :=
      ih hmiddle hconsistent' fun other hother => htext other (List.mem_cons_of_mem _ hother)
    refine ⟨records', hledger', hfinal, ?_, fun record hrecord hsettled =>
      hkeeps' record (hkeeps record hrecord hsettled) hsettled⟩
    rw [hids', hids, List.append_assoc]
    apply congrArg
    change _ = NativeBridge.grantedIds (_ :: _)
    rw [NativeBridge.grantedIds, NativeBridge.grantedIds, NativeBridge.grantedIds, ← List.filterMap_append,
      List.singleton_append]

end Runs

/-- The attempts to send a text in a session form one chain, and only its head may be undecided. -/
theorem deliveries_stay_chained (crates : Crates) (hlawful : crates.Lawful) (requests : List Request)
    (htext : ∀ request ∈ requests, request.IsText) :
    let db := (serve crates requests .empty).2
    (∀ sessionId body,
      Chained attemptId (·.delivery.replaces) (attempts sessionId body (stored db)) ∧
      (∀ record ∈ (attempts sessionId body (stored db)).dropLast, Settled record) ∧
      ((attempts sessionId body (stored db)).filter fun record => ¬Settled record).length ≤ 1 ∧
      ∀ head ∈ (attempts sessionId body (stored db)).getLast?,
        chainHead (attempts sessionId body (stored db)) = .ok head) ∧
    (grantedIds (serve crates requests .empty).1).Nodup ∧
    (∀ request : Request, request.IsText →
      (∀ record, (handleRequest crates request db).1 = .ok (.claim (.claimed record)) →
        ∀ other ∈ attempts record.delivery.sessionId record.message.body (stored db), Settled other) ∧
      ∀ e, (handleRequest crates request db).1 = .error e → (handleRequest crates request db).2 = db) ∧
    (∀ a ∈ stored db, ∀ b ∈ stored db, a.delivery.sessionId = b.delivery.sessionId →
      a.delivery.inputRevision = b.delivery.inputRevision → a.message.body = b.message.body) ∧
    ∀ later : List Request, (∀ request ∈ later, request.IsText) → ∀ record ∈ stored db, Settled record →
      record ∈ stored (serve crates later db).2 := by
  intro db
  obtain ⟨records, hledger, hconsistent, hids, -⟩ := Ledger.empty.serve hlawful Consistent.nil htext
  change Ledger crates db records at hledger
  rw [List.map_nil, List.nil_append] at hids
  rw [hledger.stored_eq]
  refine ⟨?_, ?_, ?_, hconsistent.revisions, ?_⟩
  · intro sessionId body
    have hchain := hconsistent.chains sessionId body
    refine ⟨hchain.chained, hchain.settled, ?_, ?_⟩
    · cases hlast : (attempts sessionId body records).getLast? with
      | none =>
        rw [List.getLast?_eq_none_iff.mp hlast]
        exact Nat.zero_le 1
      | some last =>
        have hnone : ((attempts sessionId body records).dropLast.filter fun record => ¬Settled record) = [] := by
          rw [List.filter_eq_nil_iff]
          intro record hrecord
          simpa using hchain.settled record hrecord
        rw [← List.dropLast_append_getLast? last hlast, List.filter_append, hnone, List.nil_append]
        exact List.length_filter_le _ [last]
    · intro head hhead
      have hsplit := List.dropLast_append_getLast? head hhead
      rw [← hsplit] at hchain ⊢
      exact chainHead_eq hchain
  · rw [← hids]
    exact hledger.nodup
  · intro request hrequest
    obtain ⟨hok, herror⟩ := handleRequest_triple hlawful hledger hconsistent hrequest db rfl
    constructor
    · intro record hclaimed
      obtain ⟨records', -, hmoves⟩ := hok _ _ (Prod.ext hclaimed rfl)
      cases hmoves with
      | claim record hnew hunknown hreplaces hsettled hrevision =>
        intro other hother
        have hchain := hconsistent.chains record.delivery.sessionId record.message.body
        cases hlast : (attempts record.delivery.sessionId record.message.body records).getLast? with
        | none =>
          rw [List.getLast?_eq_none_iff.mp hlast] at hother
          exact absurd hother List.not_mem_nil
        | some last =>
          rw [← List.dropLast_append_getLast? last hlast] at hother
          cases List.mem_append.mp hother with
          | inl hother => exact hchain.settled other hother
          | inr hother =>
            rw [List.mem_singleton.mp hother]
            exact hsettled last hlast
    · intro e he
      exact herror e _ (Prod.ext he rfl)
  · intro later hlater record hrecord hsettled
    obtain ⟨records', hledger', -, -, hkeeps⟩ := hledger.serve hlawful hconsistent hlater
    rw [hledger'.stored_eq]
    exact hkeeps record hrecord hsettled

section Sample

def sampleBinding : NativeBridgeBindingSnapshot where
  instanceId := 1
  nativeProcess := .macos 10 2 30 4
  bootSession := some "00000000-0000-0000-0000-000000000007"
  shell := .macos 11 2 31 4
  slaveDevice := some 5
  artifactSha256 := "0000000000000000000000000000000000000000000000000000000000000000"
  terminalGeneration := none

def sampleProcess (pid uniqueId : Int) : Json :=
  .object (.cons "pid" (.integer pid) (.cons "pid_version" (.integer 2) (.cons "resource_cid" (.integer 4)
    (.cons "unique_id" (.integer uniqueId) .nil))))

def sampleBindingJson : Json :=
  .object (.cons "artifact_sha256" (.string "0000000000000000000000000000000000000000000000000000000000000000")
    (.cons "boot_session" (.string "00000000-0000-0000-0000-000000000007")
    (.cons "instance_id" (.string "00000000-0000-0000-0000-000000000001")
    (.cons "native_process" (sampleProcess 10 30) (.cons "shell" (sampleProcess 11 31)
    (.cons "slave_device" (.integer 5) .nil))))))

def sampleConfigText : String :=
  "\x7b\"binding\":\x7b\"artifact_sha256\":\"0000000000000000000000000000000000000000000000000000000000000000\",\"boot_session\":\"00000000-0000-0000-0000-000000000007\",\"instance_id\":\"00000000-0000-0000-0000-000000000001\",\"native_process\":\x7b\"pid\":10,\"pid_version\":2,\"resource_cid\":4,\"unique_id\":30\x7d,\"shell\":\x7b\"pid\":11,\"pid_version\":2,\"resource_cid\":4,\"unique_id\":31\x7d,\"slave_device\":5\x7d,\"execution_kind\":\"grok_native_terminal_input_v1\",\"session_id\":\"00000000-0000-0000-0000-000000000002\"\x7d"

def sampleConfig : Json :=
  .object (.cons "binding" sampleBindingJson (.cons "execution_kind" (.string "grok_native_terminal_input_v1")
    (.cons "session_id" (.string "00000000-0000-0000-0000-000000000002") .nil)))

def sampleIdentityText : String :=
  "[\x7b\"instance_id\":\"00000000-0000-0000-0000-000000000001\",\"native_process\":\x7b\"pid\":10,\"pid_version\":2,\"unique_id\":30,\"resource_cid\":4\x7d,\"boot_session\":\"00000000-0000-0000-0000-000000000007\",\"shell\":\x7b\"pid\":11,\"pid_version\":2,\"unique_id\":31,\"resource_cid\":4\x7d,\"slave_device\":5,\"artifact_sha256\":\"0000000000000000000000000000000000000000000000000000000000000000\"\x7d,\"00000000-0000-0000-0000-000000000002\"]"

/-- The forms and the digests of one binding and of one body. -/
def sampleCrates : Crates where
  parseJson text := if text = sampleConfigText then .ok sampleConfig else .error "expected value"
  parseUuid := Uuid.ofTable [5, 7, 8, 9]
  sha256 _ := 0
  blake3 text :=
    if text = sampleIdentityText then 0x57b97faaea919ed5811e0a9a91542921da51ac462ea5b5891901c36d2504e423
    else if text = "hello" then 0xea8f163db38682925e4491c5e58d4bb3506ef8c14eb78a86e908c5624a67200f
    else 0
  messageText message := message.body
  resultLink _ := .error "invalid type"
  inputLinks _ := .error "invalid type"
  inputLink _ := .error "invalid type"
  grokOwner _ := .error "invalid type"
  isSubmit _ := false
  bridgeBinding value := if value = sampleBindingJson then .ok sampleBinding else .error "invalid type"
  bridgeResponse _ := .error "invalid type"
  bridgeIdentity _ _ := sampleIdentityText
  bridgeConfig _ _ := sampleConfigText
  validatePersistedBody _ := .ok ()

theorem sampleCrates_lawful : sampleCrates.Lawful := by
  constructor
  simp only [sampleCrates]
  exact Uuid.ofTable_toText _

def noAttachments : Attachments := fun _ _ => .error "普通 Grok 图片账本必须绑定持久数据库 scope"

def sampleInput (messageId : Uuid) (replaces : Option Uuid) : NativeBridgeInput :=
  ⟨sampleBindingJson, 2, "/work", 6, messageId, replaces, inputSubject, "hello"⟩

def sampleDelivery : NativeBridgeDelivery :=
  (claimRecord sampleCrates (bindingTaskRecord sampleCrates sampleBinding 2 "/work") sampleBinding
    (blakeText sampleCrates "hello") (sampleInput 5 none)).delivery

def sampleRequests : List Request :=
  [.claim (sampleInput 5 none) noAttachments noAttachments, .claim (sampleInput 8 none) noAttachments noAttachments,
    .markNotSent sampleDelivery, .claim (sampleInput 9 (some 5)) noAttachments noAttachments]

theorem sampleRequests_text : ∀ request ∈ sampleRequests, request.IsText := by
  have hclaim : ∀ messageId replaces, (sampleInput messageId replaces).subject ≠ richInputSubject := by
    intro messageId replaces
    change inputSubject ≠ richInputSubject
    decide
  simp [sampleRequests, Request.IsText, hclaim]

/-- No two of the claims are granted for one message. -/
theorem deliveries_stay_chained_sample : (grantedIds (serve sampleCrates sampleRequests .empty).1).Nodup :=
  (deliveries_stay_chained sampleCrates sampleCrates_lawful sampleRequests sampleRequests_text).2.1

end Sample

end InfiniShell.LocalCli.NativeBridge
