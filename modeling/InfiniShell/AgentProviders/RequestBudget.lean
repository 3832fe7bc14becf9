import InfiniShell.Collections.BTreeMap
import InfiniShell.Collections.Utf8Text
import Mathlib.Data.String.Basic

namespace InfiniShell.AgentProviders

open Collections

/-- A JSON value; the number is written with a fraction and an exponent where it has them. -/
inductive Value where
  | null
  | bool (value : Bool)
  | number (negative : Bool) (integer : Nat) (fraction : List (Fin 10)) (exponent : Option Int)
  | string (text : List Char)
  | array (items : List Value)
  | object (fields : List (String × Value))

namespace Value

def nat (n : Nat) : Value := number false n [] none

def asObject : Value → Option (BTreeMap String Value)
  | object fields => some (.ofList fields)
  | _ => none

def ofMap (fields : BTreeMap String Value) : Value := object fields.entries

end Value

def escapeChar (c : Char) : List Char :=
  match c with
  | '"' => ['\\', '"']
  | '\\' => ['\\', '\\']
  | '\x08' => ['\\', 'b']
  | '\x0C' => ['\\', 'f']
  | '\n' => ['\\', 'n']
  | '\r' => ['\\', 'r']
  | '\t' => ['\\', 't']
  | c =>
    if c.toNat < 0x20 then ['\\', 'u', '0', '0', Nat.digitChar (c.toNat / 16), Nat.digitChar (c.toNat % 16)] else [c]

def quote (text : List Char) : List Char := '"' :: text.flatMap escapeChar ++ ['"']

def renderNumber (negative : Bool) (integer : Nat) (fraction : List (Fin 10)) (exponent : Option Int) : List Char :=
  (if negative then ['-'] else []) ++ (toString integer).toList ++
    (if fraction = [] then [] else '.' :: fraction.map fun d => Nat.digitChar d) ++
      (exponent.elim [] fun e => 'e' :: (toString e).toList)

mutual

def Value.render : Value → List Char
  | .null => ['n', 'u', 'l', 'l']
  | .bool true => ['t', 'r', 'u', 'e']
  | .bool false => ['f', 'a', 'l', 's', 'e']
  | .number negative integer fraction exponent => renderNumber negative integer fraction exponent
  | .string text => quote text
  | .array items => '[' :: renderItems items ++ [']']
  | .object fields => '\x7b' :: renderFields fields ++ ['\x7d']

def renderItems : List Value → List Char
  | [] => []
  | [value] => value.render
  | value :: other :: items => value.render ++ ',' :: renderItems (other :: items)

def renderFields : List (String × Value) → List Char
  | [] => []
  | [field] => renderField field
  | field :: other :: fields => renderField field ++ ',' :: renderFields (other :: fields)

def renderField : String × Value → List Char
  | (key, value) => quote key.toList ++ ':' :: value.render

end

def serializedSize (text : List Char) : Nat := byteLen (quote text)

example : serializedSize (Value.ofMap (.ofList [("output", .string ['a', '\n']), ("b", .nat 17)])).render = 32 := by
  decide +kernel

def escapedLen (text : List Char) : Nat := byteLen (text.flatMap escapeChar)

theorem serializedSize_eq (text : List Char) : serializedSize text = escapedLen text + 2 := by
  rw [serializedSize, quote, byteLen_append, byteLen_cons, byteLen_cons, byteLen_nil, escapedLen]
  change 1 + _ + (1 + 0) = _
  omega

theorem escapedLen_append (a b : List Char) : escapedLen (a ++ b) = escapedLen a + escapedLen b := by
  rw [escapedLen, List.flatMap_append, byteLen_append]
  rfl

theorem utf8Size_le_escapeChar (c : Char) : c.utf8Size ≤ byteLen (escapeChar c) := by
  unfold escapeChar
  split
  case h_8 =>
    split
    next =>
      apply Nat.le_trans (Char.utf8Size_le_four _)
      apply Nat.le_trans _ (length_le_byteLen _)
      simp
    next => simp
  all_goals decide

theorem byteLen_le_escapedLen (text : List Char) : byteLen text ≤ escapedLen text := by
  induction text with
  | nil => exact Nat.le_refl 0
  | cons c text ih =>
    have hc := utf8Size_le_escapeChar c
    rw [escapedLen] at ih ⊢
    rw [List.flatMap_cons, byteLen_append, byteLen_cons]
    omega

theorem renderFields_cons (field : String × Value) {fields : List (String × Value)} (h : fields ≠ []) :
    renderFields (field :: fields) = renderField field ++ ',' :: renderFields fields := by
  cases fields with
  | nil => exact absurd rfl h
  | cons other fields => rw [renderFields]

theorem exists_renderFields (before after : List (String × Value)) (key : String) : ∃ left right, ∀ value,
    renderFields (before ++ (key, value) :: after) = left ++ value.render ++ right := by
  induction before with
  | nil =>
    cases after with
    | nil =>
      refine ⟨quote key.toList ++ [':'], [], ?_⟩
      intro value
      simp [renderFields, renderField]
    | cons other after =>
      refine ⟨quote key.toList ++ [':'], ',' :: renderFields (other :: after), ?_⟩
      intro value
      simp [renderFields, renderField]
  | cons field before ih =>
    obtain ⟨left, right, h⟩ := ih
    refine ⟨renderField field ++ ',' :: left, right, ?_⟩
    intro value
    rw [List.cons_append, renderFields_cons field (by simp), h]
    simp

theorem exists_insert_entries (fields : BTreeMap String Value) (key : String) : ∃ before after, ∀ value,
    (fields.insert key value).entries = before ++ (key, value) :: after := by
  change ∃ before after, ∀ value, BTreeMap.insertList key value fields.entries = _
  induction fields.entries with
  | nil => exact ⟨[], [], fun _ => rfl⟩
  | cons field rest ih =>
    obtain ⟨before, after, h⟩ := ih
    by_cases hlt : key < field.1
    · refine ⟨[], field :: rest, ?_⟩
      intro value
      simp [BTreeMap.insertList, hlt]
    · by_cases heq : key = field.1
      · refine ⟨[], rest, ?_⟩
        intro value
        simp [BTreeMap.insertList, heq]
      · refine ⟨field :: before, after, ?_⟩
        intro value
        simp [BTreeMap.insertList, hlt, heq, h]

theorem exists_serializedSize (fields : BTreeMap String Value) (key : String) : ∃ rest, ∀ text,
    serializedSize (Value.ofMap (fields.insert key (.string text))).render = rest + escapedLen (quote text) := by
  obtain ⟨before, after, hentries⟩ := exists_insert_entries fields key
  obtain ⟨left, right, hrender⟩ := exists_renderFields before after key
  refine ⟨escapedLen ('\x7b' :: left) + escapedLen (right ++ ['\x7d']) + 2, ?_⟩
  intro text
  have hsplit : (Value.ofMap (fields.insert key (.string text))).render =
      ('\x7b' :: left) ++ (quote text ++ (right ++ ['\x7d'])) := by
    rw [Value.ofMap, Value.render, hentries, hrender, Value.render]
    simp
  rw [serializedSize_eq, hsplit, escapedLen_append, escapedLen_append]
  omega

def maxResultBytes : Nat := 32 * 1024

def maxTotalResultBytes : Nat := 128 * 1024

def minResultBytes : Nat := 512

def unknownContextWindow : Nat := 200000

def truncationKey : String := "_infinishell_truncated"

def truncationNote : String :=
  "Partial tool output: the middle was omitted to fit the context budget. Full output remains in the local conversation. Use bounded reads or searches for missing details; do not repeat state-changing commands."

structure ToolResponse (X : Type) where
  callId : List Char
  content : List Char
  /-- The caller and whatever else the response carries. -/
  extra : X

/-- The parts that the budget treats alike stand in `other`. -/
inductive ContentPart (B O X : Type) where
  | toolResponse (response : ToolResponse X)
  | binary (data : B)
  | other (part : O)

structure ChatMessage (B O X R : Type) where
  role : R
  content : List (ContentPart B O X)

structure ChatRequest (B O X R Q : Type) where
  messages : List (ChatMessage B O X R)
  rest : Q

structure Crates (B O X R Q : Type) where
  requestSize : ChatRequest B O X R Q → Nat
  binarySize : B → Nat
  fromStr : List Char → Option Value
  sha256Hex : List UInt8 → String

def inputTokenBudget (contextWindow : Option Nat) : Nat :=
  let context := (contextWindow.filter fun limit => 0 < limit).getD unknownContextWindow
  context - min (max (context / 4) 8000) (context / 2)

/-- A subtraction that panics on an underflow. -/
def checkedSub (a b : Nat) : Option Nat := if b ≤ a then some (a - b) else none

def omitted : List Char := "\n[... omitted ...]\n".toList

/-- The kept halves of a text, `none` for a panic. -/
def preview (source : List Char) (keep : Nat) : Option (List Char) := do
  let headEnd := floorCharBoundary source (keep / 2)
  let tailStart := ceilCharBoundary source (← checkedSub (byteLen source) (keep - keep / 2))
  let head ← takeBytes source headEnd
  let tail ← dropBytes source tailStart
  some (head ++ omitted ++ tail)

def withText (envelope : BTreeMap String Value) (field : String) (text : List Char) : BTreeMap String Value :=
  envelope.insert field (.string text)

/-- The binary search for the longest preview, `none` for a panic and when the fuel runs out. -/
def searchPreview (envelope : BTreeMap String Value) (field : String) (source : List Char) (budget : Nat) :
    Nat → Nat → Nat → List Char → Option (List Char)
  | 0, _, _, _ => none
  | fuel + 1, low, high, best =>
    if low ≤ high then do
      let keep := low + (high - low) / 2
      let text ← preview source keep
      let candidate := (Value.ofMap (withText envelope field text)).render
      if serializedSize candidate ≤ budget then searchPreview envelope field source budget fuel (keep + 1) high candidate
      else if keep = 0 then some best
      else searchPreview envelope field source budget fuel low (keep - 1) best
    else some best

def truncationValue (content : List Char) : Value :=
  .ofMap (.ofList [("original_bytes", .nat (byteLen content)), ("note", .string truncationNote.toList)])

def controlKeys : List String := ["status", "exit_code", "command_id", "is_alt_screen_active"]

def splitContent (fromStr : List Char → Option Value) (content : List Char) :
    BTreeMap String Value × List Char × String :=
  match (fromStr content).bind Value.asObject with
  | some object =>
    match object.get "output" with
    | some (.string output) => (object.remove "output", output, "output")
    | _ => (.empty, content, "preview")
  | none => (.empty, content, "preview")

def copyField (envelope minimal : BTreeMap String Value) (key : String) : BTreeMap String Value :=
  match envelope.get key with
  | some value => minimal.insert key value
  | none => minimal

def minimalEnvelope (content : List Char) (envelope : BTreeMap String Value) : BTreeMap String Value :=
  controlKeys.foldl (copyField envelope) (BTreeMap.empty.insert truncationKey (truncationValue content))

def chooseEnvelope (fromStr : List Char → Option Value) (content : List Char) (budget : Nat) :
    BTreeMap String Value × List Char × String :=
  let (object, source, field) := splitContent fromStr content
  let envelope := withText (object.insert truncationKey (truncationValue content)) field []
  let envelope :=
    if budget < serializedSize (Value.ofMap envelope).render then minimalEnvelope content envelope else envelope
  (envelope, source, if (envelope.get field).isSome then field else "preview")

def boundedResult (fromStr : List Char → Option Value) (content : List Char) (budget : Nat) : Option (List Char) :=
  if serializedSize content ≤ budget then some content
  else
    let (envelope, source, field) := chooseEnvelope fromStr content budget
    let high := min (byteLen source) budget
    searchPreview envelope field source budget (high + 2) 0 high (Value.ofMap envelope).render

/-- A call panics, rejects the request or returns. -/
inductive Outcome (A : Type) where
  | panicked
  | exceeded
  | ok (value : A)

structure BudgetReport where
  truncatedResults : Nat := 0
  originalResultBytes : Nat := 0
  sentResultBytes : Nat := 0
  truncatedFingerprint : Option String := none

structure Pass where
  minimumResults : Nat
  remaining : Nat
  report : BudgetReport
  fingerprint : List UInt8

def leBytes (n : Nat) : List UInt8 := (List.range 8).map fun i => UInt8.ofNat (n / 256 ^ i % 256)

def utf8Bytes (text : List Char) : List UInt8 := text.flatMap String.utf8EncodeChar

variable {B O X R Q : Type}

def trimPart (fromStr : List Char → Option Value) (pass : Pass) :
    ContentPart B O X → Outcome (Pass × ContentPart B O X)
  | .toolResponse response =>
    let size := serializedSize response.content
    match checkedSub pass.minimumResults (min size minResultBytes) with
    | none => .panicked
    | some minimumResults =>
      let budget := min (pass.remaining - minimumResults) maxResultBytes
      let cut := decide (budget < size)
      match if cut then boundedResult fromStr response.content budget else some response.content with
      | none => .panicked
      | some content =>
        let sent := serializedSize content
        if budget < sent then .exceeded
        else match checkedSub pass.remaining sent with
          | none => .panicked
          | some remaining => .ok ({
              minimumResults, remaining
              report := { pass.report with
                truncatedResults := pass.report.truncatedResults + cut.toNat
                originalResultBytes := pass.report.originalResultBytes + byteLen response.content
                sentResultBytes := pass.report.sentResultBytes + byteLen content }
              fingerprint := if cut then pass.fingerprint ++ leBytes (byteLen response.callId) ++
                utf8Bytes response.callId ++ leBytes (byteLen content) ++ utf8Bytes content else pass.fingerprint },
              .toolResponse { response with content })
  | part => .ok (pass, part)

def trimBack {A : Type} (trim : Pass → A → Outcome (Pass × A)) (pass : Pass) : List A → Outcome (Pass × List A)
  | [] => .ok (pass, [])
  | item :: items =>
    match trimBack trim pass items with
    | .panicked => .panicked
    | .exceeded => .exceeded
    | .ok (pass, items) =>
      match trim pass item with
      | .panicked => .panicked
      | .exceeded => .exceeded
      | .ok (pass, item) => .ok (pass, item :: items)

def trimMessage (fromStr : List Char → Option Value) (pass : Pass) (message : ChatMessage B O X R) :
    Outcome (Pass × ChatMessage B O X R) :=
  match trimBack (trimPart fromStr) pass message.content with
  | .panicked => .panicked
  | .exceeded => .exceeded
  | .ok (pass, content) => .ok (pass, { message with content })

def reservePart (crates : Crates B O X R Q) (acc : Nat × Nat) : ContentPart B O X → Nat × Nat
  | .toolResponse response =>
    let size := serializedSize response.content
    (acc.1 - size, acc.2 + min size minResultBytes)
  | .binary data => (acc.1 - crates.binarySize data + 16384, acc.2)
  | .other _ => acc

def reserve (crates : Crates B O X R Q) (request : ChatRequest B O X R Q) : Nat × Nat :=
  request.messages.foldl (fun acc message => message.content.foldl (reservePart crates) acc)
    (crates.requestSize request, 0)

def resultBudget (crates : Crates B O X R Q) (request : ChatRequest B O X R Q) (contextWindow : Option Nat) : Nat :=
  let (fixedBytes, minimumResults) := reserve crates request
  min (max (inputTokenBudget contextWindow * 2 - fixedBytes) minimumResults) maxTotalResultBytes

def apply (crates : Crates B O X R Q) (request : ChatRequest B O X R Q) (contextWindow : Option Nat) :
    Outcome (BudgetReport × ChatRequest B O X R Q) :=
  let minimumResults := (reserve crates request).2
  let remaining := resultBudget crates request contextWindow
  if remaining < minimumResults then .exceeded
  else
    match trimBack (trimMessage crates.fromStr) { minimumResults, remaining, report := {}, fingerprint := [] }
        request.messages with
    | .panicked => .panicked
    | .exceeded => .exceeded
    | .ok (pass, messages) =>
      let report := if 0 < pass.report.truncatedResults then
          { pass.report with truncatedFingerprint := some (crates.sha256Hex pass.fingerprint) }
        else pass.report
      .ok (report, { request with messages })

end InfiniShell.AgentProviders
