import InfiniShell.AgentProviders.ResultPreview
import Mathlib.Algebra.GroupWithZero.Nat

namespace InfiniShell.AgentProviders

open Collections

variable {B O X R Q : Type}

def ContentPart.contents : ContentPart B O X → List (List Char)
  | toolResponse response => [response.content]
  | _ => []

def ChatMessage.contents (message : ChatMessage B O X R) : List (List Char) :=
  message.content.flatMap ContentPart.contents

/-- The contents of the tool results, from the oldest to the newest. -/
def ChatRequest.results (request : ChatRequest B O X R Q) : List (List Char) :=
  request.messages.flatMap ChatMessage.contents

/-- What is left of a part without the content of a result. -/
def ContentPart.erase : ContentPart B O X → ContentPart B O X
  | toolResponse response => toolResponse { response with content := [] }
  | part => part

def ChatMessage.erase (message : ChatMessage B O X R) : ChatMessage B O X R :=
  { message with content := message.content.map ContentPart.erase }

def ChatRequest.erase (request : ChatRequest B O X R Q) : ChatRequest B O X R Q :=
  { request with messages := request.messages.map ChatMessage.erase }

def minimumOf (content : List Char) : Nat := min (serializedSize content) minResultBytes

def reserved (contents : List (List Char)) : Nat := (contents.map minimumOf).sum

def sentBytes (contents : List (List Char)) : Nat := (contents.map serializedSize).sum

theorem reserved_cons (content : List Char) (contents : List (List Char)) :
    reserved (content :: contents) = minimumOf content + reserved contents := rfl

theorem reserved_append (a b : List (List Char)) : reserved (a ++ b) = reserved a + reserved b := by
  rw [reserved, List.map_append, List.sum_append]
  rfl

theorem sentBytes_append (a b : List (List Char)) : sentBytes (a ++ b) = sentBytes a + sentBytes b := by
  rw [sentBytes, List.map_append, List.sum_append]
  rfl

section Served

variable (fromStr : List Char → Option Value)

/-- The budget is at least what was reserved, what is sent fits it, and is the original where that fits. -/
def Fitted (budget : Nat) (content sent : List Char) : Prop :=
  minimumOf content ≤ budget ∧ serializedSize sent ≤ budget ∧ (serializedSize content ≤ budget ∧ sent = content ∨
    budget < serializedSize content ∧ Shortened fromStr content budget sent)

/-- Each result, from the oldest, is served what the newer ones leave of the total without what is reserved for the
older ones. -/
def Served (total : Nat) : Nat → List (List Char) → List (List Char) → Prop
  | _, [], [] => True
  | older, content :: contents, sent :: rest =>
    Fitted fromStr (min (total - sentBytes rest - older) maxResultBytes) content sent ∧
      Served total (older + minimumOf content) contents rest
  | _, _, _ => False

variable {fromStr} {total older : Nat}

theorem Served.append {a b a' b' : List (List Char)}
    (ha : Served fromStr (total - sentBytes b') older a a') (hb : Served fromStr total (older + reserved a) b b') :
    Served fromStr total older (a ++ b) (a' ++ b') := by
  induction a generalizing older a' with
  | nil =>
    cases a' with
    | nil => exact hb
    | cons sent rest => exact ha.elim
  | cons content a ih =>
    cases a' with
    | nil => exact ha.elim
    | cons sent rest =>
      obtain ⟨hfitted, hrest⟩ := ha
      have hbudget : total - sentBytes b' - sentBytes rest - older = total - sentBytes (rest ++ b') - older := by
        rw [sentBytes_append]
        omega
      rw [hbudget] at hfitted
      refine ⟨hfitted, ih hrest ?_⟩
      rw [Nat.add_assoc, ← reserved_cons]
      exact hb

theorem Served.le_maxResultBytes {contents sent : List (List Char)}
    (h : Served fromStr total older contents sent) : ∀ text ∈ sent, serializedSize text ≤ maxResultBytes := by
  induction contents generalizing older sent with
  | nil =>
    cases sent with
    | nil =>
      intro text htext
      cases htext
    | cons first rest => exact h.elim
  | cons content contents ih =>
    cases sent with
    | nil => exact h.elim
    | cons first rest =>
      obtain ⟨hfitted, hrest⟩ := h
      rintro text (_ | ⟨_, htext⟩)
      · exact Nat.le_trans hfitted.2.1 (Nat.min_le_right _ _)
      · exact ih hrest text htext

variable (fromStr)

def Serves {A : Type} (contents : A → List (List Char)) (erase : A → A) (trim : Pass → A → Outcome (Pass × A)) : Prop :=
  ∀ pass item older, pass.minimumResults = older + reserved (contents item) → pass.minimumResults ≤ pass.remaining →
    match trim pass item with
    | .panicked => False
    | .exceeded => True
    | .ok (next, changed) => next.minimumResults = older ∧ older ≤ next.remaining ∧
      next.remaining + sentBytes (contents changed) = pass.remaining ∧ erase changed = erase item ∧
        Served fromStr pass.remaining older (contents item) (contents changed)

variable {fromStr}

theorem Serves.trimBack {A : Type} {contents : A → List (List Char)} {erase : A → A}
    {trim : Pass → A → Outcome (Pass × A)} (h : Serves fromStr contents erase trim) :
    Serves fromStr (List.flatMap contents) (List.map erase) (trimBack trim) := by
  intro pass items older hminimum hle
  induction items generalizing older with
  | nil => exact ⟨hminimum, Nat.le_trans (Nat.le_add_right _ _) (hminimum ▸ hle), rfl, rfl, trivial⟩
  | cons item items ih =>
    rw [List.flatMap_cons, reserved_append, ← Nat.add_assoc] at hminimum
    have hitems := ih (older + reserved (contents item)) hminimum
    rw [AgentProviders.trimBack]
    cases hback : AgentProviders.trimBack trim pass items with
    | panicked => rw [hback] at hitems; exact hitems
    | exceeded => trivial
    | ok value =>
      obtain ⟨middle, changedItems⟩ := value
      rw [hback] at hitems
      obtain ⟨hmin, hleft, hsent, herase, hserved⟩ := hitems
      have hitem := h middle item older hmin (hmin ▸ hleft)
      simp only
      cases htrim : trim middle item with
      | panicked => rw [htrim] at hitem; exact hitem
      | exceeded => trivial
      | ok value =>
        obtain ⟨next, changed⟩ := value
        rw [htrim] at hitem
        obtain ⟨hmin', hleft', hsent', herase', hserved'⟩ := hitem
        refine ⟨hmin', hleft', ?_, ?_, ?_⟩
        · rw [List.flatMap_cons, sentBytes_append]
          omega
        · rw [List.map_cons, List.map_cons, herase, herase']
        · rw [List.flatMap_cons, List.flatMap_cons]
          have htotal : middle.remaining = pass.remaining - sentBytes (changedItems.flatMap contents) := by omega
          rw [htotal] at hserved'
          exact hserved'.append hserved

theorem trimPart_serves : Serves fromStr ContentPart.contents ContentPart.erase
    (trimPart fromStr : Pass → ContentPart B O X → _) := by
  intro pass part older hminimum hle
  have hkept : older ≤ pass.remaining := Nat.le_trans (Nat.le_add_right _ _) (hminimum ▸ hle)
  cases part with
  | binary data => exact ⟨hminimum, hkept, rfl, rfl, trivial⟩
  | other part => exact ⟨hminimum, hkept, rfl, rfl, trivial⟩
  | toolResponse response =>
    have hreserved : reserved (ContentPart.contents (.toolResponse response : ContentPart B O X)) =
        min (serializedSize response.content) minResultBytes := rfl
    rw [hreserved] at hminimum
    have hsub : checkedSub pass.minimumResults (min (serializedSize response.content) minResultBytes) = some older := by
      rw [checkedSub, if_pos (by omega), hminimum, Nat.add_sub_cancel]
    rw [trimPart]
    simp only [hsub]
    generalize hbudget : min (pass.remaining - older) maxResultBytes = budget
    -- What is sent instead of the content, before its size is compared with the budget.
    obtain ⟨sent, hsent, hchoice⟩ : ∃ sent, (if decide (budget < serializedSize response.content) = true then
        boundedResult fromStr response.content budget else some response.content) = some sent ∧
        (serializedSize response.content ≤ budget ∧ sent = response.content ∨
          budget < serializedSize response.content ∧ Shortened fromStr response.content budget sent) := by
      by_cases hlarge : budget < serializedSize response.content
      · obtain ⟨sent, hsent, hshort⟩ := boundedResult_spec fromStr hlarge
        exact ⟨sent, by rw [if_pos (decide_eq_true hlarge), hsent], .inr ⟨hlarge, hshort⟩⟩
      · exact ⟨response.content, by rw [if_neg (by simpa using hlarge)], .inl ⟨Nat.not_lt.mp hlarge, rfl⟩⟩
    simp only [hsent]
    by_cases hover : budget < serializedSize sent
    · rw [if_pos hover]
      trivial
    · rw [if_neg hover]
      have hfits : serializedSize sent ≤ pass.remaining - older := by omega
      have hrest : checkedSub pass.remaining (serializedSize sent) = some (pass.remaining - serializedSize sent) :=
        if_pos (by omega)
      simp only [hrest]
      have hfitted : Fitted fromStr (min (pass.remaining - sentBytes [] - older) maxResultBytes) response.content sent := by
        change Fitted fromStr (min (pass.remaining - older) maxResultBytes) response.content sent
        rw [hbudget]
        refine ⟨?_, Nat.not_lt.mp hover, hchoice⟩
        have hleast : minimumOf response.content ≤ 512 := Nat.min_le_right _ _
        have hshare : minimumOf response.content ≤ pass.remaining - older := by
          change min (serializedSize response.content) minResultBytes ≤ _
          omega
        rw [← hbudget]
        exact Nat.le_min.mpr ⟨hshare, Nat.le_trans hleast (by decide)⟩
      refine ⟨trivial, by omega, ?_, rfl, hfitted, trivial⟩
      change pass.remaining - serializedSize sent + (serializedSize sent + 0) = pass.remaining
      omega

theorem trimMessage_serves : Serves fromStr ChatMessage.contents ChatMessage.erase
    (trimMessage fromStr : Pass → ChatMessage B O X R → _) := by
  intro pass message older hminimum hle
  have hpart : Serves fromStr ContentPart.contents ContentPart.erase (trimPart fromStr : Pass → ContentPart B O X → _) :=
    trimPart_serves
  have hparts := hpart.trimBack pass message.content older hminimum hle
  rw [trimMessage]
  cases hback : trimBack (trimPart fromStr) pass message.content with
  | panicked => rw [hback] at hparts; exact hparts
  | exceeded => trivial
  | ok value =>
    obtain ⟨next, content⟩ := value
    rw [hback] at hparts
    obtain ⟨hmin, hleft, hsent, herase, hserved⟩ := hparts
    exact ⟨hmin, hleft, hsent, by rw [ChatMessage.erase, ChatMessage.erase, herase], hserved⟩

end Served

theorem reserve_parts (crates : Crates B O X R Q) (parts : List (ContentPart B O X)) (acc : Nat × Nat) :
    (parts.foldl (reservePart crates) acc).2 = acc.2 + reserved (parts.flatMap ContentPart.contents) := by
  induction parts generalizing acc with
  | nil => rfl
  | cons part parts ih =>
    rw [List.foldl_cons, ih, List.flatMap_cons, reserved_append, ← Nat.add_assoc]
    congr 1
    cases part with
    | toolResponse response => rfl
    | binary data => rfl
    | other part => rfl

theorem reserve_minimum (crates : Crates B O X R Q) (request : ChatRequest B O X R Q) :
    (reserve crates request).2 = reserved request.results := by
  have hmessages : ∀ (messages : List (ChatMessage B O X R)) (acc : Nat × Nat),
      (messages.foldl (fun acc message => message.content.foldl (reservePart crates) acc) acc).2 =
        acc.2 + reserved (messages.flatMap ChatMessage.contents) := by
    intro messages
    induction messages with
    | nil => exact fun _ => rfl
    | cons message messages ih =>
      intro acc
      rw [List.foldl_cons, ih, reserve_parts, List.flatMap_cons, reserved_append, Nat.add_assoc]
      rfl
  exact (hmessages request.messages _).trans (Nat.zero_add _)

end InfiniShell.AgentProviders
