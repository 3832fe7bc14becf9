import InfiniShell.AgentProviders.RequestBudget

namespace InfiniShell.AgentProviders

open Collections

/-- The longest beginning and the longest end of a text that have together at most `n` bytes, half of them each. -/
structure Halves (source : List Char) (n : Nat) (head tail : List Char) : Prop where
  apart : ∃ middle, source = head ++ (middle ++ tail)
  head_le : byteLen head ≤ n / 2
  tail_le : byteLen tail ≤ n - n / 2
  head_max : ∀ h r, source = h ++ r → byteLen h ≤ n / 2 → byteLen h ≤ byteLen head
  tail_max : ∀ r t, source = r ++ t → byteLen t ≤ n - n / 2 → byteLen t ≤ byteLen tail

theorem suffix_of_byteLen_le {l₁ l₂ r₁ r₂ : List Char} (h : l₁ ++ r₁ = l₂ ++ r₂) (hle : byteLen r₁ ≤ byteLen r₂) :
    ∃ t, r₂ = t ++ r₁ := by
  have hbytes := congrArg byteLen h
  rw [byteLen_append, byteLen_append] at hbytes
  obtain ⟨t, ht⟩ := prefix_of_byteLen_le h.symm (by omega)
  refine ⟨t, ?_⟩
  rw [ht, List.append_assoc] at h
  exact (List.append_cancel_left h).symm

namespace Halves

variable {source head tail head' tail' : List Char} {n n' : Nat} (h : Halves source n head tail)
include h

theorem source_prefix : ∃ r, source = head ++ r := by
  obtain ⟨middle, hsource⟩ := h.apart
  exact ⟨middle ++ tail, hsource⟩

theorem source_suffix : ∃ l, source = l ++ tail := by
  obtain ⟨middle, hsource⟩ := h.apart
  exact ⟨head ++ middle, by rw [hsource, List.append_assoc]⟩

theorem mono (h' : Halves source n' head' tail') (hle : n ≤ n') :
    (∃ x, head' = head ++ x) ∧ ∃ y, tail' = y ++ tail := by
  obtain ⟨r, hr⟩ := h.source_prefix
  obtain ⟨r', hr'⟩ := h'.source_prefix
  obtain ⟨l, hl⟩ := h.source_suffix
  obtain ⟨l', hl'⟩ := h'.source_suffix
  have hhead := h.head_le
  have htail := h.tail_le
  constructor
  · exact prefix_of_byteLen_le (hr.symm.trans hr') (h'.head_max head r hr (by omega))
  · exact suffix_of_byteLen_le (hl.symm.trans hl') (h'.tail_max l tail hl (by omega))

theorem unique (h' : Halves source n head' tail') : head' = head ∧ tail' = tail := by
  obtain ⟨⟨x, hx⟩, y, hy⟩ := h.mono h' (Nat.le_refl n)
  obtain ⟨⟨x', hx'⟩, y', hy'⟩ := h'.mono h (Nat.le_refl n)
  have hlenx := congrArg List.length hx
  have hlenx' := congrArg List.length hx'
  have hleny := congrArg List.length hy
  have hleny' := congrArg List.length hy'
  rw [List.length_append] at hlenx hlenx' hleny hleny'
  constructor
  · rw [hx, List.eq_nil_of_length_eq_zero (l := x) (by omega), List.append_nil]
  · rw [hy, List.eq_nil_of_length_eq_zero (l := y) (by omega), List.nil_append]

theorem lt_add (hn : n ≤ byteLen source) : n < byteLen head + byteLen tail + 7 := by
  obtain ⟨r, hr⟩ := h.source_prefix
  obtain ⟨l, hl⟩ := h.source_suffix
  have hlen : byteLen source = byteLen l + byteLen tail := by rw [hl, byteLen_append]
  have hhead := lt_longest_add_four hr (by omega) h.head_max
  have htail : byteLen l < byteLen source - (n - n / 2) + 4 := by
    apply shortest_lt_add_four hl
    · have hle := h.tail_le
      omega
    · intro t' r' hsplit hge
      have hlen' : byteLen source = byteLen t' + byteLen r' := by rw [hsplit, byteLen_append]
      have hmax := h.tail_max t' r' hsplit (by omega)
      omega
  omega

end Halves

theorem preview_spec {source : List Char} {n : Nat} (hn : n ≤ byteLen source) :
    ∃ head tail, preview source n = some (head ++ omitted ++ tail) ∧ Halves source n head tail := by
  obtain ⟨head, r, hr, hheadEnd, hheadLe, hheadMax⟩ := floorCharBoundary_spec source (n / 2)
  have hsub : checkedSub (byteLen source) (n - n / 2) = some (byteLen source - (n - n / 2)) := if_pos (by omega)
  have hstart : byteLen source - (n - n / 2) ≤ byteLen source := Nat.sub_le _ _
  obtain ⟨before, tail, hl, htailStart, htailGe, htailMin⟩ := ceilCharBoundary_spec hstart
  have hlen : byteLen source = byteLen before + byteLen tail := by rw [hl, byteLen_append]
  have hmiddle : byteLen head ≤ byteLen before := by omega
  obtain ⟨middle, hbefore⟩ := prefix_of_byteLen_le (hr.symm.trans hl) hmiddle
  refine ⟨head, tail, ?_, ?_⟩
  · have htake : takeBytes source (byteLen head) = some head := by rw [hr, takeBytes_append]
    have hdrop : dropBytes source (byteLen before) = some tail := by rw [hl, dropBytes_append]
    unfold preview
    simp only [hsub, Option.bind_eq_bind, Option.bind_some, ← hheadEnd, ← htailStart, htake, hdrop]
  · constructor
    · exact ⟨middle, by rw [hl, hbefore, List.append_assoc]⟩
    · exact hheadLe
    · omega
    · exact hheadMax
    · intro l t hsplit hle
      have hlen' : byteLen source = byteLen l + byteLen t := by rw [hsplit, byteLen_append]
      have hmin := htailMin l t hsplit (by omega)
      omega

section Search

variable (envelope : BTreeMap String Value) (field : String) (source : List Char)

def candidate (n : Nat) : List Char :=
  (Value.ofMap (withText envelope field ((preview source n).getD []))).render

variable {source} {n : Nat}

theorem candidate_eq {head tail : List Char} (h : Halves source n head tail) (hn : n ≤ byteLen source) :
    candidate envelope field source n = (Value.ofMap (withText envelope field (head ++ omitted ++ tail))).render := by
  obtain ⟨head', tail', hpreview, h'⟩ := preview_spec hn
  obtain ⟨rfl, rfl⟩ := h.unique h'
  rw [candidate, hpreview, Option.getD_some]

theorem escapedLen_quote (text : List Char) : escapedLen (quote text) = 4 + escapedLen (text.flatMap escapeChar) := by
  rw [quote, ← List.singleton_append, escapedLen_append, escapedLen_append]
  change 2 + _ + 2 = _
  omega

theorem escapedLen_flatMap_append (a b : List Char) : escapedLen ((a ++ b).flatMap escapeChar) =
    escapedLen (a.flatMap escapeChar) + escapedLen (b.flatMap escapeChar) := by
  rw [List.flatMap_append, escapedLen_append]

variable {envelope field}

theorem serializedSize_candidate_mono {n n' : Nat} (hle : n ≤ n') (hn' : n' ≤ byteLen source) :
    serializedSize (candidate envelope field source n) ≤ serializedSize (candidate envelope field source n') := by
  obtain ⟨head, tail, -, h⟩ := preview_spec (Nat.le_trans hle hn')
  obtain ⟨head', tail', -, h'⟩ := preview_spec hn'
  obtain ⟨⟨x, hx⟩, y, hy⟩ := h.mono h' hle
  obtain ⟨rest, hrest⟩ := exists_serializedSize envelope field
  rw [candidate_eq _ _ h (Nat.le_trans hle hn'), candidate_eq _ _ h' hn', withText, withText, hrest, hrest, escapedLen_quote,
    escapedLen_quote, hx, hy]
  simp only [escapedLen_flatMap_append]
  omega

theorem lt_serializedSize_candidate (envelope : BTreeMap String Value) (field : String) (hn : n ≤ byteLen source) :
    n < serializedSize (candidate envelope field source n) := by
  obtain ⟨head, tail, -, h⟩ := preview_spec hn
  obtain ⟨rest, hrest⟩ := exists_serializedSize envelope field
  have hbytes := byteLen_le_escapedLen ((head ++ omitted ++ tail).flatMap escapeChar)
  have hescaped := byteLen_le_escapedLen (head ++ omitted ++ tail)
  have hshort := h.lt_add hn
  have homitted : 19 ≤ byteLen omitted := by decide +kernel
  rw [candidate_eq _ _ h hn, withText, hrest, escapedLen_quote]
  unfold escapedLen at hescaped
  rw [byteLen_append, byteLen_append] at hescaped
  omega

/-- What the search returns: a preview that fits and is the longest up to `top`, or the first text if none fits. -/
def Searched (envelope : BTreeMap String Value) (field : String) (source : List Char) (budget top : Nat)
    (initial text : List Char) : Prop :=
  (∃ keep ≤ top, text = candidate envelope field source keep ∧
    ∀ n, keep < n → n ≤ top → budget < serializedSize (candidate envelope field source n)) ∨
  (text = initial ∧ ∀ n ≤ top, budget < serializedSize (candidate envelope field source n))

theorem searchPreview_spec {budget top : Nat} {initial : List Char} (htop : top ≤ byteLen source) (fuel : Nat) :
    ∀ {low high : Nat} {best : List Char}, high + 2 ≤ fuel + low → low ≤ high + 1 → high ≤ top →
      (low = 0 ∧ best = initial ∨ ∃ keep, low = keep + 1 ∧ best = candidate envelope field source keep) →
      (∀ n, high < n → n ≤ top → budget < serializedSize (candidate envelope field source n)) →
      ∃ text, searchPreview envelope field source budget fuel low high best = some text ∧
        Searched envelope field source budget top initial text := by
  induction fuel with
  | zero =>
    intro low high best hfuel hlow
    omega
  | succ fuel ih =>
    intro low high best hfuel hlow hhigh hbest habove
    rw [searchPreview]
    by_cases hopen : low ≤ high
    · rw [if_pos hopen]
      generalize hkeep : low + (high - low) / 2 = keep
      have hkeepLe : keep ≤ high := by omega
      obtain ⟨head, tail, hpreview, h⟩ := preview_spec (Nat.le_trans hkeepLe (Nat.le_trans hhigh htop))
      have hcandidate := candidate_eq envelope field h (by omega)
      simp only [hpreview, Option.bind_eq_bind, Option.bind_some, ← hcandidate]
      by_cases hfits : serializedSize (candidate envelope field source keep) ≤ budget
      · rw [if_pos hfits]
        exact ih (by omega) (by omega) hhigh (.inr ⟨keep, rfl, rfl⟩) habove
      · rw [if_neg hfits]
        have hlarge : ∀ n, keep ≤ n → n ≤ top → budget < serializedSize (candidate envelope field source n) := by
          intro n hn hle
          exact Nat.lt_of_lt_of_le (Nat.not_le.mp hfits) (serializedSize_candidate_mono hn (Nat.le_trans hle htop))
        by_cases hzero : keep = 0
        · rw [if_pos hzero]
          obtain ⟨-, hinitial⟩ | ⟨last, hlast, -⟩ := hbest
          · exact ⟨best, rfl, .inr ⟨hinitial, fun n hn => hlarge n (by omega) hn⟩⟩
          · omega
        · rw [if_neg hzero]
          exact ih (by omega) (by omega) (by omega) hbest (fun n hn => hlarge n (by omega))
    · rw [if_neg hopen]
      refine ⟨best, rfl, ?_⟩
      obtain ⟨hlow, hinitial⟩ | ⟨keep, hkeep, hbest⟩ := hbest
      · omega
      · obtain rfl : keep = high := by omega
        exact .inl ⟨keep, hhigh, hbest, habove⟩

end Search

/-- A result that was cut for a budget: an object with the note and, if any preview fits, the longest that does. -/
def Shortened (fromStr : List Char → Option Value) (content : List Char) (budget : Nat) (sent : List Char) : Prop :=
  ∃ (object : BTreeMap String Value) (field : String) (source : List Char),
    sent = (Value.ofMap object).render ∧ object.get truncationKey = some (truncationValue content) ∧
    (source = content ∨ ∃ fields, (fromStr content).bind Value.asObject = some fields ∧
      fields.get "output" = some (.string source)) ∧
    ((∃ keep head tail, Halves source keep head tail ∧ keep ≤ byteLen source ∧
        object.get field = some (.string (head ++ omitted ++ tail)) ∧
        ∀ n head' tail', Halves source n head' tail' → keep < n → n ≤ byteLen source →
          budget < serializedSize (Value.ofMap (withText object field (head' ++ omitted ++ tail'))).render) ∨
      ((object.get field = none ∨ object.get field = some (.string [])) ∧
        ∀ n head' tail', Halves source n head' tail' → n ≤ byteLen source →
          budget < serializedSize (Value.ofMap (withText object field (head' ++ omitted ++ tail'))).render))

theorem get_withText (envelope : BTreeMap String Value) (field : String) (text : List Char) (key : String) :
    (withText envelope field text).get key = if key = field then some (.string text) else envelope.get key :=
  BTreeMap.get_insert envelope field key _

theorem withText_withText (envelope : BTreeMap String Value) (field : String) (text text' : List Char) :
    withText (withText envelope field text) field text' = withText envelope field text' := by
  apply BTreeMap.ext_get
  intro key
  rw [get_withText, get_withText, get_withText]
  split <;> rfl

variable {key : String}

theorem foldl_copyField_get (envelope : BTreeMap String Value) (keys : List String) (hkey : key ∉ keys)
    (minimal : BTreeMap String Value) : (keys.foldl (copyField envelope) minimal).get key = minimal.get key := by
  induction keys generalizing minimal with
  | nil => rfl
  | cons other keys ih =>
    obtain ⟨hne, hrest⟩ := not_or.mp (mt List.mem_cons.mpr hkey)
    rw [List.foldl_cons, ih hrest, copyField]
    split
    · rw [BTreeMap.get_insert, if_neg hne]
    · rfl

theorem minimalEnvelope_get (content : List Char) (envelope : BTreeMap String Value)
    (hkey : key ∉ controlKeys) : (minimalEnvelope content envelope).get key =
      if key = truncationKey then some (truncationValue content) else none := by
  rw [minimalEnvelope, foldl_copyField_get envelope controlKeys hkey, BTreeMap.get_insert, BTreeMap.get_empty]

variable (fromStr : List Char → Option Value)
include fromStr

theorem splitContent_field (content : List Char) :
    (splitContent fromStr content).2.2 = "output" ∨ (splitContent fromStr content).2.2 = "preview" := by
  unfold splitContent
  split
  next =>
    split
    next => exact .inl rfl
    next => exact .inr rfl
  next => exact .inr rfl

theorem splitContent_source (content : List Char) :
    (splitContent fromStr content).2.1 = content ∨ ∃ fields, (fromStr content).bind Value.asObject = some fields ∧
      fields.get "output" = some (.string (splitContent fromStr content).2.1) := by
  unfold splitContent
  split
  next fields hfields =>
    split
    next output houtput => exact .inr ⟨fields, hfields, houtput⟩
    next => exact .inl rfl
  next => exact .inl rfl

theorem chooseEnvelope_spec (content : List Char) (budget : Nat) :
    ∃ envelope field, chooseEnvelope fromStr content budget = (envelope, (splitContent fromStr content).2.1, field) ∧
      field ≠ truncationKey ∧ envelope.get truncationKey = some (truncationValue content) ∧
      (envelope.get field = none ∨ envelope.get field = some (.string [])) := by
  unfold chooseEnvelope
  have hfield := splitContent_field fromStr content
  generalize splitContent fromStr content = split at hfield ⊢
  obtain ⟨object, source, field⟩ := split
  simp only at hfield ⊢
  have hkey : field ≠ truncationKey ∧ field ∉ controlKeys := by
    obtain rfl | rfl := hfield <;> decide
  split
  next =>
    have hnone := minimalEnvelope_get content
      (withText (object.insert truncationKey (truncationValue content)) field []) hkey.2
    rw [if_neg hkey.1] at hnone
    have hpreview := minimalEnvelope_get content (withText (object.insert truncationKey (truncationValue content)) field [])
      (show "preview" ∉ controlKeys by decide)
    rw [if_neg (by decide)] at hpreview
    refine ⟨_, "preview", ?_, by decide, ?_, .inl hpreview⟩
    · rw [hnone]
      rfl
    · rw [minimalEnvelope_get _ _ (by decide), if_pos rfl]
  next =>
    have hsome : (withText (object.insert truncationKey (truncationValue content)) field []).get field =
        some (.string []) := by
      rw [get_withText, if_pos rfl]
    refine ⟨_, field, ?_, hkey.1, ?_, .inr hsome⟩
    · rw [hsome]
      rfl
    · rw [get_withText, if_neg (Ne.symm hkey.1), BTreeMap.get_insert, if_pos rfl]

theorem boundedResult_spec {content : List Char} {budget : Nat} (hlarge : budget < serializedSize content) :
    ∃ sent, boundedResult fromStr content budget = some sent ∧ Shortened fromStr content budget sent := by
  obtain ⟨envelope, field, hchoose, hfield, hnote, hempty⟩ := chooseEnvelope_spec fromStr content budget
  have hsource := splitContent_source fromStr content
  generalize (splitContent fromStr content).2.1 = source at hchoose hsource
  obtain ⟨sent, hsearch, hresult⟩ : ∃ sent, searchPreview envelope field source budget
      (min (byteLen source) budget + 2) 0 (min (byteLen source) budget) (Value.ofMap envelope).render = some sent ∧
      Searched envelope field source budget (min (byteLen source) budget) (Value.ofMap envelope).render sent :=
    searchPreview_spec (Nat.min_le_left _ _) _ (Nat.le_refl _) (Nat.zero_le _) (Nat.le_refl _) (.inl ⟨rfl, rfl⟩)
      (fun n hn hle => absurd hle (Nat.not_le.mpr hn))
  refine ⟨sent, ?_, ?_⟩
  · rw [boundedResult, if_neg (Nat.not_le.mpr hlarge), hchoose]
    exact hsearch
  · -- A preview of more bytes than the budget does not fit either.
    have hbeyond : ∀ n, n ≤ byteLen source → ¬ n ≤ min (byteLen source) budget →
        budget < serializedSize (candidate envelope field source n) := by
      intro n hn hnot
      have hlt := lt_serializedSize_candidate envelope field hn
      omega
    obtain ⟨keep, hkeep, rfl, hlonger⟩ | ⟨rfl, hnever⟩ := hresult
    · have hkeepLen : keep ≤ byteLen source := Nat.le_trans hkeep (Nat.min_le_left _ _)
      obtain ⟨head, tail, -, h⟩ := preview_spec hkeepLen
      refine ⟨withText envelope field (head ++ omitted ++ tail), field, source, candidate_eq _ _ h hkeepLen, ?_, hsource,
        .inl ⟨keep, head, tail, h, hkeepLen, ?_, ?_⟩⟩
      · rw [get_withText, if_neg (Ne.symm hfield), hnote]
      · rw [get_withText, if_pos rfl]
      · intro n head' tail' h' hlt hn
        rw [withText_withText, ← candidate_eq _ _ h' hn]
        by_cases hin : n ≤ min (byteLen source) budget
        · exact hlonger n hlt hin
        · exact hbeyond n hn hin
    · refine ⟨envelope, field, source, rfl, hnote, hsource, .inr ⟨hempty, ?_⟩⟩
      intro n head' tail' h' hn
      rw [← candidate_eq _ _ h' hn]
      by_cases hin : n ≤ min (byteLen source) budget
      · exact hnever n hin
      · exact hbeyond n hn hin

end InfiniShell.AgentProviders
