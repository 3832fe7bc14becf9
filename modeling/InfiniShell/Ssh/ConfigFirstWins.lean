import Mathlib.Data.List.Induction
import Mathlib.Data.List.Nodup
import InfiniShell.Ssh.ConfigParser

namespace InfiniShell.Ssh

variable {homeJoin : Option (String → String)}

theorem eqIgnoreAsciiCase_iff {s t : String} :
    eqIgnoreAsciiCase s t = true ↔ s.toList.map Char.toLower = t.toList.map Char.toLower := decide_eq_true_iff

theorem eqIgnoreAsciiCase_ne {s t u : String} (h : eqIgnoreAsciiCase s t = true) (hne : eqIgnoreAsciiCase t u = false) :
    eqIgnoreAsciiCase s u = false := by
  have heq := eqIgnoreAsciiCase_iff.mp h
  have hdiffer : ¬ t.toList.map Char.toLower = u.toList.map Char.toLower := of_decide_eq_false hne
  rw [eqIgnoreAsciiCase, heq]
  exact decide_eq_false hdiffer

namespace Statement

def isHost (statement : Statement) : Bool := eqIgnoreAsciiCase statement.keyword "Host"

def isHeader (statement : Statement) : Bool := statement.isHost || eqIgnoreAsciiCase statement.keyword "Match"

def aliases (statement : Statement) : List String :=
  if statement.isHost then parseHostAliases statement.value else []

end Statement

def statements (content : String) : List Statement := (lines content).filterMap statementOf

section Declarations

variable {seen : List Statement} {statement : Statement} {a keyword : String}

def inForce (seen : List Statement) : List String :=
  match seen.reverse.find? Statement.isHeader with
  | some header => header.aliases
  | none => []

def hostAliases (seen : List Statement) : List String := seen.flatMap Statement.aliases

/-- The values that the text declares for `keyword` of the alias `a`, in order. -/
def declared (a keyword : String) (seen : List Statement) : List String :=
  (seen.zipIdx.filter fun p => eqIgnoreAsciiCase p.1.keyword keyword && (inForce (seen.take p.2)).contains a).map
    fun p => p.1.value

theorem inForce_concat : inForce (seen ++ [statement]) =
    if statement.isHeader then statement.aliases else inForce seen := by
  rw [inForce, List.reverse_append, List.reverse_singleton, List.singleton_append, List.find?_cons, inForce]
  cases statement.isHeader <;> rfl

theorem hostAliases_concat : hostAliases (seen ++ [statement]) = hostAliases seen ++ statement.aliases := by
  rw [hostAliases, List.flatMap_append, List.flatMap_singleton, hostAliases]

theorem aliases_eq_nil (h : statement.isHeader = false) : statement.aliases = [] := by
  have hhost : statement.isHost = false := (Bool.or_eq_false_iff.mp h).1
  rw [Statement.aliases, hhost]
  rfl

theorem declared_concat : declared a keyword (seen ++ [statement]) = declared a keyword seen ++
    if eqIgnoreAsciiCase statement.keyword keyword && (inForce seen).contains a then [statement.value] else [] := by
  have hsame : (seen.zipIdx.filter fun p => eqIgnoreAsciiCase p.1.keyword keyword &&
      (inForce ((seen ++ [statement]).take p.2)).contains a) =
      seen.zipIdx.filter fun p => eqIgnoreAsciiCase p.1.keyword keyword && (inForce (seen.take p.2)).contains a := by
    apply List.filter_congr
    intro p hp
    have hlt : p.2 < seen.length := List.snd_lt_of_mem_zipIdx hp
    rw [List.take_append_of_le_length (Nat.le_of_lt hlt)]
  rw [declared, List.zipIdx_append, List.filter_append, List.map_append, hsame, declared]
  congr 1
  rw [List.zipIdx_singleton, List.filter_cons, List.filter_nil, Nat.zero_add, List.take_left]
  split <;> rfl

theorem inForce_subset (h : a ∈ inForce seen) : a ∈ hostAliases seen := by
  induction seen using List.reverseRecOn with
  | nil => simp [inForce] at h
  | append_singleton seen statement ih =>
    rw [hostAliases_concat]
    rw [inForce_concat] at h
    split at h
    next => exact List.mem_append_right _ h
    next => exact List.mem_append_left _ (ih h)

theorem declared_eq_nil (h : a ∉ hostAliases seen) : declared a keyword seen = [] := by
  induction seen using List.reverseRecOn with
  | nil => rfl
  | append_singleton seen statement ih =>
    rw [hostAliases_concat, List.mem_append, not_or] at h
    have hnot : a ∉ inForce seen := fun hmem => h.1 (inForce_subset hmem)
    rw [declared_concat, ih h.1]
    simp [hnot]

end Declarations

namespace BodyFields

/-- What `body` says, and what it leaves open as `later` says. -/
def or (body later : BodyFields) : BodyFields where
  hostname := body.hostname.or later.hostname
  user := body.user.or later.user
  port := body.port.or later.port
  identityFile := body.identityFile.or later.identityFile

variable {body later : BodyFields}

theorem or_empty : body.or {} = body := by simp [or]

theorem empty_or : BodyFields.or {} body = body := by simp [or]

theorem or_assoc (body later last : BodyFields) : (body.or later).or last = body.or (later.or last) := by
  simp [or, Option.or_assoc]

theorem or_again : (body.or later).or later = body.or later := by
  rw [or_assoc]
  simp [or]

end BodyFields

theorem applyBodyField_eq (body : BodyFields) (keyword value : String) :
    applyBodyField homeJoin body keyword value = body.or (applyBodyField homeJoin {} keyword value) := by
  obtain ⟨hostname, user, port, identityFile⟩ := body
  unfold applyBodyField
  split
  · cases hostname <;> simp [BodyFields.or]
  split
  · cases user <;> simp [BodyFields.or]
  split
  · cases port <;> simp [BodyFields.or]
  cases eqIgnoreAsciiCase keyword "IdentityFile" <;> cases identityFile <;> simp [BodyFields.or]

theorem applyBodyField_of_eq {body : BodyFields} {keyword value k : String} (h : eqIgnoreAsciiCase keyword k = true)
    (hk : k ∈ ["Host", "Match", "Include"]) : applyBodyField homeJoin body keyword value = body := by
  have hfields : ∀ k ∈ ["Host", "Match", "Include"], ∀ field ∈ ["HostName", "User", "Port", "IdentityFile"],
      eqIgnoreAsciiCase k field = false := by decide
  have hnone : ∀ field ∈ ["HostName", "User", "Port", "IdentityFile"], eqIgnoreAsciiCase keyword field = false :=
    fun field hfield => eqIgnoreAsciiCase_ne h (hfields k hk field hfield)
  simp [applyBodyField, hnone]

theorem mergeMissingFields_candidate (body later : BodyFields) (a : String) :
    mergeMissingFields (body.candidate a) (later.candidate a) = (body.or later).candidate a := by
  obtain ⟨hostname, user, port, identityFile⟩ := body
  cases hostname <;> cases user <;> cases port <;> cases identityFile <;> rfl

section FirstOccurrences

variable {l m : List String} {a : String}

theorem eraseDups_of_nodup (h : l.Nodup) : l.eraseDups = l := by
  induction l with
  | nil => rfl
  | cons x l ih =>
    obtain ⟨hx, hnodup⟩ := List.nodup_cons.mp h
    have hkept : l.filter (fun y => !y == x) = l := by
      apply List.filter_eq_self.mpr
      intro y hy
      have hne : y ≠ x := ne_of_mem_of_not_mem hy hx
      simpa using hne
    rw [List.eraseDups_cons, hkept, ih hnodup]

theorem nodup_eraseDups (l : List String) : l.eraseDups.Nodup := by
  induction hlength : l.length using Nat.strongRecOn generalizing l with
  | ind n ih =>
    cases l with
    | nil => exact List.nodup_nil
    | cons x l =>
      rw [List.eraseDups_cons, List.nodup_cons, List.mem_eraseDups]
      constructor
      · simp
      · apply ih _ _ _ rfl
        rw [← hlength]
        exact Nat.lt_succ_of_le (List.length_filter_le _ l)

theorem eraseDups_push : ((if a ∈ l then l else l ++ [a]) ++ m).eraseDups = (l ++ a :: m).eraseDups := by
  split
  next h =>
    have hdrop : (a :: m).removeAll l = m.removeAll l := by simp [List.removeAll, h]
    rw [List.eraseDups_append, List.eraseDups_append, hdrop]
  next => rw [List.append_assoc, List.singleton_append]

theorem eraseDups_append_eraseDups : (l.eraseDups ++ m).eraseDups = (l ++ m).eraseDups := by
  have hdrop : m.removeAll l.eraseDups = m.removeAll l := by
    apply List.filter_congr
    intro x _
    simp [List.mem_eraseDups]
  rw [List.eraseDups_append, List.eraseDups_append, hdrop, eraseDups_of_nodup (nodup_eraseDups l)]

end FirstOccurrences

section Table

variable {order : List String} {fields : String → BodyFields} {body : BodyFields} {a : String}

def table (order : List String) (fields : String → BodyFields) : List SshConfigCandidate :=
  order.map fun a => (fields a).candidate a

theorem mergeOrPush_table (hnodup : order.Nodup) (hempty : a ∉ order → fields a = {}) :
    mergeOrPush (table order fields) (body.candidate a) =
      table (if a ∈ order then order else order ++ [a]) fun x => if x = a then (fields a).or body else fields x := by
  induction order with
  | nil => simp [table, mergeOrPush, hempty List.not_mem_nil, BodyFields.empty_or]
  | cons x order ih =>
    obtain ⟨hx, hnodup⟩ := List.nodup_cons.mp hnodup
    have hcons : table (x :: order) fields = (fields x).candidate x :: table order fields := rfl
    rw [hcons, mergeOrPush]
    by_cases heq : x = a
    · subst heq
      have hsame : table order (fun y => if y = x then (fields x).or body else fields y) = table order fields := by
        apply List.map_congr_left
        intro y hy
        have hne : y ≠ x := ne_of_mem_of_not_mem hy hx
        simp [hne]
      have hsameAlias : ((fields x).candidate x).hostAlias = (body.candidate x).hostAlias := rfl
      rw [if_pos hsameAlias, mergeMissingFields_candidate, if_pos List.mem_cons_self, ← hsame]
      simp [table]
    · have hmem : a ∈ x :: order ↔ a ∈ order := by simp [Ne.symm heq]
      have hother : ¬ ((fields x).candidate x).hostAlias = (body.candidate a).hostAlias := heq
      rw [if_neg hother, ih hnodup fun h => hempty (by rwa [hmem])]
      simp only [hmem]
      split <;> simp [table, heq]

theorem flush_table {aliases : List String} (hnodup : order.Nodup) (hempty : ∀ a, a ∉ order → fields a = {}) :
    flush (.inHost aliases body) (table order fields) =
      table (order ++ aliases).eraseDups fun x => if x ∈ aliases then (fields x).or body else fields x := by
  induction aliases generalizing order fields with
  | nil => simp [flush, eraseDups_of_nodup hnodup]
  | cons a aliases ih =>
    have hstep : flush (.inHost (a :: aliases) body) (table order fields) =
        flush (.inHost aliases body) (mergeOrPush (table order fields) (body.candidate a)) := rfl
    rw [hstep, mergeOrPush_table hnodup (hempty a), ih]
    · rw [eraseDups_push]
      congr 1
      funext x
      by_cases heq : x = a
      · subst heq
        simp [BodyFields.or_again]
      · simp [heq]
    · split
      next => exact hnodup
      next h => exact List.concat_eq_append ▸ hnodup.concat h
    · intro x hx
      have hparts : x ∉ order ∧ x ≠ a := by
        split at hx
        next h => exact ⟨hx, fun heq => hx (heq ▸ h)⟩
        next => simpa using hx
      simp [hparts.2, hempty x hparts.1]

end Table

section Parsing

variable {seen : List Statement} {statement : Statement} {state : ParseState} {out : List SshConfigCandidate}
  {a keyword : String}

def identityPath (homeJoin : Option (String → String)) (value : String) : String :=
  expandTilde homeJoin (stripSurroundingQuotes value)

/-- What the parser finds declared for `a`: the first value of each field, and of the ports the first that is one. -/
def found (homeJoin : Option (String → String)) (seen : List Statement) (a : String) : BodyFields where
  hostname := (declared a "HostName" seen).head?
  user := (declared a "User" seen).head?
  port := (declared a "Port" seen).findSome? parseU16
  identityFile := (declared a "IdentityFile" seen).head?.map (identityPath homeJoin)

theorem found_eq_empty (h : a ∉ hostAliases seen) : found homeJoin seen a = {} := by
  simp only [found, declared_eq_nil h]
  rfl

theorem found_concat : found homeJoin (seen ++ [statement]) a =
    if a ∈ inForce seen then (found homeJoin seen a).or (applyBodyField homeJoin {} statement.keyword statement.value)
    else found homeJoin seen a := by
  by_cases hin : a ∈ inForce seen
  · rw [if_pos hin]
    simp only [found, declared_concat, List.contains_iff_mem.mpr hin, Bool.and_true, List.head?_append,
      List.findSome?_append, Option.map_or, BodyFields.or]
    cases hhostname : eqIgnoreAsciiCase statement.keyword "HostName" with
    | true =>
      have huser := eqIgnoreAsciiCase_ne hhostname (by decide : eqIgnoreAsciiCase "HostName" "User" = false)
      have hport := eqIgnoreAsciiCase_ne hhostname (by decide : eqIgnoreAsciiCase "HostName" "Port" = false)
      have hidentity := eqIgnoreAsciiCase_ne hhostname (by decide : eqIgnoreAsciiCase "HostName" "IdentityFile" = false)
      simp [applyBodyField, hhostname, huser, hport, hidentity]
    | false =>
    cases huser : eqIgnoreAsciiCase statement.keyword "User" with
    | true =>
      have hport := eqIgnoreAsciiCase_ne huser (by decide : eqIgnoreAsciiCase "User" "Port" = false)
      have hidentity := eqIgnoreAsciiCase_ne huser (by decide : eqIgnoreAsciiCase "User" "IdentityFile" = false)
      simp [applyBodyField, hhostname, huser, hport, hidentity]
    | false =>
    cases hport : eqIgnoreAsciiCase statement.keyword "Port" with
    | true =>
      have hidentity := eqIgnoreAsciiCase_ne hport (by decide : eqIgnoreAsciiCase "Port" "IdentityFile" = false)
      simp [applyBodyField, hhostname, huser, hport, hidentity]
    | false =>
      cases hidentity : eqIgnoreAsciiCase statement.keyword "IdentityFile" <;>
        simp [applyBodyField, hhostname, huser, hport, hidentity, identityPath]
  · rw [if_neg hin]
    simp [found, declared_concat, hin]

def ParseState.aliases : ParseState → List String
  | .inHost aliases _ => aliases
  | _ => []

def ParseState.body : ParseState → BodyFields
  | .inHost _ body => body
  | _ => {}

/-- Where the parser is after these statements, with `order` and `fields` collected before the open block. -/
structure Reading (homeJoin : Option (String → String)) (seen : List Statement) (state : ParseState)
    (order : List String) (fields : String → BodyFields) : Prop where
  nodup : order.Nodup
  empty : ∀ a, a ∉ order → fields a = {}
  aliases : state.aliases = inForce seen
  hosts : (order ++ state.aliases).eraseDups = (hostAliases seen).eraseDups
  found : ∀ a, found homeJoin seen a = if a ∈ state.aliases then (fields a).or state.body else fields a

namespace Reading

variable {order : List String} {fields : String → BodyFields}

theorem start : Reading homeJoin [] .outside [] fun _ => {} where
  nodup := List.nodup_nil
  empty _ _ := rfl
  aliases := rfl
  hosts := rfl
  found _ := rfl

theorem flush (h : Reading homeJoin seen state order fields) :
    flush state (table order fields) = table (hostAliases seen).eraseDups (Ssh.found homeJoin seen) := by
  rw [← h.hosts, funext h.found]
  cases state with
  | inHost aliases body => exact flush_table h.nodup h.empty
  | outside => simp [ParseState.aliases, eraseDups_of_nodup h.nodup, Ssh.flush]
  | inMatch => simp [ParseState.aliases, eraseDups_of_nodup h.nodup, Ssh.flush]

variable {next : ParseState}

theorem header (hheader : statement.isHeader = true) (haliases : next.aliases = statement.aliases)
    (hbody : next.body = {}) :
    Reading homeJoin (seen ++ [statement]) next (hostAliases seen).eraseDups (Ssh.found homeJoin seen) where
  nodup := nodup_eraseDups _
  empty a ha := found_eq_empty fun h => ha (List.mem_eraseDups.mpr h)
  aliases := by rw [inForce_concat, hheader, haliases, if_pos rfl]
  hosts := by rw [eraseDups_append_eraseDups, hostAliases_concat, haliases]
  found a := by
    have hnothing : applyBodyField homeJoin {} statement.keyword statement.value = {} := by
      obtain hhost | hmatch := Bool.or_eq_true_iff.mp hheader
      · exact applyBodyField_of_eq hhost (by simp)
      · exact applyBodyField_of_eq hmatch (by simp)
    simp [found_concat, hnothing, hbody, BodyFields.or_empty]

theorem line (h : Reading homeJoin seen state order fields) (hheader : statement.isHeader = false)
    (haliases : next.aliases = state.aliases)
    (hbody : state.aliases ≠ [] → next.body = applyBodyField homeJoin state.body statement.keyword statement.value) :
    Reading homeJoin (seen ++ [statement]) next order fields where
  nodup := h.nodup
  empty := h.empty
  aliases := by rw [inForce_concat, hheader, haliases, h.aliases]; rfl
  hosts := by rw [hostAliases_concat, aliases_eq_nil hheader, List.append_nil, haliases, h.hosts]
  found a := by
    rw [found_concat, ← h.aliases, h.found, haliases]
    split
    next ha => rw [hbody (List.ne_nil_of_mem ha), applyBodyField_eq state.body, BodyFields.or_assoc]
    next => rfl

theorem step (h : Reading homeJoin seen state order fields) : ∃ next order' fields',
    parseStatement homeJoin (state, table order fields) statement = (next, table order' fields') ∧
      Reading homeJoin (seen ++ [statement]) next order' fields' := by
  cases hhost : eqIgnoreAsciiCase statement.keyword "Host" with
  | true =>
    have hheader : statement.isHeader = true := by simp [Statement.isHeader, Statement.isHost, hhost]
    have haliases : statement.aliases = parseHostAliases statement.value := if_pos hhost
    refine ⟨if (parseHostAliases statement.value).isEmpty then .inMatch
      else .inHost (parseHostAliases statement.value) {}, _, _, ?_, header hheader ?_ ?_⟩
    · simp [parseStatement, hhost, h.flush]
    · rw [haliases]
      split
      next hempty => exact (List.isEmpty_iff.mp hempty).symm
      next => rfl
    · split <;> rfl
  | false =>
  cases hmatch : eqIgnoreAsciiCase statement.keyword "Match" with
  | true =>
    have hheader : statement.isHeader = true := by simp [Statement.isHeader, hmatch]
    have haliases : statement.aliases = [] := by simp [Statement.aliases, Statement.isHost, hhost]
    refine ⟨.inMatch, _, _, ?_, header hheader haliases.symm rfl⟩
    simp [parseStatement, hhost, hmatch, h.flush]
  | false =>
  have hheader : statement.isHeader = false := by simp [Statement.isHeader, Statement.isHost, hhost, hmatch]
  cases hinclude : eqIgnoreAsciiCase statement.keyword "Include" with
  | true =>
    have hline := h.line hheader rfl fun _ => (applyBodyField_of_eq hinclude (by simp)).symm
    exact ⟨state, order, fields, by simp [parseStatement, hhost, hmatch, hinclude], hline⟩
  | false =>
    cases state with
    | inHost aliases body =>
      refine ⟨.inHost aliases (applyBodyField homeJoin body statement.keyword statement.value), order, fields, ?_,
        h.line hheader rfl fun _ => rfl⟩
      simp [parseStatement, hhost, hmatch, hinclude]
    | outside =>
      have hline := h.line hheader rfl fun ha => absurd rfl ha
      exact ⟨_, _, _, by simp [parseStatement, hhost, hmatch, hinclude], hline⟩
    | inMatch =>
      have hline := h.line hheader rfl fun ha => absurd rfl ha
      exact ⟨_, _, _, by simp [parseStatement, hhost, hmatch, hinclude], hline⟩

end Reading

theorem foldl_parseLine (lines : List String) (s : ParseState × List SshConfigCandidate) :
    lines.foldl (parseLine homeJoin) s = (lines.filterMap statementOf).foldl (parseStatement homeJoin) s := by
  induction lines generalizing s with
  | nil => rfl
  | cons line lines ih =>
    cases hline : statementOf line with
    | none => rw [List.filterMap_cons_none hline, List.foldl_cons, parseLine, hline, ih]
    | some statement => rw [List.filterMap_cons_some hline, List.foldl_cons, List.foldl_cons, parseLine, hline, ih]

variable (homeJoin) in
theorem foldl_reading (seen : List Statement) : ∃ state order fields,
    seen.foldl (parseStatement homeJoin) (.outside, []) = (state, table order fields) ∧
      Reading homeJoin seen state order fields := by
  induction seen using List.reverseRecOn with
  | nil => exact ⟨.outside, [], fun _ => {}, rfl, Reading.start⟩
  | append_singleton seen statement ih =>
    obtain ⟨state, order, fields, heq, hreading⟩ := ih
    rw [List.foldl_append, heq]
    exact hreading.step

theorem parseSshConfig_eq (content : String) :
    parseSshConfig homeJoin content =
      table (hostAliases (statements content)).eraseDups (found homeJoin (statements content)) := by
  obtain ⟨state, order, fields, heq, hreading⟩ := foldl_reading homeJoin (statements content)
  rw [parseSshConfig, foldl_parseLine, ← statements, heq]
  exact hreading.flush

end Parsing

section FirstWins

/-- Every alias once, in the order of the text, and every field the first value declared for it. -/
structure FirstDeclarationWins (homeJoin : Option (String → String)) (seen : List Statement)
    (candidates : List SshConfigCandidate) : Prop where
  aliases : candidates.map SshConfigCandidate.hostAlias = (hostAliases seen).eraseDups
  hostname : ∀ c ∈ candidates, c.hostname = (declared c.hostAlias "HostName" seen).head?
  user : ∀ c ∈ candidates, c.user = (declared c.hostAlias "User" seen).head?
  port : ∀ c ∈ candidates, c.port = (declared c.hostAlias "Port" seen).head?.bind parseU16
  identityFile : ∀ c ∈ candidates,
    c.identityFile = (declared c.hostAlias "IdentityFile" seen).head?.map (identityPath homeJoin)

/-- The first declared port is one, or none of them is. -/
def FirstPortDecides (seen : List Statement) (a : String) : Prop :=
  ∀ first ∈ (declared a "Port" seen).head?, parseU16 first = none → ∀ later ∈ declared a "Port" seen, parseU16 later = none

theorem findSome?_eq_head?_bind_iff {A B : Type} {f : A → Option B} {l : List A} :
    l.findSome? f = l.head?.bind f ↔ ∀ first ∈ l.head?, f first = none → ∀ later ∈ l, f later = none := by
  cases l with
  | nil => simp
  | cons first l =>
    rw [List.findSome?_cons, List.head?_cons, Option.bind_some]
    cases hfirst : f first with
    | some port => simp [hfirst]
    | none => simp [hfirst]

end FirstWins

end InfiniShell.Ssh
