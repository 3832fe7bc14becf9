

namespace InfiniShell.Ssh

/-- The characters with the Unicode property `White_Space`. -/
def isWhitespace (c : Char) : Bool :=
  let n := c.toNat
  (9 ≤ n && n ≤ 13) || n == 32 || n == 0x85 || n == 0xA0 || n == 0x1680 ||
    (0x2000 ≤ n && n ≤ 0x200A) || n == 0x2028 || n == 0x2029 || n == 0x202F || n == 0x205F || n == 0x3000

def isControl (c : Char) : Bool :=
  let n := c.toNat
  n ≤ 0x1F || (0x7F ≤ n && n ≤ 0x9F)

def trim (s : String) : String :=
  String.ofList ((s.toList.dropWhile isWhitespace).reverse.dropWhile isWhitespace).reverse

structure SshConfigCandidate where
  hostAlias : String
  hostname : Option String
  user : Option String
  port : Option UInt16
  identityFile : Option String
deriving DecidableEq

structure BodyFields where
  hostname : Option String := none
  user : Option String := none
  port : Option UInt16 := none
  identityFile : Option String := none

inductive ParseState where
  | outside
  | inHost (aliases : List String) (body : BodyFields)
  /-- In a block that is dropped: a `Match`, or a `Host` that names no concrete alias. -/
  | inMatch

section Text

/-- The lines of a text, without their ends; a carriage return is part of the end only before a newline. -/
def lines (content : String) : List String :=
  let parts := content.toList.splitOn '\n'
  let ended := parts.dropLast.map fun line => if line.getLast? = some '\r' then line.dropLast else line
  let last := parts.getLast?.filter fun line => !line.isEmpty
  (ended ++ last.toList).map String.ofList

def splitWhitespace (value : String) : List String :=
  ((value.toList.splitOnP isWhitespace).filter fun token => !token.isEmpty).map String.ofList

def eqIgnoreAsciiCase (s t : String) : Bool :=
  decide (s.toList.map Char.toLower = t.toList.map Char.toLower)

def parseU16 (s : String) : Option UInt16 :=
  let digits := match s.toList with
    | '+' :: digits => digits
    | digits => digits
  if digits.isEmpty || !digits.all Char.isDigit then none
  else
    let n := digits.foldl (fun n c => 10 * n + (c.toNat - '0'.toNat)) 0
    if n < 65536 then some (UInt16.ofNat n) else none

def stripSurroundingQuotes (s : String) : String :=
  if 2 ≤ s.toList.length ∧ s.toList.head? = some '"' ∧ s.toList.getLast? = some '"' then
    String.ofList s.toList.tail.dropLast
  else s

/-- What a line says, after its comment is cut off. -/
structure Statement where
  keyword : String
  value : String

def statementOf (line : String) : Option Statement :=
  let trimmed := (trim (String.ofList (line.toList.takeWhile (· ≠ '#')))).toList
  if trimmed.isEmpty then none
  else
    some ⟨String.ofList (trimmed.takeWhile fun c => !isWhitespace c),
      trim (String.ofList (trimmed.dropWhile fun c => !isWhitespace c).tail)⟩

/-- The aliases of a `Host` line that are no patterns. -/
def parseHostAliases (value : String) : List String :=
  (splitWhitespace value).filter fun token =>
    !token.toList.contains '*' && !token.toList.contains '?' && !token.toList.contains '!'

end Text

section Blocks

/-- `homeJoin` is `home_dir().join`, where there is a home directory. -/
def expandTilde (homeJoin : Option (String → String)) (s : String) : String :=
  match s.toList, homeJoin with
  | '~' :: '/' :: rest, some join => join (String.ofList rest)
  | _, _ => s

def applyBodyField (homeJoin : Option (String → String)) (body : BodyFields) (keyword value : String) : BodyFields :=
  if eqIgnoreAsciiCase keyword "HostName" then
    if body.hostname.isNone then { body with hostname := some value } else body
  else if eqIgnoreAsciiCase keyword "User" then
    if body.user.isNone then { body with user := some value } else body
  else if eqIgnoreAsciiCase keyword "Port" then
    if body.port.isNone then { body with port := parseU16 value } else body
  else if eqIgnoreAsciiCase keyword "IdentityFile" && body.identityFile.isNone then
    { body with identityFile := some (expandTilde homeJoin (stripSurroundingQuotes value)) }
  else body

def mergeMissingFields (existing candidate : SshConfigCandidate) : SshConfigCandidate where
  hostAlias := existing.hostAlias
  hostname := if existing.hostname.isNone then candidate.hostname else existing.hostname
  user := if existing.user.isNone then candidate.user else existing.user
  port := if existing.port.isNone then candidate.port else existing.port
  identityFile := if existing.identityFile.isNone then candidate.identityFile else existing.identityFile

def BodyFields.candidate (body : BodyFields) (hostAlias : String) : SshConfigCandidate :=
  ⟨hostAlias, body.hostname, body.user, body.port, body.identityFile⟩

/-- Merges the candidate into the first of its alias, or adds it behind the others. -/
def mergeOrPush : List SshConfigCandidate → SshConfigCandidate → List SshConfigCandidate
  | [], candidate => [candidate]
  | existing :: out, candidate =>
    if existing.hostAlias = candidate.hostAlias then mergeMissingFields existing candidate :: out
    else existing :: mergeOrPush out candidate

/-- The candidates after the block that `state` is in has ended. -/
def flush (state : ParseState) (out : List SshConfigCandidate) : List SshConfigCandidate :=
  match state with
  | .inHost aliases body => aliases.foldl (fun out hostAlias => mergeOrPush out (body.candidate hostAlias)) out
  | _ => out

def parseStatement (homeJoin : Option (String → String)) (s : ParseState × List SshConfigCandidate)
    (statement : Statement) : ParseState × List SshConfigCandidate :=
  let (state, out) := s
  if eqIgnoreAsciiCase statement.keyword "Host" then
    let aliases := parseHostAliases statement.value
    (if aliases.isEmpty then .inMatch else .inHost aliases {}, flush state out)
  else if eqIgnoreAsciiCase statement.keyword "Match" then (.inMatch, flush state out)
  else if eqIgnoreAsciiCase statement.keyword "Include" then (state, out)
  else
    match state with
    | .inHost aliases body => (.inHost aliases (applyBodyField homeJoin body statement.keyword statement.value), out)
    | _ => (state, out)

def parseLine (homeJoin : Option (String → String)) (s : ParseState × List SshConfigCandidate)
    (line : String) : ParseState × List SshConfigCandidate :=
  match statementOf line with
  | none => s
  | some statement => parseStatement homeJoin s statement

def parseSshConfig (homeJoin : Option (String → String)) (content : String) : List SshConfigCandidate :=
  let (state, out) := (lines content).foldl (parseLine homeJoin) (.outside, [])
  flush state out

end Blocks

end InfiniShell.Ssh
