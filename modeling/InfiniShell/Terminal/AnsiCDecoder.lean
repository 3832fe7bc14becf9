import InfiniShell.Collections.Utf8Text
import InfiniShell.Ssh.ConfigParser
import InfiniShell.Terminal.Storage

namespace InfiniShell.Terminal.AnsiC

open Collections

/-- The value of a digit or a letter, and the radix for every other character. -/
def digitOr (radix : Nat) (c : Char) : Nat :=
  if 48 ≤ c.toNat ∧ c.toNat ≤ 57 then c.toNat - 48
  else if 65 ≤ c.toNat ∧ c.toNat ≤ 90 then c.toNat - 55
  else if 97 ≤ c.toNat ∧ c.toNat ≤ 122 then c.toNat - 87
  else radix

/-- `char::to_digit` -/
def toDigit (radix : Nat) (c : Char) : Option Nat :=
  if digitOr radix c < radix then some (digitOr radix c) else none

def digitsValue (radix : Nat) : Nat → List Char → Option Nat
  | n, [] => some n
  | n, c :: cs => do
    let digit ← toDigit radix c
    digitsValue radix (n * radix + digit) cs

/-- `from_str_radix` of an unsigned type with this maximum. -/
def fromStrRadix (radix maximum : Nat) (text : List Char) : Option Nat :=
  match text with
  | [] => none
  | ['+'] => none
  | '+' :: digits => (digitsValue radix 0 digits).filter (· ≤ maximum)
  | digits => (digitsValue radix 0 digits).filter (· ≤ maximum)

/-- `char::from_u32` -/
def charFromU32 (n : Nat) : Option Char := if n.isValidChar then some (Char.ofNat n) else none

def letterEscape (next : Char) : Option Char :=
  match next with
  | 'a' => some '\x07'
  | 'b' => some '\x08'
  | 'E' | 'e' => some '\x1b'
  | 'f' => some '\x0c'
  | 'n' => some '\n'
  | 'r' => some '\r'
  | 't' => some '\t'
  | 'v' => some '\x0b'
  | '\\' => some '\\'
  | '\x27' => some '\x27'
  | '\x22' => some '\x22'
  | '?' => some '?'
  | _ => none

/-- What is pushed, and the characters that are left. -/
abbrev Step := List Char × List Char

/-- The window of bytes behind the letter is read whole, and as many characters are skipped. -/
def hexEscape (width maximum : Nat) (rest : List Char) : Step :=
  match takeBytes rest width with
  | none => ([], rest)
  | some hexValue => (((fromStrRadix 16 maximum hexValue).bind charFromU32).toList, rest.drop width)

def octalEscape (next : Char) (rest : List Char) : Step :=
  match takeBytes (next :: rest) 3 with
  | none => ([], rest.drop 2)
  | some octalValue => (((fromStrRadix 8 0xFFFFFFFF octalValue).bind charFromU32).toList, rest.drop 2)

/-- `none` is a panic of the subtraction. -/
def controlEscape : List Char → Option Step
  | [] => some ([], [])
  | c :: rest =>
    if (0x40 ≤ c.toNat ∧ c.toNat ≤ 0x5f) ∨ c.toNat = 0x7f then
      (checkedSub (c.toNat % 256) 64).map fun n => ([Char.ofNat n], rest)
    else some ([], rest)

/-- What stands behind a backslash. -/
def readEscape : List Char → Option Step
  | [] => some ([], [])
  | next :: rest =>
    match letterEscape next with
    | some c => some ([c], rest)
    | none =>
      if next = 'x' then some (hexEscape 2 0xFF rest)
      else if next = 'u' then some (hexEscape 4 0xFFFFFFFF rest)
      else if next = 'U' then some (hexEscape 8 0xFFFFFFFF rest)
      else if next = 'c' then controlEscape rest
      else some (octalEscape next rest)

def marksHidden (text : List Char) : Bool :=
  takeBytes text 4 = some ['\\', '0', '0', '1'] || takeBytes text 4 = some ['\\', '0', '0', '2']

def step (c : Char) (cs : List Char) : Option Step :=
  if c ≠ '\\' then some ([c], cs)
  else if marksHidden (c :: cs) then some ([], cs.drop 3)
  else readEscape cs

/-- The loop; every step takes a character. -/
def unescape : Nat → List Char → Option (List Char)
  | _, [] => some []
  | 0, _ :: _ => none
  | fuel + 1, c :: cs => do
    let (pushed, rest) ← step c cs
    let text ← unescape fuel rest
    some (pushed ++ text)

def quote : Char := '\x27'

/-- `none` is a panic. -/
def parseAnsiCQuotedString (quotedString : List Char) : Option (List Char) :=
  if quotedString.all Ssh.isWhitespace then some quotedString
  else
    match quotedString with
    | dollar :: opening :: trimmed =>
      if dollar = '$' ∧ opening = quote ∧ trimmed.getLast? = some quote then
        unescape trimmed.dropLast.length trimmed.dropLast
      else some quotedString
    | _ => some quotedString

/-! What the manual says of a body. -/

/-- What a piece of the body stands for. -/
inductive Reading where
  | text (c : Char)
  | byte (n : Nat)
  | hidden
  | malformed
deriving DecidableEq

/-- The digits at the start of a text, at most as many as the escape may have. -/
def digits (radix width : Nat) (text : List Char) : List Char :=
  (text.take width).takeWhile fun c => (toDigit radix c).isSome

def numeral (radix : Nat) (ds : List Char) : Option Nat := if ds = [] then none else digitsValue radix 0 ds

def readByte (n : Nat) : Option Reading := some (.byte n)

def readUnicode (n : Nat) : Option Reading := (charFromU32 n).map .text

def manualHex (width : Nat) (read : Nat → Option Reading) (rest : List Char) : Reading × List Char :=
  (((numeral 16 (digits 16 width rest)).bind read).getD .malformed, rest.drop (digits 16 width rest).length)

/-- An eight-bit character, or a backslash before a letter that makes no escape. -/
def manualOctal (next : Char) (rest : List Char) : Reading × List Char :=
  match numeral 8 (digits 8 3 (next :: rest)) with
  | some n => (.byte (n % 256), (next :: rest).drop (digits 8 3 (next :: rest)).length)
  | none => (.malformed, rest)

def controlOf (c : Char) : Option Char :=
  if 0x40 ≤ c.toNat ∧ c.toNat ≤ 0x5f then some (Char.ofNat (c.toNat - 64))
  else if c.isLower then some (Char.ofNat (c.toNat - 96))
  else if c = '?' then some '\x7f'
  else none

def manualControl : List Char → Reading × List Char
  | [] => (.malformed, [])
  | c :: rest => (((controlOf c).map .text).getD .malformed, rest)

def manualEscape : List Char → Reading × List Char
  | [] => (.malformed, [])
  | next :: rest =>
    if (next :: rest).take 3 = ['0', '0', '1'] ∨ (next :: rest).take 3 = ['0', '0', '2'] then (.hidden, rest.drop 2)
    else
      match letterEscape next with
      | some c => (.text c, rest)
      | none =>
        if next = 'x' then manualHex 2 readByte rest
        else if next = 'u' then manualHex 4 readUnicode rest
        else if next = 'U' then manualHex 8 readUnicode rest
        else if next = 'c' then manualControl rest
        else manualOctal next rest

/-- The reading of the first piece of a text, and the text behind it. -/
def manualStep (c : Char) (cs : List Char) : Reading × List Char :=
  if c ≠ '\\' then (.text c, cs) else manualEscape cs

def pieces : Nat → List Char → List (Reading × List Char)
  | _, [] => []
  | 0, _ :: _ => []
  | fuel + 1, c :: cs => ((manualStep c cs).1, c :: cs) :: pieces fuel (manualStep c cs).2

def readings (body : List Char) : List Reading := (pieces body.length body).map Prod.fst

def encoded (c : Char) : List Reading := (String.utf8EncodeChar c).map fun b => .byte b.toNat

/-- A text that says what the pieces stand for; anything may stand for a malformed escape. -/
inductive Spells : List Reading → List Char → Prop where
  | nil : Spells [] []
  | text (c : Char) {rs : List Reading} {out : List Char} : Spells rs out → Spells (.text c :: rs) (c :: out)
  | hidden {rs : List Reading} {out : List Char} : Spells rs out → Spells (.hidden :: rs) out
  | malformed (lost : List Char) {rs : List Reading} {out : List Char} :
      Spells rs out → Spells (.malformed :: rs) (lost ++ out)
  /-- A run of bytes that encodes a character. -/
  | encoded (c : Char) {all rs : List Reading} {out : List Char} :
      all = encoded c ++ rs → Spells rs out → Spells all (c :: out)
  /-- A byte at which no encoding begins. -/
  | stray (n : Nat) {rs : List Reading} {out : List Char} :
      (∀ c rest, .byte n :: rs ≠ AnsiC.encoded c ++ rest) → Spells rs out → Spells (.byte n :: rs) (Char.ofNat n :: out)

/-- Unquoting the body gives a text the manual allows. -/
def Unquotes (body : List Char) : Prop :=
  ∃ out, parseAnsiCQuotedString ('$' :: quote :: body ++ [quote]) = some out ∧ Spells (readings body) out

end InfiniShell.Terminal.AnsiC
