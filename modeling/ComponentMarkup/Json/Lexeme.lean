import ComponentMarkup.Json.Fault
import ComponentMarkup.Json.Numeral

/-!
# Lexemes of JSON

A text is cut into lexemes from left to right: every character is blank, starts a lexeme or belongs
to the one before. A character that starts no lexeme, or a string or number that cannot be read,
becomes a broken token, with which the cutting ends; whether and how this is a fault depends on
what the grammar awaits there.
-/

namespace ComponentMarkup

/-- A scalar as spelled, strings apart: the words for infinity and for no number are read, though
they are none of JSON. -/
inductive Literal where
  | null
  | bool (value : Bool)
  | string (value : Text)
  | number (numeral : Numeral)
  | infinity (negative : Bool)
  | nan
  deriving DecidableEq

/-- The smallest parts of a JSON text. -/
inductive Token where
  | openObject
  | closeObject
  | openArray
  | closeArray
  | colon
  | comma
  | literal (value : Literal)
  /-- A string that cannot be read, with its fault. -/
  | badString (fault : Fault)
  /-- An integer with too many digits. -/
  | hugeInteger (digits : Nat)
  /-- A character that starts no token. -/
  | stray
  deriving DecidableEq

/-- A token and the offset of its first character. -/
structure Lexeme where
  start : Nat
  token : Token
  deriving DecidableEq

/-- Is there nothing to be read behind this token? -/
def Token.isBroken : Token → Bool
  | badString _ => true
  | hugeInteger _ => true
  | stray => true
  | _ => false

/-! ## Strings -/

/-- The characters that may stand between lexemes. -/
def isBlank (c : Char) : Bool := c = ' ' || c = '\t' || c = '\n' || c = '\r'

/-- The value of a hexadecimal digit. -/
def hexDigit? (c : Char) : Option Nat :=
  if '0' ≤ c ∧ c ≤ '9' then some (c.toNat - '0'.toNat)
  else if 'a' ≤ c ∧ c ≤ 'f' then some (c.toNat - 'a'.toNat + 10)
  else if 'A' ≤ c ∧ c ≤ 'F' then some (c.toNat - 'A'.toNat + 10)
  else none

/-- The code point that four hexadecimal digits stand for. -/
def hexPoint? (a b c d : Char) : Option CodePoint := do
  let n := (((← hexDigit? a) * 16 + (← hexDigit? b)) * 16 + (← hexDigit? c)) * 16 + (← hexDigit? d)
  if h : n < 0x110000 then some ⟨n, h⟩ else none

/-- The character that a letter behind a backslash stands for. -/
def shortEscape? : Char → Option Char
  | '"' => some '"'
  | '\\' => some '\\'
  | '/' => some '/'
  | 'b' => some '\x08'
  | 'f' => some '\x0c'
  | 'n' => some '\n'
  | 'r' => some '\r'
  | 't' => some '\t'
  | _ => none

/-- The text of a string literal and the number of its characters behind the opening quote, or the
fault in it. `opening` is the offset of the opening quote, `offset` that of the first character
given. -/
def scanString (opening offset : Nat) : List Char → Except Fault (Text × Nat)
  | [] => .error (.malformed .unterminatedString opening)
  | '"' :: _ => .ok ([], offset - opening)
  | '\\' :: 'u' :: a :: b :: c :: d :: rest =>
      match hexPoint? a b c d with
      | some point =>
          if rest = [] then .error (.malformed .badUnicodeEscape (offset + 1))
          else (scanString opening (offset + 6) rest).map fun r => (Text.joinPair point r.1, r.2)
      | none => .error (.malformed .badUnicodeEscape (offset + 1))
  | '\\' :: 'u' :: _ => .error (.malformed .badUnicodeEscape (offset + 1))
  | '\\' :: c :: rest =>
      match shortEscape? c with
      | some e =>
          (scanString opening (offset + 2) rest).map fun r => (CodePoint.ofChar e :: r.1, r.2)
      | none => .error (.malformed .unknownEscape offset)
  | ['\\'] => .error (.malformed .unterminatedString opening)
  | c :: rest =>
      if c.toNat < 0x20 then .error (.malformed .controlCharacter offset)
      else (scanString opening (offset + 1) rest).map fun r => (CodePoint.ofChar c :: r.1, r.2)

/-! ## Tokens -/

/-- The words that are values. -/
def literalWords : List (List Char × Literal) :=
  [("null".toList, .null), ("true".toList, .bool true), ("false".toList, .bool false),
    ("NaN".toList, .nan), ("Infinity".toList, .infinity false),
    ("-Infinity".toList, .infinity true)]

/-- The token of a numeral. -/
def numeralToken (n : Numeral) : Token :=
  if n.isInteger ∧ n.whole.length > integerDigitLimit then .hugeInteger n.whole.length
  else .literal (.number n)

/-- The word or number that a text starts with, and its length. -/
def scanWord (cs : List Char) : Token × Nat :=
  match literalWords.find? fun w => w.1.isPrefixOf cs with
  | some (word, value) => (.literal value, word.length)
  | none =>
      match Numeral.read? cs with
      | some n => (numeralToken n, n.spelling.length)
      | none => (.stray, 1)

/-- The token that starts with a character at an offset, and the number of its characters. -/
def scanToken (offset : Nat) (c : Char) (rest : List Char) : Token × Nat :=
  match c with
  | '\x7b' => (.openObject, 1)
  | '\x7d' => (.closeObject, 1)
  | '[' => (.openArray, 1)
  | ']' => (.closeArray, 1)
  | ':' => (.colon, 1)
  | ',' => (.comma, 1)
  | '"' =>
      match scanString offset (offset + 1) rest with
      | .ok (text, length) => (.literal (.string text), length + 1)
      | .error fault => (.badString fault, 1)
  | c => scanWord (c :: rest)

/-- The lexemes of a text whose first character has the given offset and whose first `skip`
characters belong to a lexeme before. -/
def lexemesFrom (skip offset : Nat) : List Char → List Lexeme
  | [] => []
  | c :: cs =>
      if skip > 0 then lexemesFrom (skip - 1) (offset + 1) cs
      else if isBlank c then lexemesFrom 0 (offset + 1) cs
      else
        let (token, length) := scanToken offset c cs
        ⟨offset, token⟩ ::
          if token.isBroken then [] else lexemesFrom (length - 1) (offset + 1) cs

/-- The lexemes of a text, up to the first broken one. -/
def lexemes (text : List Char) : List Lexeme := lexemesFrom 0 0 text

end ComponentMarkup
