import ComponentMarkup.Json.Numeral
import ComponentMarkup.Text.CaseTable

/-!
# Integers as people write them

An integer may stand between blanks, have a sign, zeros in front and single underscores between its
digits, which may be the decimal digits of any script.
-/

namespace ComponentMarkup

/-- The greatest number of digits of an integer. -/
def integerDigitLimit : Nat := 4300

/-- The blanks that may surround an integer. -/
def isSurroundingBlank (c : Char) : Bool :=
  inRanges
    [(0x09, 0x0D), (0x20, 0x20), (0x85, 0x85), (0xA0, 0xA0), (0x1680, 0x1680), (0x2000, 0x200A),
      (0x2028, 0x2029), (0x202F, 0x202F), (0x205F, 0x205F), (0x3000, 0x3000)] c.toNat

/-- A text without the characters at both ends that satisfy a condition. -/
def trimmed (p : Char → Bool) (text : List Char) : List Char :=
  ((text.dropWhile p).reverse.dropWhile p).reverse

/-- Digits without single underscores between them; other underscores stay. -/
def dropUnderscores : List Char → List Char
  | c :: '_' :: d :: cs =>
      if c = '_' ∨ d = '_' then c :: '_' :: d :: cs else c :: dropUnderscores (d :: cs)
  | c :: cs => c :: dropUnderscores cs
  | [] => []

/-- The zeros of all scripts; the other decimal digits of a script follow its zero. -/
def decimalZeros : List Nat :=
  [0x30, 0x660, 0x6F0, 0x7C0, 0x966, 0x9E6, 0xA66, 0xAE6, 0xB66, 0xBE6, 0xC66, 0xCE6, 0xD66,
    0xDE6, 0xE50, 0xED0, 0xF20, 0x1040, 0x1090, 0x17E0, 0x1810, 0x1946, 0x19D0, 0x1A80, 0x1A90,
    0x1B50, 0x1BB0, 0x1C40, 0x1C50, 0xA620, 0xA8D0, 0xA900, 0xA9D0, 0xA9F0, 0xAA50, 0xABF0,
    0xFF10, 0x104A0, 0x10D30, 0x11066, 0x110F0, 0x11136, 0x111D0, 0x112F0, 0x11450, 0x114D0,
    0x11650, 0x116C0, 0x11730, 0x118E0, 0x11950, 0x11C50, 0x11D50, 0x11DA0, 0x16A60, 0x16AC0,
    0x16B50, 0x1D7CE, 0x1D7D8, 0x1D7E2, 0x1D7EC, 0x1D7F6, 0x1E140, 0x1E2F0, 0x1E950, 0x1FBF0]

/-- The value of a decimal digit of any script. -/
def decimalDigit? (c : Char) : Option Nat :=
  (decimalZeros.find? fun first => first ≤ c.toNat && c.toNat < first + 10).map (c.toNat - ·)

/-- The number that decimal digits of any script spell. -/
def decimalValue? (digits : List Char) : Option Nat :=
  if digits = [] ∨ digits.length > integerDigitLimit then none
  else digits.foldlM (fun n c => (decimalDigit? c).map (n * 10 + ·)) 0

/-- The integer that a text spells. -/
def integerOfText? (text : List Char) : Option Int :=
  let (sign, digits) := Exponent.splitSign (trimmed isSurroundingBlank text)
  (decimalValue? (dropUnderscores digits)).map fun n => if sign = some '-' then -n else n

end ComponentMarkup
