import ComponentMarkup.Json.Tree

/-!
# Numerals

A numeral is a number as spelled: a whole part without superfluous zeros, and optionally a fraction
and an exponent. Reading takes the longest numeral that a text starts with.
-/

namespace ComponentMarkup

/-- An exponent as spelled: its letter, its sign, if there is one, and its digits. -/
structure Exponent where
  letter : Char
  sign : Option Char
  digits : List Char
  deriving DecidableEq

/-- A number as spelled. -/
structure Numeral where
  negative : Bool
  whole : List Char
  fraction : Option (List Char)
  exponent : Option Exponent
  deriving DecidableEq

/-- A digit from `0` to `9`. -/
def isDigit (c : Char) : Bool := '0' ≤ c && c ≤ '9'

/-- The number that decimal digits spell. -/
def digitsValue (digits : List Char) : Nat :=
  digits.foldl (fun n c => n * 10 + (c.toNat - '0'.toNat)) 0

namespace Exponent

/-- The characters of an exponent. -/
def spelling (e : Exponent) : List Char := e.letter :: e.sign.toList ++ e.digits

/-- The power of ten that an exponent stands for. -/
def value (e : Exponent) : Int :=
  let magnitude : Nat := digitsValue e.digits
  if e.sign = some '-' then -magnitude else magnitude

/-- The sign that a text starts with. -/
def splitSign : List Char → Option Char × List Char
  | '+' :: cs => (some '+', cs)
  | '-' :: cs => (some '-', cs)
  | cs => (none, cs)

/-- The exponent that a text starts with. -/
def read? : List Char → Option Exponent
  | c :: cs =>
      if c = 'e' ∨ c = 'E' then
        let (sign, rest) := splitSign cs
        let digits := rest.takeWhile isDigit
        if digits = [] then none else some ⟨c, sign, digits⟩
      else none
  | [] => none

end Exponent

namespace Numeral

/-- The fraction of a numeral with its point. -/
def fractionSpelling : Option (List Char) → List Char
  | some digits => '.' :: digits
  | none => []

/-- The characters of a numeral. -/
def spelling (n : Numeral) : List Char :=
  (if n.negative then ['-'] else []) ++ n.whole ++ fractionSpelling n.fraction ++
    (n.exponent.map Exponent.spelling).getD []

/-- The whole part that a text starts with: one zero, or digits that start with another one. -/
def readWhole? : List Char → Option (List Char)
  | '0' :: _ => some ['0']
  | cs => if cs.takeWhile isDigit = [] then none else some (cs.takeWhile isDigit)

/-- The digits of the fraction that a text starts with. -/
def readFraction? : List Char → Option (List Char)
  | '.' :: cs => if cs.takeWhile isDigit = [] then none else some (cs.takeWhile isDigit)
  | _ => none

/-- The longest numeral without a sign that a text starts with. -/
def readMagnitude? (negative : Bool) (cs : List Char) : Option Numeral := do
  let whole ← readWhole? cs
  let afterWhole := cs.drop whole.length
  let fraction := readFraction? afterWhole
  let afterFraction := afterWhole.drop (fractionSpelling fraction).length
  return ⟨negative, whole, fraction, Exponent.read? afterFraction⟩

/-- The longest numeral that a text starts with. -/
def read? : List Char → Option Numeral
  | '-' :: cs => readMagnitude? true cs
  | cs => readMagnitude? false cs

/-- Is this the spelling of an integer, with neither fraction nor exponent? -/
def isInteger (n : Numeral) : Bool := n.fraction.isNone && n.exponent.isNone

/-- The integer that a numeral without fraction and exponent spells. -/
def toInt (n : Numeral) : Int :=
  let magnitude : Nat := digitsValue n.whole
  if n.negative then -magnitude else magnitude

/-- The double nearest to the number. -/
def toDouble (n : Numeral) : Double :=
  let fraction := n.fraction.getD []
  let power := (n.exponent.map Exponent.value).getD 0
  Double.ofDecimal n.negative (digitsValue (n.whole ++ fraction)) (power - fraction.length)

/-- The number as a JSON scalar. -/
def toScalar (n : Numeral) : Scalar :=
  if n.isInteger then .integer n.toInt else .float n.toDouble

end Numeral

end ComponentMarkup
