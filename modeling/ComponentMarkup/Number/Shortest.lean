import ComponentMarkup.Number.Double

/-!
# The text of a double

A finite double is written with the fewest digits that read back as the same double; of two such
numbers with equally many digits the nearer one is taken, and of two equally near ones that with
the even last digit.
-/

namespace ComponentMarkup

/-- The number `digits * 10 ^ exponent`. -/
structure Decimal where
  digits : Nat
  exponent : Int
  deriving DecidableEq

namespace Decimal

/-- The exact value of a number of units: `2 ^ -1074` has 1074 decimal places. -/
def ofUnits (units : Nat) : Decimal := ⟨units * Nat.pow 5 1074, -1074⟩

/-- The two neighbours of a decimal among those that drop its last `places` digits, the better one
first. -/
def neighbours (d : Decimal) (places : Nat) : List Decimal :=
  let grid := Nat.pow 10 places
  let below : Decimal := ⟨d.digits / grid, d.exponent + places⟩
  let above : Decimal := ⟨d.digits / grid + 1, d.exponent + places⟩
  let twice := 2 * (d.digits % grid)
  if twice > grid ∨ twice = grid ∧ below.digits % 2 = 1 then [above, below] else [below, above]

end Decimal

namespace Double

/-- A decimal with the fewest digits, at most 17, that reads back as the double of the rank. -/
def shortestDecimal (rank : Nat) : Decimal :=
  let exact := Decimal.ofUnits (unitsOfRank rank)
  let length := (Nat.toDigits 10 exact.digits).length
  let candidates := (List.range' 1 17).flatMap fun count => exact.neighbours (length - count)
  let readsBack (d : Decimal) : Bool := ofDecimal false d.digits d.exponent = ofRank false rank
  (candidates.find? readsBack).getD exact

/-- Where a decimal is written without an exponent, and how wide an exponent is at least. -/
structure Layout where
  /-- The least decimal exponent of a number written without one. -/
  leastPlain : Int
  /-- The greatest decimal exponent of a number written without one. -/
  greatestPlain : Int
  /-- The least number of digits of an exponent. -/
  exponentWidth : Nat

/-- Numbers from `0.0001` to below `10 ^ 16` are written without an exponent, others with one of
at least two digits. -/
def layout : Layout := ⟨-4, 15, 2⟩

/-- Writes `0.d₁d₂… * 10 ^ (exponent + 1)` for the given digits. -/
def layoutDigits (digits : List Char) (exponent : Int) : List Char :=
  if layout.leastPlain ≤ exponent ∧ exponent ≤ layout.greatestPlain then
    if exponent < 0 then
      ['0', '.'] ++ List.replicate (-exponent - 1).toNat '0' ++ digits
    else
      let whole := exponent.toNat + 1
      let fraction := digits.drop whole
      digits.take whole ++ List.replicate (whole - digits.length) '0' ++ '.' ::
        (if fraction = [] then ['0'] else fraction)
  else
    let power := Nat.toDigits 10 exponent.natAbs
    digits.take 1 ++ (if digits.length > 1 then '.' :: digits.drop 1 else []) ++ 'e' ::
      (if exponent < 0 then '-' else '+') ::
      (List.replicate (layout.exponentWidth - power.length) '0' ++ power)

/-- The digits of a number without the zeros at its end. -/
def significantDigits (n : Nat) : List Char :=
  ((Nat.toDigits 10 n).reverse.dropWhile (· = '0')).reverse

/-- The text of the non-negative double of a rank. -/
def magnitudeText (rank : Nat) : List Char :=
  if rank = 0 then ['0', '.', '0']
  else
    let d := shortestDecimal rank
    layoutDigits (significantDigits d.digits) (d.exponent + (Nat.toDigits 10 d.digits).length - 1)

/-- The text of a double. -/
def text : Double → List Char
  | .finite negative rank => (if negative then ['-'] else []) ++ magnitudeText rank
  | .infinity negative => (if negative then ['-'] else []) ++ ['i', 'n', 'f']
  | .nan => ['n', 'a', 'n']

end Double

end ComponentMarkup
