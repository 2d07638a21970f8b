/-!
# Double precision numbers

A finite double is a sign and a rank: its place among the non-negative doubles in ascending order.
Every finite double is a whole multiple of the least positive one, `2 ^ -1074`, so its exact value
is a natural number of such units, and reading, rounding and comparing stay within `Nat`.
-/

namespace ComponentMarkup

/-- The number of non-negative finite doubles. -/
def Double.rankCount : Nat := 0x7FF0000000000000

/-- A double precision number; all that is not a number counts as one value. -/
inductive Double where
  | finite (negative : Bool) (rank : Fin Double.rankCount)
  | infinity (negative : Bool)
  | nan
  deriving DecidableEq

namespace Double

/-- The number of least positive doubles that make one. -/
def unit : Nat := Nat.pow 2 1074

/-- The number of doubles between two powers of two. -/
def binadeSize : Nat := 0x10000000000000

/-- The value of the double of a given rank, in units. -/
def unitsOfRank (rank : Nat) : Nat :=
  if rank < binadeSize then rank
  else (binadeSize + rank % binadeSize) * Nat.pow 2 (rank / binadeSize - 1)

/-- The quotient of two natural numbers, rounded to the nearest; a tie goes to the even one. -/
def roundedQuotient (num den : Nat) : Nat :=
  let floor := num / den
  let twice := 2 * (num % den)
  if twice > den ∨ twice = den ∧ floor % 2 = 1 then floor + 1 else floor

/-- The rank whose value is nearest to `num / den` units, as if there were no greatest one: the
quotient keeps 53 binary digits, and each digit dropped in front of them is one binade. -/
def nearestRank (num den : Nat) : Nat :=
  let binade := (num / den).log2 - 52
  binade * binadeSize + roundedQuotient num (den * Nat.pow 2 binade)

/-- The double of a rank; from the first rank past the greatest double on it is infinite. -/
def ofRank (negative : Bool) (rank : Nat) : Double :=
  if h : rank < rankCount then .finite negative ⟨rank, h⟩ else .infinity negative

/-- Zero. -/
def zero : Double := .finite false ⟨0, by decide⟩

/-- One. -/
def one : Double := .finite false ⟨1023 * binadeSize, by decide⟩

instance : Inhabited Double := ⟨zero⟩

/-- Neither infinite nor without a value. -/
def isFinite : Double → Bool
  | .finite .. => true
  | _ => false

/-! ## From decimals and integers -/

/-- The double nearest to `digits * 10 ^ exponent`, a tie going to the even rank. A power of ten
that takes any digits out of range is not computed. -/
def ofDecimal (negative : Bool) (digits : Nat) : Int → Double
  | .ofNat n =>
      if digits = 0 then ofRank negative 0
      else if n > 400 then .infinity negative
      else ofRank negative (nearestRank (digits * Nat.pow 10 n * unit) 1)
  | .negSucc n =>
      if digits.log2 + 1100 < 3 * n then ofRank negative 0
      else ofRank negative (nearestRank (digits * unit) (Nat.pow 10 (n + 1)))

/-- The double nearest to an integer, unless this is past the greatest double. -/
def ofInt? (n : Int) : Option Double :=
  let rank := nearestRank (n.natAbs * unit) 1
  if h : rank < rankCount then some (.finite (n < 0) ⟨rank, h⟩) else none

/-- A finite double without its fraction. -/
def toInt? : Double → Option Int
  | .finite negative rank =>
      let magnitude : Nat := unitsOfRank rank / unit
      some (if negative then -magnitude else magnitude)
  | _ => none

end Double

end ComponentMarkup
