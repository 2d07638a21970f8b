import ComponentMarkup.Json.Numeral
import ComponentMarkup.Proofs.Number.Nearest

/-!
# Numbers in decimal

The rational number that a numeral spells, and the scalar that it denotes: an integer, if it has
neither fraction nor exponent, and else the double that the number is rounded to. A numeral denotes
one scalar, and this is what it is read as (`Numeral.denotes_toScalar`).
-/

namespace ComponentMarkup

/-! ## Digits -/

theorem foldl_digits (n : Nat) (digits : List Char) :
    digits.foldl (fun n c => n * 10 + (c.toNat - '0'.toNat)) n =
      n * 10 ^ digits.length + digitsValue digits := by
  induction digits generalizing n with
  | nil => simp [digitsValue]
  | cons c cs ih =>
      rw [digitsValue, List.foldl_cons, List.foldl_cons, ih, ih (0 * 10 + _), List.length_cons]
      ring

theorem digitsValue_append (digits more : List Char) :
    digitsValue (digits ++ more) = digitsValue digits * 10 ^ more.length + digitsValue more := by
  rw [digitsValue, List.foldl_append, foldl_digits]
  rfl

/-! ## Numerals -/

namespace Numeral

/-- The magnitude of the number that a numeral spells. -/
def magnitude (n : Numeral) : ℚ :=
  let fraction := n.fraction.getD []
  (digitsValue n.whole + digitsValue fraction / 10 ^ fraction.length) *
    (10 : ℚ) ^ ((n.exponent.map Exponent.value).getD 0)

/-- A numeral denotes a scalar: with neither fraction nor exponent the integer that it spells, and
else the double that the number is rounded to. -/
inductive Denotes (n : Numeral) : Scalar → Prop where
  | integer {i : Int} (hinteger : n.isInteger = true)
      (hi : (i : ℚ) = if n.negative then -n.magnitude else n.magnitude) : Denotes n (.integer i)
  | float {d : Double} (hinteger : n.isInteger = false)
      (hd : d.IsRounded n.negative n.magnitude) : Denotes n (.float d)

theorem magnitude_of_isInteger {n : Numeral} (h : n.isInteger = true) :
    n.magnitude = digitsValue n.whole := by
  rcases n with ⟨negative, whole, fraction, exponent⟩
  simp only [isInteger, Bool.and_eq_true, Option.isNone_iff_eq_none] at h
  rcases h with ⟨rfl, rfl⟩
  simp [magnitude, digitsValue]

/-- The digits in front of the point and behind it, taken as one integer, count in units of the last
one. -/
theorem magnitude_eq (n : Numeral) :
    n.magnitude = (digitsValue (n.whole ++ n.fraction.getD []) : ℚ) *
      (10 : ℚ) ^ ((n.exponent.map Exponent.value).getD 0 - (n.fraction.getD []).length) := by
  have hten : (10 : ℚ) ≠ 0 := by norm_num
  rw [magnitude, digitsValue_append, zpow_sub₀ hten, zpow_natCast]
  push_cast
  field_simp

/-- A numeral denotes one scalar. -/
theorem Denotes.unique {n : Numeral} {a b : Scalar} (ha : n.Denotes a) (hb : n.Denotes b) :
    a = b := by
  -- integers and doubles are told apart by the numeral alone
  cases ha with
  | integer hinteger hi =>
      cases hb with
      | integer _ hj => rw [Int.cast_inj.1 (hi.trans hj.symm)]
      | float hfloat _ =>
          rw [hinteger] at hfloat
          cases hfloat
  | float hfloat hd =>
      cases hb with
      | integer hinteger _ =>
          rw [hinteger] at hfloat
          cases hfloat
      | float _ he =>
          rcases hd with ⟨rank, hrank, rfl⟩
          rcases he with ⟨rank', hrank', rfl⟩
          rw [hrank.unique hrank']

theorem isRounded_toDouble (n : Numeral) : n.toDouble.IsRounded n.negative n.magnitude := by
  rw [magnitude_eq, toDouble]
  exact Double.isRounded_ofDecimal ..

theorem denotes_toScalar (n : Numeral) : n.Denotes n.toScalar := by
  rw [toScalar]
  split
  · next h =>
    apply Denotes.integer h
    rw [magnitude_of_isInteger h, toInt]
    cases n.negative <;> simp
  · next h => exact .float (by simpa using h) n.isRounded_toDouble

end Numeral

end ComponentMarkup
