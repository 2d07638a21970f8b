import ComponentMarkup.Number.Double

/-!
# Integers past the greatest double

An integer is converted to a double unless it rounds past the greatest one. The least magnitude
that does is halfway from the greatest double to `2 ^ 1024` (`Double.isSome_ofInt?_iff`).
-/

namespace ComponentMarkup.Double

/-- A quotient rounds to less than an even number if it is more than one half below it: from one
half below on, the odd number in front of the even one is not chosen. -/
theorem roundedQuotient_lt_iff (num m : Nat) {half : Nat} (hhalf : 0 < half) :
    roundedQuotient num (2 * half) < 2 * m ↔ num + half < 2 * half * (2 * m) := by
  have hdiv := Nat.div_add_mod num (2 * half)
  have hmod := Nat.mod_lt num (by omega : 2 * half > 0)
  unfold roundedQuotient
  dsimp only
  generalize num / (2 * half) = q at hdiv ⊢
  generalize num % (2 * half) = r at hdiv hmod ⊢
  subst hdiv
  rcases Nat.lt_trichotomy (q + 1) (2 * m) with hlt | heq | hgt
  · -- even rounded up, the quotient stays below
    have hle : 2 * half * (q + 2) ≤ 2 * half * (2 * m) := Nat.mul_le_mul_left _ hlt
    rw [Nat.mul_add] at hle
    split <;> omega
  · -- the quotient is odd, so a tie goes up
    rw [← heq, Nat.mul_add]
    split <;> omega
  · have hle : 2 * half * (2 * m) ≤ 2 * half * q := Nat.mul_le_mul_left _ (by omega)
    split <;> omega

theorem roundedQuotient_le {num den m : Nat} (h : num < den * m) : roundedQuotient num den ≤ m := by
  have hlt := Nat.div_lt_of_lt_mul h
  unfold roundedQuotient
  dsimp only
  split <;> omega

theorem le_roundedQuotient {num den m : Nat} (hden : 0 < den) (h : den * m ≤ num) :
    m ≤ roundedQuotient num den := by
  have hle : m ≤ num / den := (Nat.le_div_iff_mul_le hden).2 (Nat.mul_comm .. ▸ h)
  unfold roundedQuotient
  dsimp only
  split <;> omega

theorem two_pow_add (a b : Nat) : Nat.pow 2 (a + b) = Nat.pow 2 a * Nat.pow 2 b := Nat.pow_add ..

theorem two_pow_le {a b : Nat} (h : a ≤ b) : Nat.pow 2 a ≤ Nat.pow 2 b :=
  Nat.pow_le_pow_right (by decide) h

theorem two_pow_pos (a : Nat) : 0 < Nat.pow 2 a := Nat.two_pow_pos a

/-- A number of units gets a rank below a binade if it is more than half a step below this one. -/
theorem nearestRank_lt_iff (num e : Nat) :
    nearestRank num 1 < (e + 3) * binadeSize ↔ num + Nat.pow 2 e < Nat.pow 2 (e + 54) := by
  have htop : num < Nat.pow 2 (num.log2 + 1) := Nat.lt_log2_self
  have hhalf : 0 < Nat.pow 2 e := two_pow_pos e
  have hends : Nat.pow 2 (e + 54) = Nat.pow 2 e * 18014398509481984 := two_pow_add e 54
  unfold nearestRank
  dsimp only
  rw [Nat.div_one, Nat.one_mul, hends, binadeSize]
  rcases Nat.lt_trichotomy (num.log2 - 52) (e + 1) with hlt | heq | hgt
  · -- rounding goes to the next binade at most
    have hnum : num < Nat.pow 2 (num.log2 - 52) * Nat.pow 2 53 := by
      rw [← two_pow_add]
      exact Nat.lt_of_lt_of_le htop (two_pow_le (by omega))
    have hround := roundedQuotient_le hnum
    have hpow : Nat.pow 2 (num.log2 - 52) ≤ Nat.pow 2 e := two_pow_le (by omega)
    have hsize : Nat.pow 2 53 = 9007199254740992 := rfl
    rw [hsize] at hnum hround
    omega
  · -- in the last binade below, the quotient has to round to less than the next power of two
    have hround := roundedQuotient_lt_iff num 4503599627370496 hhalf
    have hden : Nat.pow 2 (e + 1) = 2 * Nat.pow 2 e := Nat.pow_succ'
    rw [heq, hden]
    omega
  · have hpos : num ≠ 0 := by
      rintro rfl
      rw [Nat.log2_zero] at hgt
      omega
    have hnum : Nat.pow 2 (num.log2 - 52) * Nat.pow 2 52 ≤ num := by
      rw [← two_pow_add, Nat.sub_add_cancel (by omega)]
      exact Nat.log2_self_le hpos
    have hround := le_roundedQuotient (two_pow_pos _) hnum
    have hpow : Nat.pow 2 (e + 54) ≤ Nat.pow 2 (num.log2 - 52) * Nat.pow 2 52 := by
      rw [← two_pow_add]
      exact two_pow_le (by omega)
    have hsize : Nat.pow 2 52 = 4503599627370496 := rfl
    rw [hsize] at hnum hround hpow
    omega

theorem mul_pow_add_lt_iff (n a b c : Nat) :
    n * Nat.pow 2 c + Nat.pow 2 (a + c) < Nat.pow 2 (b + c) ↔ n < Nat.pow 2 b - Nat.pow 2 a := by
  rw [two_pow_add, two_pow_add, ← Nat.add_mul, Nat.mul_lt_mul_right (two_pow_pos c),
    Nat.lt_sub_iff_add_lt]

theorem isSome_ofInt?_iff_lt_rankCount (n : Int) :
    (ofInt? n).isSome = true ↔ nearestRank (n.natAbs * unit) 1 < rankCount := by
  unfold ofInt?
  dsimp only
  split
  · next h => exact iff_of_true rfl h
  · next h => exact iff_of_false (by decide) h

/-- The least magnitude of an integer that is past the greatest double: it is halfway from this one
to the next power of two. -/
def outOfRange : Nat := Nat.pow 2 1024 - Nat.pow 2 970

/-- An integer is converted to a double if it is not out of range. -/
theorem isSome_ofInt?_iff (n : Int) : (ofInt? n).isSome = true ↔ n.natAbs < outOfRange := by
  have hcount : (970 + 1074 + 3) * binadeSize = rankCount := by decide
  have htop : 970 + 1074 + 54 = 1024 + 1074 := rfl
  have hrank := nearestRank_lt_iff (n.natAbs * unit) (970 + 1074)
  rw [hcount, htop] at hrank
  rw [isSome_ofInt?_iff_lt_rankCount, hrank, outOfRange, ← mul_pow_add_lt_iff _ _ _ 1074, ← unit]

end ComponentMarkup.Double
