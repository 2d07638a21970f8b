import ComponentMarkup.Proofs.Number.Double
import Mathlib.Algebra.Order.Field.Power
import Mathlib.Algebra.Order.Field.Rat
import Mathlib.Order.Monotone.Basic
import Mathlib.Tactic.FieldSimp
import Mathlib.Tactic.Linarith
import Mathlib.Tactic.NormNum
import Mathlib.Tactic.Positivity
import Mathlib.Tactic.Ring

/-!
# The nearest double

Decimals are read by counting in units of the least positive double and by keeping 53 binary digits
of a quotient. We show that this is rounding to nearest: of all doubles the one that is read has the
value nearest to the exact rational number, and of two that are equally near it is the one of even
rank (`isRounded_ofDecimal`). Ranks go on past the greatest double, the first of them standing for
`2 ^ 1024`; what is nearest to one of these is infinite.
-/

namespace ComponentMarkup.Double

/-! ## Specification -/

/-- The value of the double of a rank; ranks past the greatest double go on as if there were
none. -/
def valueOfRank (rank : Nat) : ℚ := unitsOfRank rank / unit

/-- Of all ranks this one has the value nearest to a number; if another one is as near, this one is
even. -/
def IsNearestRank (x : ℚ) (rank : Nat) : Prop :=
  ∀ other, other ≠ rank →
    |x - valueOfRank rank| < |x - valueOfRank other| ∨
      |x - valueOfRank rank| = |x - valueOfRank other| ∧ rank % 2 = 0

/-- A number with this sign and magnitude is rounded to this double. -/
def IsRounded (negative : Bool) (magnitude : ℚ) (d : Double) : Prop :=
  ∃ rank, IsNearestRank magnitude rank ∧ d = ofRank negative rank

/-! ## Values in ascending order -/

theorem unit_pos : (0 : ℚ) < unit := Nat.cast_pos.2 (by decide +kernel)

/-- Within a binade, its ends included, the values have one distance. -/
theorem unitsOfRank_binade {binade q : Nat} (hq : q ≤ 2 * binadeSize)
    (hbinade : binade = 0 ∨ binadeSize ≤ q) :
    unitsOfRank (binade * binadeSize + q) = q * Nat.pow 2 binade := by
  have hpow : Nat.pow 2 0 = 1 := rfl
  have hsize : 0 < binadeSize := by decide
  rcases Nat.lt_or_ge q binadeSize with hlt | hge
  · -- these doubles have less than 53 digits
    obtain rfl : binade = 0 := by omega
    rw [Nat.zero_mul, Nat.zero_add, unitsOfRank, if_pos hlt, hpow, Nat.mul_one]
  · rcases Nat.exists_eq_add_of_le hge with ⟨r, rfl⟩
    have hrank : binade * binadeSize + (binadeSize + r) = (binade + 1) * binadeSize + r := by
      rw [Nat.add_mul]
      omega
    have hlarge : ¬ (binade + 1) * binadeSize + r < binadeSize := by
      rw [Nat.add_mul]
      omega
    rw [hrank, unitsOfRank, if_neg hlarge]
    rcases Nat.lt_or_ge r binadeSize with hr | hr
    · have hdiv : ((binade + 1) * binadeSize + r) / binadeSize = binade + 1 := by
        rw [Nat.add_comm, Nat.add_mul_div_right _ _ hsize, Nat.div_eq_of_lt hr, Nat.zero_add]
      have hmod : ((binade + 1) * binadeSize + r) % binadeSize = r := by
        rw [Nat.add_comm, Nat.add_mul_mod_self_right, Nat.mod_eq_of_lt hr]
      rw [hdiv, hmod, Nat.add_sub_cancel]
    · -- the upper end starts the next binade
      obtain rfl : r = binadeSize := by omega
      have hnext : (binade + 1) * binadeSize + binadeSize = (binade + 2) * binadeSize := by
        rw [← Nat.succ_mul]
      have hstep : Nat.pow 2 (binade + 1) = Nat.pow 2 binade * 2 := Nat.pow_succ ..
      rw [hnext, Nat.mul_div_cancel _ hsize, Nat.mul_mod_left, Nat.add_zero, Nat.add_sub_assoc,
        hstep]
      · ring
      · decide

theorem unitsOfRank_lt_succ (rank : Nat) : unitsOfRank rank < unitsOfRank (rank + 1) := by
  -- a rank is a binade and the units in it; the next rank has one unit more, or starts a binade
  obtain ⟨binade, q, rfl, hq, hbinade⟩ : ∃ binade q, rank = binade * binadeSize + q ∧
      q < 2 * binadeSize ∧ (binade = 0 ∨ binadeSize ≤ q) := by
    rcases Nat.lt_or_ge rank binadeSize with hlt | hge
    · exact ⟨0, rank, by omega, by omega, .inl rfl⟩
    · have hdiv := Nat.div_add_mod rank binadeSize
      have hmod := Nat.mod_lt rank (by decide : binadeSize > 0)
      have hpos : 1 ≤ rank / binadeSize := (Nat.one_le_div_iff (by decide)).2 hge
      refine ⟨rank / binadeSize - 1, binadeSize + rank % binadeSize, ?_, by omega, .inr (by omega)⟩
      rw [Nat.sub_mul, Nat.one_mul, Nat.mul_comm]
      have hle : binadeSize ≤ binadeSize * (rank / binadeSize) := Nat.le_mul_of_pos_right _ hpos
      omega
  -- one more unit of the same size
  have hlt : q * Nat.pow 2 binade < (q + 1) * Nat.pow 2 binade :=
    Nat.mul_lt_mul_of_pos_right (Nat.lt_succ_self q) (two_pow_pos binade)
  have hnext : unitsOfRank (binade * binadeSize + (q + 1)) = (q + 1) * Nat.pow 2 binade :=
    unitsOfRank_binade (by omega) (by omega)
  rw [Nat.add_assoc, hnext, unitsOfRank_binade (by omega) hbinade]
  exact hlt

theorem strictMono_valueOfRank : StrictMono valueOfRank := by
  apply strictMono_nat_of_lt_succ
  intro rank
  have hlt : (unitsOfRank rank : ℚ) < unitsOfRank (rank + 1) := by
    exact_mod_cast unitsOfRank_lt_succ rank
  exact div_lt_div_of_pos_right hlt unit_pos

/-! ## Between two neighbours -/

section

variable {x : ℚ} {rank : Nat}

/-- A number between the values of two ranks in succession is nearest to the nearer one of them, or
if it is midway, to the even one. -/
theorem isNearestRank_of_between (hlow : valueOfRank rank ≤ x) (hhigh : x ≤ valueOfRank (rank + 1))
    {chosen : Nat}
    (hchosen :
      (chosen = rank ∧ (x - valueOfRank rank < valueOfRank (rank + 1) - x ∨
        x - valueOfRank rank = valueOfRank (rank + 1) - x ∧ rank % 2 = 0)) ∨
      (chosen = rank + 1 ∧ (valueOfRank (rank + 1) - x < x - valueOfRank rank ∨
        x - valueOfRank rank = valueOfRank (rank + 1) - x ∧ (rank + 1) % 2 = 0))) :
    IsNearestRank x chosen := by
  intro other hother
  have hbelow : |x - valueOfRank rank| = x - valueOfRank rank := abs_of_nonneg (by linarith)
  have habove : |x - valueOfRank (rank + 1)| = valueOfRank (rank + 1) - x := by
    rw [abs_sub_comm]
    exact abs_of_nonneg (by linarith)
  -- any third rank is further away than the neighbour on its side
  rcases Nat.lt_trichotomy other rank with hlt | rfl | hgt
  · have hfar : valueOfRank other < valueOfRank rank := strictMono_valueOfRank hlt
    have habs : |x - valueOfRank other| = x - valueOfRank other := abs_of_nonneg (by linarith)
    left
    rw [habs]
    rcases hchosen with ⟨rfl, -⟩ | ⟨rfl, hnear | ⟨hmid, -⟩⟩
    · rw [hbelow]
      linarith
    · rw [habove]
      linarith
    · rw [habove]
      linarith
  · rcases hchosen with ⟨rfl, -⟩ | ⟨rfl, hnear | ⟨hmid, heven⟩⟩
    · exact absurd rfl hother
    · left
      rw [hbelow, habove]
      exact hnear
    · right
      rw [hbelow, habove]
      exact ⟨hmid.symm, heven⟩
  · rcases Nat.eq_or_lt_of_le hgt with rfl | hgt
    · rcases hchosen with ⟨rfl, hnear | ⟨hmid, heven⟩⟩ | ⟨rfl, -⟩
      · left
        rw [hbelow, habove]
        exact hnear
      · right
        rw [hbelow, habove]
        exact ⟨hmid, heven⟩
      · exact absurd rfl hother
    · have hfar : valueOfRank (rank + 1) < valueOfRank other := strictMono_valueOfRank hgt
      have habs : |x - valueOfRank other| = valueOfRank other - x := by
        rw [abs_sub_comm]
        exact abs_of_nonneg (by linarith)
      left
      rw [habs]
      rcases hchosen with ⟨rfl, hnear | ⟨hmid, -⟩⟩ | ⟨rfl, -⟩
      · rw [hbelow]
        linarith
      · rw [hbelow]
        linarith
      · rw [habove]
        linarith

/-- There is one nearest rank. -/
theorem IsNearestRank.unique {other : Nat} (h : IsNearestRank x rank)
    (h' : IsNearestRank x other) : rank = other := by
  by_contra hne
  wlog hlt : rank < other generalizing rank other
  · exact this h' h (Ne.symm hne) (by omega)
  rcases h other (Ne.symm hne) with hnear | ⟨heq, heven⟩
  · rcases h' rank hne with hnear' | ⟨heq', -⟩ <;> linarith
  · rcases h' rank hne with hnear' | ⟨-, heven'⟩
    · linarith
    · -- both are even, so there is a rank between them, which is nearer
      have hbetween : rank + 1 ≠ rank := by omega
      have hlow : valueOfRank rank < valueOfRank (rank + 1) :=
        strictMono_valueOfRank (Nat.lt_succ_self rank)
      have hhigh : valueOfRank (rank + 1) < valueOfRank other :=
        strictMono_valueOfRank (by omega)
      have hnot : ¬ |x - valueOfRank (rank + 1)| < |x - valueOfRank rank| := by
        rcases h (rank + 1) hbetween with hnear | ⟨hsame, -⟩ <;> linarith
      apply hnot
      rw [abs_lt]
      have hle := le_abs_self (x - valueOfRank rank)
      have hge := neg_abs_le (x - valueOfRank other)
      constructor <;> linarith

end

/-! ## Rounding a quotient -/

/-- Of a quotient as many digits are dropped as it has more than 53. -/
theorem quotient_bounds (a : Nat) {binade : Nat} (hbinade : binade = a.log2 - 52) :
    a / Nat.pow 2 binade < 2 * binadeSize ∧
      (binade = 0 ∨ binadeSize ≤ a / Nat.pow 2 binade) := by
  have htop : a < Nat.pow 2 (a.log2 + 1) := Nat.lt_log2_self
  have hsize : Nat.pow 2 53 = 2 * binadeSize := rfl
  have hhalf : Nat.pow 2 52 = binadeSize := rfl
  constructor
  · -- the highest bit is 52 places above the binade
    rw [Nat.div_lt_iff_lt_mul (two_pow_pos binade), ← hsize, ← two_pow_add]
    exact Nat.lt_of_lt_of_le htop (two_pow_le (by omega))
  · rcases Nat.eq_zero_or_pos binade with hzero | hpos
    · exact .inl hzero
    · right
      have hne : a ≠ 0 := by
        rintro rfl
        rw [Nat.log2_zero] at hbinade
        omega
      rw [Nat.le_div_iff_mul_le (two_pow_pos binade), ← hhalf, ← two_pow_add]
      exact Nat.le_trans (two_pow_le (by omega)) (Nat.log2_self_le hne)

/-- The quotient that keeps 53 digits gives the nearest rank. -/
theorem isNearestRank_nearestRank (num : Nat) {den : Nat} (hden : 0 < den) :
    IsNearestRank (num / den / unit) (nearestRank num den) := by
  obtain ⟨binade, hbinade⟩ : ∃ binade, binade = (num / den).log2 - 52 := ⟨_, rfl⟩
  obtain ⟨step, hstep⟩ : ∃ step, step = den * Nat.pow 2 binade := ⟨_, rfl⟩
  have hpos : 0 < step := hstep ▸ Nat.mul_pos hden (two_pow_pos binade)
  have hbounds := quotient_bounds (num / den) hbinade
  rw [Nat.div_div_eq_div_mul, ← hstep] at hbounds
  rcases hbounds with ⟨hless, hinner⟩
  have hdiv := Nat.div_add_mod num step
  have hmod := Nat.mod_lt num hpos
  have hrank : nearestRank num den = binade * binadeSize + roundedQuotient num step := by
    rw [nearestRank, ← hbinade, ← hstep]
  rw [hrank, roundedQuotient]
  generalize num / step = q at hless hinner hdiv ⊢
  generalize num % step = r at hdiv hmod ⊢
  -- in terms of the least positive double, a step is as long as its part of the numerator
  have hscale : (0 : ℚ) < den * unit := mul_pos (Nat.cast_pos.2 hden) unit_pos
  have hvalue : ∀ k, k ≤ 2 * binadeSize → (binade = 0 ∨ binadeSize ≤ k) →
      valueOfRank (binade * binadeSize + k) = (step * k : ℚ) / (den * unit) := by
    intro k hk hbinade
    have hden' : (den : ℚ) ≠ 0 := Nat.cast_ne_zero.2 (Nat.ne_of_gt hden)
    rw [valueOfRank, unitsOfRank_binade hk hbinade, hstep, Nat.cast_mul, Nat.cast_mul]
    have hunit := unit_pos
    field_simp
  have hlow := hvalue q (by omega) hinner
  have hhigh := hvalue (q + 1) (by omega) (by omega)
  have hx : (num : ℚ) / den / unit = (step * q + r : ℚ) / (den * unit) := by
    rw [div_div, ← hdiv]
    push_cast
    rfl
  have hmod' : (r : ℚ) < step := Nat.cast_lt.2 hmod
  have hr : (0 : ℚ) ≤ r := Nat.cast_nonneg r
  have heven : ∀ k, (binade * binadeSize + k) % 2 = k % 2 := by
    intro k
    rw [binadeSize]
    omega
  have hgapLow : (step * q + r : ℚ) / (den * unit) - valueOfRank (binade * binadeSize + q) =
      r / (den * unit) := by
    rw [hlow]
    ring
  have hgapHigh : valueOfRank (binade * binadeSize + (q + 1)) - (step * q + r : ℚ) / (den * unit) =
      (step - r : ℚ) / (den * unit) := by
    rw [hhigh]
    push_cast
    ring
  have hnonneg : 0 ≤ (r : ℚ) / (den * unit) := div_nonneg hr hscale.le
  have hnonneg' : 0 ≤ (step - r : ℚ) / (den * unit) := div_nonneg (by linarith) hscale.le
  rw [hx]
  refine isNearestRank_of_between (?_ : valueOfRank (binade * binadeSize + q) ≤ _) ?_ ?_
  · linarith
  · rw [Nat.add_assoc]
    linarith
  · rw [Nat.add_assoc, hgapLow, hgapHigh, heven, heven, div_lt_div_iff_of_pos_right hscale,
      div_lt_div_iff_of_pos_right hscale, div_left_inj' hscale.ne',
      ← Nat.cast_sub hmod.le, Nat.cast_lt, Nat.cast_lt, Nat.cast_inj]
    split <;> omega

/-! ## Reading a decimal -/

/-- Past the greatest double everything is infinite. -/
theorem ofRank_of_le {negative : Bool} {rank : Nat} (h : rankCount ≤ rank) :
    ofRank negative rank = .infinity negative := dif_neg (Nat.not_lt.2 h)

/-- A number less than half the least positive double is nearest to zero. -/
theorem isNearestRank_zero {x : ℚ} (hx : 0 ≤ x) (hhalf : 2 * x < 1 / unit) : IsNearestRank x 0 := by
  have hzero : valueOfRank 0 = 0 := by
    have hunits : unitsOfRank 0 = 0 := rfl
    rw [valueOfRank, hunits, Nat.cast_zero, zero_div]
  have hone : valueOfRank (0 + 1) = 1 / unit := by
    have hunits : unitsOfRank (0 + 1) = 1 := rfl
    rw [valueOfRank, hunits, Nat.cast_one]
  refine isNearestRank_of_between (?_ : valueOfRank 0 ≤ x) ?_ (.inl ⟨rfl, .inl ?_⟩)
  · rwa [hzero]
  · rw [hone]
    linarith
  · rw [hzero, hone]
    linarith

theorem two_pow_unit (a : Nat) : Nat.pow 2 (a + 1074) = Nat.pow 2 a * unit := by
  rw [two_pow_add, unit]

theorem rankCount_eq : (970 + 1074 + 3) * binadeSize = rankCount := by decide

/-- Past the greatest double there is nothing but infinity. -/
theorem rankCount_le_nearestRank {num : Nat} (h : Nat.pow 2 (970 + 1074 + 54) ≤ num) :
    rankCount ≤ nearestRank num 1 := by
  have hrank := nearestRank_lt_iff num (970 + 1074)
  rw [rankCount_eq] at hrank
  apply Nat.le_of_not_lt
  intro hlt
  exact Nat.not_lt.2 h (Nat.lt_of_le_of_lt (Nat.le_add_right ..) (hrank.1 hlt))

theorem two_pow_le_ten_pow (a : Nat) {n : Nat} (h : a ≤ 3 * n) : Nat.pow 2 a ≤ Nat.pow 10 n :=
  calc Nat.pow 2 a ≤ Nat.pow 2 (3 * n) := two_pow_le h
    _ = Nat.pow 8 n := Nat.pow_mul 2 3 n
    _ ≤ Nat.pow 10 n := Nat.pow_le_pow_left (by decide) n

/-- A decimal is read as the nearest double. -/
theorem isRounded_ofDecimal (negative : Bool) (digits : Nat) (exponent : Int) :
    IsRounded negative (digits * (10 : ℚ) ^ exponent) (ofDecimal negative digits exponent) := by
  have hunit := unit_pos
  cases exponent with
  | ofNat n =>
      have hnearest := isNearestRank_nearestRank (digits * Nat.pow 10 n * unit) Nat.one_pos
      have hx : ((digits * Nat.pow 10 n * unit : Nat) : ℚ) / (1 : Nat) / unit =
          digits * (10 : ℚ) ^ (Int.ofNat n) := by
        have hpow : ((Nat.pow 10 n : Nat) : ℚ) = (10 : ℚ) ^ n := Nat.cast_pow ..
        rw [Nat.cast_mul, Nat.cast_mul, hpow, Int.ofNat_eq_natCast, zpow_natCast]
        field_simp
        simp
      rw [hx] at hnearest
      rw [ofDecimal]
      split
      · next hzero =>
        subst hzero
        refine ⟨0, isNearestRank_zero ?_ ?_, rfl⟩
        · rw [Nat.cast_zero, zero_mul]
        · rw [Nat.cast_zero, zero_mul, mul_zero]
          exact one_div_pos.2 hunit
      · next hne =>
        split
        · next hlarge =>
          -- the digits are at least one, and the power is past the greatest double
          refine ⟨_, hnearest, (ofRank_of_le (rankCount_le_nearestRank ?_)).symm⟩
          have hlimit : 970 + 1074 + 54 = 970 + 54 + 1074 := rfl
          have hten := two_pow_le_ten_pow (970 + 54) (by omega : 970 + 54 ≤ 3 * n)
          rw [hlimit, two_pow_unit]
          apply Nat.mul_le_mul_right
          exact Nat.le_trans hten (Nat.le_mul_of_pos_left _ (Nat.pos_of_ne_zero hne))
        · exact ⟨_, hnearest, rfl⟩
  | negSucc n =>
      have hpow : ((Nat.pow 10 (n + 1) : Nat) : ℚ) = (10 : ℚ) ^ (n + 1) := Nat.cast_pow ..
      have hpos : (0 : ℚ) < (10 : ℚ) ^ (n + 1) := by positivity
      have hx : (digits : ℚ) * (10 : ℚ) ^ (Int.negSucc n) = digits / (10 : ℚ) ^ (n + 1) := by
        rw [zpow_negSucc, div_eq_mul_inv]
      rw [ofDecimal, hx]
      split
      · next hsmall =>
        refine ⟨0, isNearestRank_zero (div_nonneg (Nat.cast_nonneg digits) hpos.le) ?_, rfl⟩
        have htop : digits < Nat.pow 2 (digits.log2 + 1) := Nat.lt_log2_self
        have hdigits : 2 * digits * unit < Nat.pow 10 (n + 1) := by
          have hunit' : 0 < unit := by decide +kernel
          calc 2 * digits * unit < 2 * Nat.pow 2 (digits.log2 + 1) * unit :=
                Nat.mul_lt_mul_of_pos_right (by omega) hunit'
            _ = Nat.pow 2 (1 + (digits.log2 + 1) + 1074) := by
                rw [two_pow_add _ 1074, two_pow_add 1, ← unit]
            _ ≤ Nat.pow 10 (n + 1) := two_pow_le_ten_pow _ (by omega)
        have hdigits' : (2 * digits * unit : ℚ) < (10 : ℚ) ^ (n + 1) := by
          rw [← hpow]
          exact_mod_cast hdigits
        rw [lt_div_iff₀ hunit, mul_div_assoc', div_mul_eq_mul_div, div_lt_one hpos]
        exact hdigits'
      · have hten : 0 < Nat.pow 10 (n + 1) := Nat.pow_pos (by decide)
        have hnearest := isNearestRank_nearestRank (digits * unit) hten
        refine ⟨_, ?_, rfl⟩
        have hquotient : ((digits * unit : Nat) : ℚ) / (Nat.pow 10 (n + 1) : Nat) / unit =
            digits / (10 : ℚ) ^ (n + 1) := by
          rw [hpow, Nat.cast_mul]
          field_simp
        rwa [hquotient] at hnearest

/-! ## Infinity -/

/-- The units of the ends of a binade, the greatest double below it included. -/
theorem unitsOfRank_end (e : Nat) :
    unitsOfRank ((e + 3) * binadeSize) = 18014398509481984 * Nat.pow 2 e ∧
      unitsOfRank ((e + 3) * binadeSize - 1) = 18014398509481982 * Nat.pow 2 e := by
  have hfirst : (e + 3) * binadeSize = (e + 2) * binadeSize + binadeSize := Nat.succ_mul ..
  have hlast : (e + 3) * binadeSize - 1 = (e + 1) * binadeSize + (2 * binadeSize - 1) := by
    rw [binadeSize]
    omega
  have htwo : Nat.pow 2 (e + 2) = Nat.pow 2 e * 4 := two_pow_add e 2
  have hone : Nat.pow 2 (e + 1) = Nat.pow 2 e * 2 := two_pow_add e 1
  rw [hlast, unitsOfRank_binade (by decide) (.inr (by decide)), hfirst,
    unitsOfRank_binade (by decide) (.inr (by decide)), htwo, hone, binadeSize]
  omega

theorem two_pow_sub (a : Nat) :
    Nat.pow 2 (a + 54) - Nat.pow 2 a = 18014398509481983 * Nat.pow 2 a := by
  have hpow : Nat.pow 2 (a + 54) = Nat.pow 2 a * 18014398509481984 := two_pow_add a 54
  rw [hpow]
  omega

/-- The first rank past the greatest double and the rank of the greatest double are equally far from
the least magnitude that is out of range. -/
theorem valueOfRank_around_outOfRange :
    ∃ gap : ℚ, 0 < gap ∧ valueOfRank rankCount = outOfRange + gap ∧
      valueOfRank (rankCount - 1) = outOfRange - gap := by
  have hout : outOfRange = 18014398509481983 * Nat.pow 2 970 := by
    have hexponent : 1024 = 970 + 54 := rfl
    rw [outOfRange, hexponent, two_pow_sub 970]
  have hunits := unitsOfRank_end (970 + 1074)
  rw [rankCount_eq, two_pow_unit] at hunits
  have hunit := unit_pos.ne'
  refine ⟨(Nat.pow 2 970 : Nat), Nat.cast_pos.2 (two_pow_pos 970), ?_, ?_⟩
  · -- the units are a power of two times a small number, so the power is a common factor
    rw [valueOfRank, hunits.1, hout]
    generalize Nat.pow 2 970 = p
    push_cast
    field_simp
    ring
  · rw [valueOfRank, hunits.2, hout]
    generalize Nat.pow 2 970 = p
    push_cast
    field_simp
    ring

/-- What is rounded is finite below the least magnitude that is out of range, and else infinite. -/
theorem IsRounded.isFinite_iff {negative : Bool} {x : ℚ} {d : Double}
    (h : IsRounded negative x d) : d.isFinite = true ↔ x < outOfRange := by
  rcases h with ⟨rank, hrank, rfl⟩
  rcases valueOfRank_around_outOfRange with ⟨gap, hgap, habove, hbelow⟩
  have hmono := strictMono_valueOfRank.monotone
  by_cases hlt : rank < rankCount
  · have hfinite : (ofRank negative rank).isFinite = true := by
      rw [ofRank, dif_pos hlt]
      rfl
    refine iff_of_true hfinite ?_
    by_contra hx
    have hle : valueOfRank rank ≤ valueOfRank (rankCount - 1) := hmono (by omega)
    have hdistance : |x - valueOfRank rank| = x - valueOfRank rank := abs_of_nonneg (by linarith)
    have hother : |x - valueOfRank rankCount| ≤ x - valueOfRank rank := by
      rw [abs_le]
      constructor <;> linarith
    -- the first rank past the greatest double is as near, and it is even, as this one would be
    rcases hrank rankCount (Nat.ne_of_gt hlt) with hnear | ⟨hsame, heven⟩
    · linarith
    · have hodd : (rankCount - 1) % 2 = 1 := by decide
      have hne : rank ≠ rankCount - 1 := by
        rintro rfl
        omega
      have hless : valueOfRank rank < valueOfRank (rankCount - 1) :=
        strictMono_valueOfRank (by omega)
      have hstrict : |x - valueOfRank rankCount| < x - valueOfRank rank := by
        rw [abs_lt]
        constructor <;> linarith
      linarith
  · have hinfinite : ¬ (ofRank negative rank).isFinite = true := by
      rw [ofRank, dif_neg hlt]
      exact Bool.false_ne_true
    refine iff_of_false hinfinite ?_
    intro hx
    have hle : valueOfRank rankCount ≤ valueOfRank rank := hmono (by omega)
    have hdistance : |x - valueOfRank rank| = valueOfRank rank - x := by
      rw [abs_sub_comm]
      exact abs_of_nonneg (by linarith)
    have hother : |x - valueOfRank (rankCount - 1)| < valueOfRank rank - x := by
      rw [abs_lt]
      constructor <;> linarith
    have hpos : 0 < rankCount := by decide
    rcases hrank (rankCount - 1) (by omega) with hnear | ⟨hsame, -⟩ <;> linarith

/-- What is rounded and not finite is infinite, with the sign of the number. -/
theorem IsRounded.eq_infinity {negative : Bool} {x : ℚ} {d : Double} (h : IsRounded negative x d)
    (hd : ¬ d.isFinite = true) : d = .infinity negative := by
  rcases h with ⟨rank, -, rfl⟩
  unfold ofRank at hd ⊢
  split
  · next hlt =>
    rw [dif_pos hlt] at hd
    exact absurd rfl hd
  · rfl

end ComponentMarkup.Double
