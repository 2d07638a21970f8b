import ComponentMarkup.Number.Shortest
import ComponentMarkup.Proofs.Json.Numeral
import ComponentMarkup.Proofs.Number.Decimal

/-!
# The text of a double reads back

The decimal that is chosen for a double rounds to it, and the digits of this decimal are laid out
with a fraction or an exponent, whichever way they are laid out. So the text of a finite double is a
numeral that is read as this double (`exists_numeral_text`).
-/

namespace ComponentMarkup

/-! ## Digits of a number -/

theorem digitsValue_toDigits (n : Nat) : digitsValue (Nat.toDigits 10 n) = n := by
  have hvalue := Nat.ofDigitChars_ten_toDigits (n := n)
  rw [Nat.ofDigitChars_eq_foldl] at hvalue
  simpa only [digitsValue, Nat.mul_comm] using hvalue

theorem isDigits_toDigits (n : Nat) : IsDigits (Nat.toDigits 10 n) := by
  refine ⟨Nat.toDigits_ne_nil, ?_⟩
  intro c hc
  have hdigit := Nat.isDigit_of_mem_toDigits (by decide) (by decide) hc
  simpa [Char.isDigit, isDigit, Char.le_def] using hdigit

/-- The digits of a number do not start with a zero. -/
theorem head?_toDigits {n : Nat} (hn : 0 < n) : (Nat.toDigits 10 n).head? ≠ some '0' := by
  induction n using Nat.strongRecOn with
  | ind n ih =>
      rw [Nat.toDigits_eq_if (by decide)]
      split
      · next hlt =>
        have hsmall : ∀ k < 10, 0 < k → [Nat.digitChar k].head? ≠ some '0' := by decide
        exact hsmall n hlt hn
      · next hge =>
        have hquotient := ih (n / 10) (by omega) (by omega)
        rw [List.head?_append_of_ne_nil _ Nat.toDigits_ne_nil]
        exact hquotient

theorem digitsValue_replicate_zero (k : Nat) : digitsValue (List.replicate k '0') = 0 := by
  induction k with
  | zero => rfl
  | succ k ih => rw [List.replicate_succ', digitsValue_append, ih]; rfl

theorem isDigit_of_mem_replicate {k : Nat} {c : Char} (h : c ∈ List.replicate k '0') :
    isDigit c = true := by
  rw [List.eq_of_mem_replicate h]
  rfl

/-- The digits of a number are the significant ones and zeros behind them. -/
theorem exists_zeros (n : Nat) :
    ∃ zeros, Nat.toDigits 10 n = Double.significantDigits n ++ List.replicate zeros '0' := by
  obtain ⟨digits, hdigits⟩ : ∃ digits, digits = (Nat.toDigits 10 n).reverse := ⟨_, rfl⟩
  have hsplit := List.takeWhile_append_dropWhile (p := fun c => decide (c = '0')) (l := digits)
  have hzeros : ∀ c ∈ digits.takeWhile fun c => decide (c = '0'), c = '0' := by
    intro c hc
    exact of_decide_eq_true (List.all_eq_true.1 List.all_takeWhile c hc)
  refine ⟨(digits.takeWhile fun c => decide (c = '0')).length, ?_⟩
  rw [Double.significantDigits, ← hdigits, ← List.reverse_replicate,
    ← List.eq_replicate_of_mem hzeros, ← List.reverse_append, hsplit, hdigits, List.reverse_reverse]

/-- The significant digits of a number are at least one, and the first of them is not zero. -/
theorem isDigits_significantDigits {n : Nat} (hn : 0 < n) :
    IsDigits (Double.significantDigits n) ∧ (Double.significantDigits n).head? ≠ some '0' := by
  rcases exists_zeros n with ⟨zeros, hdigits⟩
  have hhead := head?_toDigits hn
  have hall := (isDigits_toDigits n).2
  rw [hdigits] at hhead hall
  -- the digits are those that are significant and zeros behind them, and the first one is no zero
  have hne : Double.significantDigits n ≠ [] := by
    intro hnil
    rw [hnil, List.nil_append] at hhead hdigits
    cases zeros with
    | zero => exact Nat.toDigits_ne_nil hdigits
    | succ zeros => exact hhead rfl
  rw [List.head?_append_of_ne_nil _ hne] at hhead
  exact ⟨⟨hne, fun c hc => hall c (List.mem_append_left _ hc)⟩, hhead⟩

/-! ## Layouts -/

/-- This numeral, which is no integer, has this sign, these characters behind its sign, and this
magnitude. -/
structure Numeral.Writes (n : Numeral) (sign : Bool) (cs : List Char) (x : ℚ) : Prop where
  wellFormed : n.WellFormed
  isInteger : n.isInteger = false
  negative : n.negative = sign
  spelling : n.spelling = (if sign then ['-'] else []) ++ cs
  magnitude : n.magnitude = x

namespace Double

/-- Digits with a point behind some of them, and zeros where there are no digits. -/
theorem digitsValue_pointed (digits : List Char) (whole : Nat) :
    let fraction := if digits.drop (whole + 1) = [] then ['0'] else digits.drop (whole + 1)
    (digitsValue (digits.take (whole + 1) ++ List.replicate (whole + 1 - digits.length) '0' ++
        fraction) : ℚ) * (10 : ℚ) ^ (0 - fraction.length : Int) =
      digitsValue digits * (10 : ℚ) ^ (whole + 1 - digits.length : Int) := by
  intro fraction
  by_cases hnone : digits.drop (whole + 1) = []
  · -- the point is behind all digits, so zeros fill the place up to it
    have hfraction : fraction = ['0'] := if_pos hnone
    have hlen : digits.length ≤ whole + 1 := List.drop_eq_nil_iff.1 hnone
    have hzero : digitsValue ['0'] = 0 := rfl
    have hpower :
        (whole + 1 - digits.length : Int) = ((whole + 1 - digits.length : Nat) : Int) := by
      omega
    have hlast : (0 : Int) - (1 : Nat) = -1 := rfl
    rw [hfraction, List.take_of_length_le hlen, digitsValue_append, digitsValue_append,
      digitsValue_replicate_zero, hzero, List.length_replicate, List.length_singleton, hpower,
      zpow_natCast, hlast, zpow_neg_one]
    push_cast
    field_simp
    ring
  · -- the point is within the digits, and there are no zeros
    have hfraction : fraction = digits.drop (whole + 1) := if_neg hnone
    have hlen : whole + 1 < digits.length := by
      apply Nat.lt_of_not_le
      intro hle
      exact hnone (List.drop_of_length_le hle)
    have hnozeros : whole + 1 - digits.length = 0 := by omega
    rw [hfraction, hnozeros, List.replicate_zero, List.append_nil, List.take_append_drop,
      List.length_drop]
    congr 2
    omega

section

variable {digits : List Char} (hdigits : IsDigits digits)

include hdigits

/-- Digits some way behind the point. -/
theorem exists_writes_below_one (negative : Bool) (zeros : Nat) :
    ∃ n : Numeral, n.Writes negative (['0', '.'] ++ List.replicate zeros '0' ++ digits)
      (digitsValue digits * (10 : ℚ) ^ (-zeros - digits.length : Int)) := by
  have hall : IsDigits (List.replicate zeros '0' ++ digits) := by
    refine ⟨List.append_ne_nil_of_right_ne_nil _ hdigits.1, ?_⟩
    intro c hc
    rcases List.mem_append.1 hc with hc | hc
    · exact isDigit_of_mem_replicate hc
    · exact hdigits.2 c hc
  refine ⟨⟨negative, ['0'], some (List.replicate zeros '0' ++ digits), none⟩, ?_, rfl, rfl, ?_, ?_⟩
  · exact ⟨.inl rfl, fun fraction h => Option.some.inj h ▸ hall, by simp⟩
  · simp [Numeral.spelling, Numeral.fractionSpelling]
  · -- zeros behind the point do not change the digits, only the power of ten
    rw [Numeral.magnitude_eq]
    simp only [Option.getD_some, Option.map_none, Option.getD_none, digitsValue_append,
      digitsValue_replicate_zero, List.length_append, List.length_replicate]
    have hzero : digitsValue ['0'] = 0 := rfl
    rw [hzero, Nat.zero_mul, Nat.zero_add, Nat.zero_mul, Nat.zero_add]
    congr 2
    omega

/-- Digits with the point in or behind them. -/
theorem exists_writes_from_one (negative : Bool) (whole : Nat)
    (hhead : digits.head? ≠ some '0') :
    ∃ n : Numeral, n.Writes negative
      (digits.take (whole + 1) ++ List.replicate (whole + 1 - digits.length) '0' ++ '.' ::
        (if digits.drop (whole + 1) = [] then ['0'] else digits.drop (whole + 1)))
      (digitsValue digits * (10 : ℚ) ^ (whole + 1 - digits.length : Int)) := by
  have hmagnitude := digitsValue_pointed digits whole
  -- what is in front of the point and what is behind it are both made of digits
  rcases List.exists_cons_of_ne_nil hdigits.1 with ⟨d, ds, rfl⟩
  obtain ⟨taken, htaken⟩ : ∃ taken, taken =
      (d :: ds).take (whole + 1) ++ List.replicate (whole + 1 - (d :: ds).length) '0' := ⟨_, rfl⟩
  obtain ⟨fraction, hfraction⟩ : ∃ fraction, fraction =
      if (d :: ds).drop (whole + 1) = [] then ['0'] else (d :: ds).drop (whole + 1) := ⟨_, rfl⟩
  have hfront : IsDigits taken ∧ taken.head? ≠ some '0' := by
    rw [htaken]
    refine ⟨⟨by simp, ?_⟩, by simpa using hhead⟩
    intro c hc
    rcases List.mem_append.1 hc with hc | hc
    · exact hdigits.2 c (List.mem_of_mem_take hc)
    · exact isDigit_of_mem_replicate hc
  have hbehind : IsDigits fraction := by
    rw [hfraction]
    split
    · exact ⟨by simp, by simp [isDigit]⟩
    · next hne => exact ⟨hne, fun c hc => hdigits.2 c (List.mem_of_mem_drop hc)⟩
  rw [← htaken, ← hfraction] at hmagnitude ⊢
  refine ⟨⟨negative, taken, some fraction, none⟩, ?_, rfl, rfl, ?_, ?_⟩
  · exact ⟨.inr hfront, fun _ h => Option.some.inj h ▸ hbehind, by simp⟩
  · simp [Numeral.spelling, Numeral.fractionSpelling]
  · rw [Numeral.magnitude_eq]
    exact hmagnitude

/-- One digit in front of the point, and an exponent. -/
theorem exists_writes_scientific (negative : Bool) (exponent : Int) (zeros : Nat)
    (hhead : digits.head? ≠ some '0') :
    ∃ n : Numeral, n.Writes negative
      (digits.take 1 ++ (if digits.length > 1 then '.' :: digits.drop 1 else []) ++ 'e' ::
        (if exponent < 0 then '-' else '+') ::
        (List.replicate zeros '0' ++ Nat.toDigits 10 exponent.natAbs))
      (digitsValue digits * (10 : ℚ) ^ (exponent + 1 - digits.length)) := by
  rcases List.exists_cons_of_ne_nil hdigits.1 with ⟨d, ds, rfl⟩
  -- the parts of the numeral: its exponent, and the digits behind the first one
  obtain ⟨power, hpower⟩ : ∃ power : Exponent, power = ⟨'e',
      some (if exponent < 0 then '-' else '+'),
      List.replicate zeros '0' ++ Nat.toDigits 10 exponent.natAbs⟩ := ⟨_, rfl⟩
  have hwf : power.WellFormed := by
    rw [hpower]
    refine ⟨.inl rfl, ?_, List.append_ne_nil_of_right_ne_nil _ Nat.toDigits_ne_nil, ?_⟩
    · intro c hc
      obtain rfl := Option.some.inj hc
      split
      · exact .inr rfl
      · exact .inl rfl
    · intro c hc
      rcases List.mem_append.1 hc with hc | hc
      · exact isDigit_of_mem_replicate hc
      · exact (isDigits_toDigits _).2 c hc
  have hvalue : power.value = exponent := by
    rw [hpower, Exponent.value]
    simp only [digitsValue_append, digitsValue_replicate_zero, digitsValue_toDigits]
    by_cases hneg : exponent < 0
    · rw [if_pos hneg, if_pos rfl]
      omega
    · rw [if_neg hneg, if_neg (by decide)]
      omega
  refine ⟨⟨negative, [d], if ds = [] then none else some ds, some power⟩, ?_, ?_, rfl, ?_, ?_⟩
  · -- the first digit is no zero, and there is a fraction only if more digits follow
    refine ⟨.inr ⟨⟨by simp, ?_⟩, by simpa using hhead⟩, ?_, fun _ h => Option.some.inj h ▸ hwf⟩
    · intro c hc
      obtain rfl := List.mem_singleton.1 hc
      exact hdigits.2 c (List.mem_cons_self ..)
    · intro fraction h
      split at h
      · cases h
      · next hne =>
        obtain rfl := Option.some.inj h
        exact ⟨hne, fun c hc => hdigits.2 c (List.mem_cons_of_mem _ hc)⟩
  · simp [Numeral.isInteger]
  · cases ds <;> simp [Numeral.spelling, Numeral.fractionSpelling, Exponent.spelling, hpower]
  · have hfraction : (if ds = [] then none else some ds).getD [] = ds := by
      split
      · next hnil => exact hnil.symm
      · rfl
    rw [Numeral.magnitude_eq]
    simp only [hfraction, Option.map_some, Option.getD_some, hvalue, List.singleton_append,
      List.length_cons]
    congr 2
    omega

/-- However digits are laid out, they write the number. -/
theorem exists_writes_layoutDigits (negative : Bool) (exponent : Int)
    (hhead : digits.head? ≠ some '0') :
    ∃ n : Numeral, n.Writes negative (layoutDigits digits exponent)
      (digitsValue digits * (10 : ℚ) ^ (exponent + 1 - digits.length)) := by
  rw [layoutDigits]
  split
  · split
    · -- a negative exponent puts zeros in front, another one puts the point between digits
      next hneg =>
      have hzeros : exponent + 1 - digits.length =
          (-((-exponent - 1).toNat : Int) - digits.length : Int) := by omega
      rw [hzeros]
      exact exists_writes_below_one hdigits negative _
    · next hnonneg =>
      have hwhole : exponent + 1 - digits.length =
          ((exponent.toNat : Int) + 1 - digits.length : Int) := by omega
      rw [hwhole]
      exact exists_writes_from_one hdigits negative _ hhead
  · exact exists_writes_scientific hdigits negative exponent _ hhead

end

/-! ## The shortest decimal -/

theorem isNearestRank_valueOfRank (rank : Nat) : IsNearestRank (valueOfRank rank) rank := by
  intro other hother
  left
  have hne : valueOfRank rank - valueOfRank other ≠ 0 :=
    sub_ne_zero.2 (strictMono_valueOfRank.injective.ne hother.symm)
  rw [sub_self, abs_zero]
  exact abs_pos.2 hne

/-- All decimal places of a number of units give its value. -/
theorem ofUnits_value (units : Nat) :
    ((Decimal.ofUnits units).digits : ℚ) * (10 : ℚ) ^ (Decimal.ofUnits units).exponent =
      units / unit := by
  -- a power of two below is a power of five above and one of ten below
  have hgeneral : ∀ places : Nat,
      ((units * Nat.pow 5 places : Nat) : ℚ) * (10 : ℚ) ^ (-(places : Int)) =
        units / (Nat.pow 2 places : Nat) := by
    intro places
    have hfive : ((Nat.pow 5 places : Nat) : ℚ) = (5 : ℚ) ^ places := Nat.cast_pow ..
    have htwo : ((Nat.pow 2 places : Nat) : ℚ) = (2 : ℚ) ^ places := Nat.cast_pow ..
    have hten : (10 : ℚ) ^ places = 2 ^ places * 5 ^ places := by
      rw [← mul_pow]
      norm_num
    rw [Nat.cast_mul, hfive, htwo, zpow_neg, zpow_natCast, hten]
    field_simp
  exact hgeneral 1074

theorem ofRank_injective {negative : Bool} {rank other : Nat} (hrank : rank < rankCount)
    (h : ofRank negative other = ofRank negative rank) : other = rank := by
  rw [ofRank, ofRank, dif_pos hrank] at h
  split at h
  · injection h with _ hfin
    exact congrArg Fin.val hfin
  · cases h

/-- The decimal that is written for a double rounds to it. -/
theorem isNearestRank_shortestDecimal {rank : Nat} (hrank : rank < rankCount) :
    IsNearestRank ((shortestDecimal rank).digits * (10 : ℚ) ^ (shortestDecimal rank).exponent)
      rank := by
  obtain ⟨candidates, hshortest⟩ : ∃ candidates : List Decimal, shortestDecimal rank =
      (candidates.find? fun d => ofDecimal false d.digits d.exponent = ofRank false rank).getD
        (Decimal.ofUnits (unitsOfRank rank)) := by
    unfold shortestDecimal
    exact ⟨_, rfl⟩
  rw [hshortest]
  cases hfound : candidates.find? fun d => ofDecimal false d.digits d.exponent = ofRank false rank
  with
  | none =>
      -- all decimal places are written out, which give the value itself
      rw [Option.getD_none, ofUnits_value]
      exact isNearestRank_valueOfRank rank
  | some d =>
      -- the decimal was chosen because it is read as this double
      have hback : ofDecimal false d.digits d.exponent = ofRank false rank := by
        simpa using List.find?_some hfound
      rcases isRounded_ofDecimal false d.digits d.exponent with ⟨other, hnearest, hother⟩
      obtain rfl := ofRank_injective hrank (hother.symm.trans hback)
      exact hnearest

theorem isNearestRank_zero_zero : IsNearestRank 0 0 := by
  apply isNearestRank_zero le_rfl
  rw [mul_zero]
  exact one_div_pos.2 unit_pos

theorem shortestDecimal_pos {rank : Nat} (hrank : rank < rankCount) (hpos : rank ≠ 0) :
    0 < (shortestDecimal rank).digits := by
  apply Nat.pos_of_ne_zero
  intro hzero
  have hnearest := isNearestRank_shortestDecimal hrank
  rw [hzero, Nat.cast_zero, zero_mul] at hnearest
  exact hpos (hnearest.unique isNearestRank_zero_zero)

/-- The zeros behind the significant digits of a decimal are made up for by its exponent. -/
theorem digitsValue_significantDigits (d : Decimal) :
    (d.digits : ℚ) * (10 : ℚ) ^ d.exponent =
      digitsValue (significantDigits d.digits) * (10 : ℚ) ^ (d.exponent +
        (Nat.toDigits 10 d.digits).length - 1 + 1 - (significantDigits d.digits).length) := by
  rcases exists_zeros d.digits with ⟨zeros, hzeros⟩
  -- the zeros behind the significant digits are powers of ten
  have hvalue : d.digits = digitsValue (significantDigits d.digits) * 10 ^ zeros := by
    conv => lhs; rw [← digitsValue_toDigits d.digits, hzeros]
    rw [digitsValue_append, digitsValue_replicate_zero, List.length_replicate, Nat.add_zero]
  have hexponent : d.exponent + (Nat.toDigits 10 d.digits).length - 1 + 1 -
      (significantDigits d.digits).length = (zeros : Int) + d.exponent := by
    rw [hzeros, List.length_append, List.length_replicate]
    omega
  have hten : (10 : ℚ) ≠ 0 := by norm_num
  rw [hexponent, zpow_add₀ hten, zpow_natCast, ← mul_assoc]
  conv => lhs; rw [hvalue]
  push_cast
  rfl

/-! ## The text -/

theorem exists_writes_magnitudeText (negative : Bool) {rank : Nat} (hrank : rank < rankCount) :
    ∃ x, IsNearestRank x rank ∧ ∃ n : Numeral, n.Writes negative (magnitudeText rank) x := by
  rw [magnitudeText]
  -- zero has a text of its own, the others are written by their shortest digits
  split
  · next hzero =>
    refine ⟨0, hzero ▸ isNearestRank_zero_zero, ⟨negative, ['0'], some ['0'], none⟩, ?_⟩
    refine ⟨⟨.inl rfl, ?_, by simp⟩, rfl, rfl, ?_, ?_⟩
    · simp [IsDigits, isDigit]
    · simp [Numeral.spelling, Numeral.fractionSpelling]
    · simp [Numeral.magnitude, digitsValue]
  · next hne =>
    rcases isDigits_significantDigits (shortestDecimal_pos hrank hne) with ⟨hdigits, hhead⟩
    refine ⟨_, isNearestRank_shortestDecimal hrank, ?_⟩
    rw [digitsValue_significantDigits]
    exact exists_writes_layoutDigits hdigits negative _ hhead

/-- The text of a finite double is a numeral that is read as this double. -/
theorem exists_numeral_text (negative : Bool) (rank : Fin rankCount) :
    ∃ n : Numeral, n.WellFormed ∧ n.isInteger = false ∧
      n.spelling = text (.finite negative rank) ∧ n.toDouble = .finite negative rank := by
  rcases exists_writes_magnitudeText negative rank.isLt with ⟨x, hnearest, n, hn⟩
  refine ⟨n, hn.wellFormed, hn.isInteger, hn.spelling, ?_⟩
  rcases n.isRounded_toDouble with ⟨other, hother, hdouble⟩
  rw [hn.magnitude] at hother
  obtain rfl := hother.unique hnearest
  rw [hdouble, hn.negative, ofRank, dif_pos rank.isLt]

end Double

end ComponentMarkup
