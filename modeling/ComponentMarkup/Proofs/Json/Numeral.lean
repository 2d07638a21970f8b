import ComponentMarkup.Json.Numeral

/-!
# Reading numerals

Which numerals there are, and that reading finds them: what is read is well formed and stands in
front of the text (`Numeral.of_read?`), and a well-formed numeral is read from its spelling unless
the text goes on as a numeral does (`Numeral.read?_spelling_append`).
-/

namespace ComponentMarkup

/-- One digit or more. -/
def IsDigits (digits : List Char) : Prop := digits ≠ [] ∧ ∀ c ∈ digits, isDigit c = true

/-- This text does not go on with a digit. -/
def NoDigitAhead (rest : List Char) : Prop := ∀ c ∈ rest.head?, isDigit c = false

/-- This text does not go on with anything that can belong to a numeral in front of it. -/
def EndsNumeral (rest : List Char) : Prop :=
  ∀ c ∈ rest.head?, isDigit c = false ∧ c ≠ '.' ∧ c ≠ 'e' ∧ c ≠ 'E'

/-- An exponent of JSON. -/
structure Exponent.WellFormed (e : Exponent) : Prop where
  letter : e.letter = 'e' ∨ e.letter = 'E'
  sign : ∀ c ∈ e.sign, c = '+' ∨ c = '-'
  digits : IsDigits e.digits

/-- A number of JSON. -/
structure Numeral.WellFormed (n : Numeral) : Prop where
  whole : n.whole = ['0'] ∨ IsDigits n.whole ∧ n.whole.head? ≠ some '0'
  fraction : ∀ digits ∈ n.fraction, IsDigits digits
  exponent : ∀ e ∈ n.exponent, e.WellFormed

theorem ne_of_isDigit {c d : Char} (hd : isDigit d = true) (hc : isDigit c = false) : c ≠ d := by
  rintro rfl
  rw [hd] at hc
  cases hc

/-- A character that numerals are made of. -/
def isNumeralChar (c : Char) : Bool := isDigit c || ['-', '+', '.', 'e', 'E'].contains c

theorem IsDigits.isNumeralChar {digits : List Char} (h : IsDigits digits) :
    ∀ c ∈ digits, isNumeralChar c = true := by
  intro c hc
  rw [ComponentMarkup.isNumeralChar, h.2 c hc, Bool.true_or]

theorem Exponent.WellFormed.isNumeralChar {e : Exponent} (h : e.WellFormed) :
    ∀ c ∈ e.spelling, isNumeralChar c = true := by
  -- the spelling is put together from parts, each of which is made of such characters
  have hletter : ComponentMarkup.isNumeralChar e.letter = true := by
    rcases h.letter with hletter | hletter
    · rw [hletter]
      rfl
    · rw [hletter]
      rfl
  have hsign : ∀ c ∈ e.sign.toList, ComponentMarkup.isNumeralChar c = true := by
    intro c hc
    rcases h.sign c (Option.mem_toList.1 hc) with rfl | rfl
    · rfl
    · rfl
  rw [Exponent.spelling, List.cons_append, List.forall_mem_cons, List.forall_mem_append]
  exact ⟨hletter, hsign, h.digits.isNumeralChar⟩

theorem Numeral.WellFormed.isNumeralChar {n : Numeral} (h : n.WellFormed) :
    ∀ c ∈ n.spelling, isNumeralChar c = true := by
  -- sign, digits, fraction and exponent
  have hsign : ∀ c ∈ if n.negative then ['-'] else [], ComponentMarkup.isNumeralChar c = true := by
    cases n.negative with
    | false => exact List.forall_mem_nil _
    | true => exact List.forall_mem_singleton.2 rfl
  have hwhole : ∀ c ∈ n.whole, ComponentMarkup.isNumeralChar c = true := by
    rcases h.whole with hzero | ⟨hdigits, -⟩
    · rw [hzero]
      exact List.forall_mem_singleton.2 rfl
    · exact hdigits.isNumeralChar
  have hfraction : ∀ c ∈ fractionSpelling n.fraction,
      ComponentMarkup.isNumeralChar c = true := by
    cases hf : n.fraction with
    | none => exact List.forall_mem_nil _
    | some digits => exact List.forall_mem_cons.2 ⟨rfl, (h.fraction digits hf).isNumeralChar⟩
  have hexponent : ∀ c ∈ (n.exponent.map Exponent.spelling).getD [],
      ComponentMarkup.isNumeralChar c = true := by
    cases he : n.exponent with
    | none => exact List.forall_mem_nil _
    | some e => exact (h.exponent e he).isNumeralChar
  rw [Numeral.spelling, List.forall_mem_append, List.forall_mem_append, List.forall_mem_append]
  exact ⟨⟨⟨hsign, hwhole⟩, hfraction⟩, hexponent⟩

/-- A numeral has a digit in front of its point. -/
theorem Numeral.WellFormed.exists_digit {n : Numeral} (h : n.WellFormed) :
    ∃ d ds, n.whole = d :: ds ∧ isDigit d = true := by
  rcases h.whole with hzero | ⟨⟨hne, hall⟩, -⟩
  · exact ⟨'0', [], hzero, rfl⟩
  · rcases List.exists_cons_of_ne_nil hne with ⟨d, ds, heq⟩
    have hd : isDigit d = true := hall d (by simp [heq])
    exact ⟨d, ds, heq, hd⟩

theorem EndsNumeral.noDigitAhead {rest : List Char} (h : EndsNumeral rest) : NoDigitAhead rest :=
  fun c hc => (h c hc).1

theorem takeWhile_isDigit_append {digits rest : List Char} (h : ∀ c ∈ digits, isDigit c = true)
    (hrest : NoDigitAhead rest) : (digits ++ rest).takeWhile isDigit = digits := by
  rw [List.takeWhile_append_of_pos h]
  cases rest with
  | nil => simp
  | cons c cs =>
      have hc : isDigit c = false := hrest c rfl
      simp [hc]

/-- The digits that a text starts with, if there are any, and what is behind them. -/
theorem exists_digits {cs : List Char} (h : cs.takeWhile isDigit ≠ []) :
    IsDigits (cs.takeWhile isDigit) ∧ ∃ rest, cs = cs.takeWhile isDigit ++ rest :=
  ⟨⟨h, List.all_eq_true.1 List.all_takeWhile⟩, cs.dropWhile isDigit,
    List.takeWhile_append_dropWhile.symm⟩

namespace Exponent

theorem splitSign_append {sign : Option Char} {digits : List Char}
    (hsign : ∀ c ∈ sign, c = '+' ∨ c = '-') (hdigits : IsDigits digits) (rest : List Char) :
    splitSign (sign.toList ++ (digits ++ rest)) = (sign, digits ++ rest) := by
  cases sign with
  | none =>
      -- a digit is neither sign, so nothing is split off
      rcases List.exists_cons_of_ne_nil hdigits.1 with ⟨d, ds, rfl⟩
      have hd : isDigit d = true := hdigits.2 d (List.mem_cons_self ..)
      have hplus : d ≠ '+' := (ne_of_isDigit hd rfl).symm
      have hminus : d ≠ '-' := (ne_of_isDigit hd rfl).symm
      simp [splitSign, hplus, hminus]
  | some c =>
      rcases hsign c rfl with rfl | rfl
      · rfl
      · rfl

theorem splitSign_eq {cs rest : List Char} {sign : Option Char}
    (h : splitSign cs = (sign, rest)) :
    cs = sign.toList ++ rest ∧ ∀ c ∈ sign, c = '+' ∨ c = '-' := by
  unfold splitSign at h
  split at h
  · rcases Prod.mk.inj h with ⟨rfl, rfl⟩
    exact ⟨rfl, by simp⟩
  · rcases Prod.mk.inj h with ⟨rfl, rfl⟩
    exact ⟨rfl, by simp⟩
  · rcases Prod.mk.inj h with ⟨rfl, rfl⟩
    exact ⟨rfl, by simp⟩

/-- The exponent that is spelled is read, or none if none is. -/
theorem read?_append {e : Option Exponent} {rest : List Char} (h : ∀ x ∈ e, x.WellFormed)
    (hrest : EndsNumeral rest) : read? ((e.map spelling).getD [] ++ rest) = e := by
  cases e with
  | none =>
      -- without an exponent nothing that follows may start one
      cases rest with
      | nil => rfl
      | cons c cs =>
          rcases hrest c rfl with ⟨-, -, he, hE⟩
          simp [read?, he, hE]
  | some e =>
      rcases h e rfl with ⟨hletter, hsign, hdigits⟩
      have hsplit := splitSign_append hsign hdigits rest
      have htake := takeWhile_isDigit_append hdigits.2 hrest.noDigitAhead
      simp only [Option.map_some, Option.getD_some, spelling, List.append_assoc, List.cons_append,
        read?, if_pos hletter, hsplit, htake, if_neg hdigits.1]

theorem of_read? {cs : List Char} {e : Exponent} (h : read? cs = some e) :
    e.WellFormed ∧ ∃ rest, cs = e.spelling ++ rest := by
  cases cs with
  | nil => cases h
  | cons c cs =>
      -- the letter, then an optional sign, then at least one digit
      simp only [read?] at h
      split at h
      · next hletter =>
        split at h
        · cases h
        · next hdigits =>
          cases h
          rcases splitSign_eq (Prod.eta (splitSign cs)).symm with ⟨hcs, hsign⟩
          rcases exists_digits hdigits with ⟨hall, rest, hrest⟩
          refine ⟨⟨hletter, hsign, hall⟩, rest, ?_⟩
          simp only [spelling, List.cons_append, List.append_assoc, List.cons.injEq, true_and]
          rw [← hrest]
          exact hcs
      · cases h

end Exponent

namespace Numeral

theorem readWhole?_append {whole rest : List Char}
    (h : whole = ['0'] ∨ IsDigits whole ∧ whole.head? ≠ some '0') (hrest : NoDigitAhead rest) :
    readWhole? (whole ++ rest) = some whole := by
  rcases h with rfl | ⟨hdigits, hzero⟩
  · rfl
  · have htake := takeWhile_isDigit_append hdigits.2 hrest
    unfold readWhole?
    split
    · next heq =>
      -- a whole part that starts with a zero is nothing but this zero
      rcases List.exists_cons_of_ne_nil hdigits.1 with ⟨d, ds, rfl⟩
      rw [List.cons_append, List.cons.injEq] at heq
      exact absurd (congrArg some heq.1) hzero
    · rw [htake, if_neg hdigits.1]

theorem of_readWhole? {cs whole : List Char} (h : readWhole? cs = some whole) :
    (whole = ['0'] ∨ IsDigits whole ∧ whole.head? ≠ some '0') ∧ ∃ rest, cs = whole ++ rest := by
  unfold readWhole? at h
  split at h
  · next rest =>
    cases h
    exact ⟨.inl rfl, rest, rfl⟩
  · -- the first equation of `readWhole?` has been passed, so a leading zero is excluded by `hzero`
    next hzero =>
    split at h
    · cases h
    · next hdigits =>
      cases h
      rcases exists_digits hdigits with ⟨hall, rest, hrest⟩
      refine ⟨.inr ⟨hall, ?_⟩, rest, hrest⟩
      intro hhead
      cases cs with
      | nil => simp at hdigits
      | cons c cs =>
          rw [List.takeWhile_cons] at hhead
          split at hhead
          · obtain rfl : c = '0' := by simpa using hhead
            exact hzero cs rfl
          · simp at hhead

theorem readFraction?_append {fraction : Option (List Char)} {rest : List Char}
    (h : ∀ digits ∈ fraction, IsDigits digits) (hrest : NoDigitAhead rest)
    (hpoint : rest.head? ≠ some '.') :
    readFraction? (fractionSpelling fraction ++ rest) = fraction := by
  cases fraction with
  | none =>
      cases rest with
      | nil => rfl
      | cons c cs =>
          -- without a fraction the rest must not be read as one: `hpoint` keeps the point away
          have hc : c ≠ '.' := fun heq => hpoint (congrArg some heq)
          simp [fractionSpelling, readFraction?, hc]
  | some digits =>
      rcases h digits rfl with ⟨hne, hall⟩
      simp [fractionSpelling, readFraction?, takeWhile_isDigit_append hall hrest, hne]

theorem of_readFraction? (cs : List Char) :
    (∀ digits ∈ readFraction? cs, IsDigits digits) ∧
      ∃ rest, cs = fractionSpelling (readFraction? cs) ++ rest := by
  unfold readFraction?
  split
  · next cs =>
    split
    · exact ⟨by simp, _, rfl⟩
    · next hdigits =>
      rcases exists_digits hdigits with ⟨hall, rest, hrest⟩
      refine ⟨by simpa using hall, rest, ?_⟩
      rw [fractionSpelling, List.cons_append, ← hrest]
  · exact ⟨by simp, _, rfl⟩

/-- What follows a whole part or a fraction does not go on with a digit. -/
theorem noDigitAhead_exponent {e : Option Exponent} {rest : List Char}
    (h : ∀ x ∈ e, x.WellFormed) (hrest : EndsNumeral rest) :
    NoDigitAhead ((e.map Exponent.spelling).getD [] ++ rest) ∧
      ((e.map Exponent.spelling).getD [] ++ rest).head? ≠ some '.' := by
  cases e with
  | none => exact ⟨hrest.noDigitAhead, fun heq => (hrest '.' heq).2.1 rfl⟩
  | some e =>
      -- the exponent begins with its letter, which is neither a digit nor a point
      simp only [Option.map_some, Option.getD_some, Exponent.spelling, List.cons_append,
        NoDigitAhead, List.head?_cons, Option.mem_def, Option.some.injEq]
      rcases (h e rfl).letter with hletter | hletter
      · rw [hletter]
        exact ⟨by rintro _ rfl; rfl, by simp⟩
      · rw [hletter]
        exact ⟨by rintro _ rfl; rfl, by simp⟩

theorem noDigitAhead_fraction (fraction : Option (List Char)) {rest : List Char}
    (hrest : NoDigitAhead rest) : NoDigitAhead (fractionSpelling fraction ++ rest) := by
  cases fraction with
  | none => exact hrest
  | some digits =>
      intro c hc
      obtain rfl : '.' = c := by simpa [fractionSpelling] using hc
      rfl

theorem readMagnitude?_append {n : Numeral} {rest : List Char} (h : n.WellFormed)
    (hrest : EndsNumeral rest) :
    readMagnitude? n.negative (n.whole ++ (fractionSpelling n.fraction ++
      ((n.exponent.map Exponent.spelling).getD [] ++ rest))) = some n := by
  rcases noDigitAhead_exponent h.exponent hrest with ⟨hdigit, hpoint⟩
  have hwhole := readWhole?_append h.whole (noDigitAhead_fraction n.fraction hdigit)
  have hfraction := readFraction?_append h.fraction hdigit hpoint
  have hexponent := Exponent.read?_append h.exponent hrest
  simp only [readMagnitude?, hwhole, Option.bind_eq_bind, Option.bind_some, List.drop_left,
    hfraction, hexponent]
  rfl

/-- A numeral is read from its spelling, unless the text goes on as a numeral does. -/
theorem read?_spelling_append {n : Numeral} {rest : List Char} (h : n.WellFormed)
    (hrest : EndsNumeral rest) : read? (n.spelling ++ rest) = some n := by
  have hmagnitude := readMagnitude?_append h hrest
  rcases n with ⟨negative, whole, fraction, exponent⟩
  cases negative with
  | true => simpa [read?, spelling] using hmagnitude
  | false =>
      -- a numeral without a sign starts with a digit, so it is not taken for a negative one
      rcases h.exists_digit with ⟨d, ds, hwhole, hdigit⟩
      obtain rfl : whole = d :: ds := hwhole
      have hd : d ≠ '-' := (ne_of_isDigit hdigit rfl).symm
      simpa [read?, spelling, hd] using hmagnitude

theorem of_readMagnitude? {negative : Bool} {cs : List Char} {n : Numeral}
    (h : readMagnitude? negative cs = some n) :
    n.WellFormed ∧ n.negative = negative ∧
      ∃ rest, cs = n.whole ++ (fractionSpelling n.fraction ++
        ((n.exponent.map Exponent.spelling).getD [] ++ rest)) := by
  rcases Option.bind_eq_some_iff.1 h with ⟨whole, hwhole, heq⟩
  rcases of_readWhole? hwhole with ⟨hwf, afterWhole, rfl⟩
  simp only [List.drop_left, Option.pure_def, Option.some.injEq] at heq
  rcases of_readFraction? afterWhole with ⟨hfraction, afterFraction, hcut⟩
  -- the fraction is passed over by its length, and the exponent is read behind it
  have hdrop : afterWhole.drop (fractionSpelling (readFraction? afterWhole)).length =
      afterFraction := by
    conv => lhs; arg 2; rw [hcut]
    exact List.drop_left
  rw [hdrop] at heq
  subst heq
  refine ⟨⟨hwf, hfraction, ?_⟩, rfl, ?_⟩
  · intro e he
    exact (Exponent.of_read? he).1
  · cases hexponent : Exponent.read? afterFraction with
    | none =>
        refine ⟨afterFraction, ?_⟩
        simp only [Option.map_none, Option.getD_none, List.nil_append]
        rw [← hcut]
    | some e =>
        rcases Exponent.of_read? hexponent with ⟨-, rest, hrest⟩
        refine ⟨rest, ?_⟩
        simp only [Option.map_some, Option.getD_some]
        rw [← hrest, ← hcut]

/-- The numeral that is read is well formed, and the text starts with it. -/
theorem of_read? {cs : List Char} {n : Numeral} (h : read? cs = some n) :
    n.WellFormed ∧ ∃ rest, cs = n.spelling ++ rest := by
  unfold read? at h
  split at h
  · rcases of_readMagnitude? h with ⟨hwf, hnegative, rest, rfl⟩
    exact ⟨hwf, rest, by simp [spelling, hnegative]⟩
  · rcases of_readMagnitude? h with ⟨hwf, hnegative, rest, rfl⟩
    exact ⟨hwf, rest, by simp [spelling, hnegative]⟩

end Numeral

end ComponentMarkup
