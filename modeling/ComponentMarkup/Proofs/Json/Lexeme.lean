import ComponentMarkup.Proofs.Except
import ComponentMarkup.Proofs.Json.Grammar
import ComponentMarkup.Proofs.Json.Numeral

/-!
# Lexemes and what follows them

A lexeme is cut off a text without a look at what comes after its end, numerals apart: a numeral
ends where the text does not go on as one. So the lexemes of an object are the same whatever text
follows the object (`lexemesFrom_append`), though strings and numerals would run on in a text that
is cut within them.
-/

namespace ComponentMarkup

/-! ## Words and numerals -/

/-- No word for a value begins another one. -/
theorem literalWords_prefix_free :
    ∀ v ∈ literalWords, ∀ w ∈ literalWords, v.1 <+: w.1 → v = w := by
  decide +kernel

theorem scanWord_literal {w : List Char × Literal} (hw : w ∈ literalWords) (rest : List Char) :
    scanWord (w.1 ++ rest) = (.literal w.2, w.1.length) := by
  have hfound : literalWords.find? (fun v => v.1.isPrefixOf (w.1 ++ rest)) = some w := by
    cases hfind : literalWords.find? fun v => v.1.isPrefixOf (w.1 ++ rest) with
    | none =>
        have hno := List.find?_eq_none.1 hfind w hw
        exact absurd (List.isPrefixOf_iff_prefix.2 (List.prefix_append w.1 rest)) hno
    | some v =>
        have hv := List.mem_of_find?_eq_some hfind
        have hfits : v.1.isPrefixOf (w.1 ++ rest) = true := by simpa using List.find?_some hfind
        have hpre := List.isPrefixOf_iff_prefix.1 hfits
        -- of two words that the text starts with, one starts the other, so they are the same word
        rcases List.prefix_or_prefix_of_prefix hpre (List.prefix_append w.1 rest) with h | h
        · rw [literalWords_prefix_free v hv w hw h]
        · rw [literalWords_prefix_free w hw v hv h]
  simp only [scanWord, hfound]

/-- No word for a value starts as a numeral does. -/
theorem find?_literalWords_numeral {n : Numeral} (h : n.WellFormed) (rest : List Char) :
    literalWords.find? (fun w => w.1.isPrefixOf (n.spelling ++ rest)) = none := by
  rcases h.exists_digit with ⟨d, ds, hwhole, hd⟩
  -- the first letters of the words are no digits, and behind a sign only one word goes on
  have hn : 'n' ≠ d := ne_of_isDigit hd rfl
  have ht : 't' ≠ d := ne_of_isDigit hd rfl
  have hf : 'f' ≠ d := ne_of_isDigit hd rfl
  have hN : 'N' ≠ d := ne_of_isDigit hd rfl
  have hI : 'I' ≠ d := ne_of_isDigit hd rfl
  have hdash : '-' ≠ d := ne_of_isDigit hd rfl
  cases hneg : n.negative with
  | true =>
      simp [literalWords, Numeral.spelling, hneg, hwhole, List.isPrefixOf, hI]
  | false =>
      simp [literalWords, Numeral.spelling, hneg, hwhole, List.isPrefixOf, hn, ht, hf, hN, hI,
        hdash]

theorem scanWord_numeral {n : Numeral} {rest : List Char} (h : n.WellFormed)
    (hrest : EndsNumeral rest) :
    scanWord (n.spelling ++ rest) = (numeralToken n, n.spelling.length) := by
  simp only [scanWord, find?_literalWords_numeral h, Numeral.read?_spelling_append h hrest]

/-- A word or a numeral that is read is one that the text starts with. -/
theorem of_scanWord {cs : List Char} (h : (scanWord cs).1.isBroken = false) :
    (∃ w ∈ literalWords, ∃ rest, cs = w.1 ++ rest ∧ scanWord cs = (.literal w.2, w.1.length)) ∨
      ∃ n : Numeral, n.WellFormed ∧ numeralToken n = .literal (.number n) ∧
        ∃ rest, cs = n.spelling ++ rest ∧ scanWord cs = (numeralToken n, n.spelling.length) := by
  cases hfind : literalWords.find? fun v => v.1.isPrefixOf cs with
  | some w =>
      have hfits : w.1.isPrefixOf cs = true := by simpa using List.find?_some hfind
      rcases List.isPrefixOf_iff_prefix.1 hfits with ⟨rest, rfl⟩
      have hw := List.mem_of_find?_eq_some hfind
      exact .inl ⟨w, hw, rest, rfl, scanWord_literal hw rest⟩
  | none =>
      cases hread : Numeral.read? cs with
      | none => simp [scanWord, hfind, hread, Token.isBroken] at h
      | some n =>
          rcases Numeral.of_read? hread with ⟨hwf, rest, hrest⟩
          have hscan : scanWord cs = (numeralToken n, n.spelling.length) := by
            simp only [scanWord, hfind, hread]
          rw [hscan] at h
          -- the token is whole, so the numeral has not too many digits
          refine .inr ⟨n, hwf, ?_, rest, hrest, hscan⟩
          simp only [numeralToken] at h ⊢
          split at h
          · cases h
          · next hfew => rw [if_neg hfew]

theorem scanWord_append {cs more : List Char} (h : (scanWord cs).1.isBroken = false)
    (hends : ∀ n, (scanWord cs).1 = .literal (.number n) →
      EndsNumeral ((cs ++ more).drop (scanWord cs).2)) :
    scanWord (cs ++ more) = scanWord cs := by
  rcases of_scanWord h with ⟨w, hw, rest, rfl, hscan⟩ | ⟨n, hn, htoken, rest, rfl, hscan⟩
  · rw [hscan, List.append_assoc, scanWord_literal hw]
  · have hnumber : (scanWord (n.spelling ++ rest)).1 = .literal (.number n) := by
      rw [hscan, htoken]
    have hrest := hends n hnumber
    rw [hscan, List.append_assoc, List.drop_left] at hrest
    rw [hscan, List.append_assoc, scanWord_numeral hn hrest]

/-! ## Strings -/

theorem scanString_escape {opening offset : Nat} {c e : Char} (he : shortEscape? c = some e)
    (rest : List Char) :
    scanString opening offset ('\\' :: c :: rest) =
      (scanString opening (offset + 2) rest).map fun r => (CodePoint.ofChar e :: r.1, r.2) := by
  have hu : c ≠ 'u' := by
    rintro rfl
    cases he
  rw [scanString]
  · simp only [he]
  · intro _ _ _ _ _ hc
    exact absurd hc hu
  · exact hu

theorem scanString_char {opening offset : Nat} {c : Char} (hquote : c ≠ '"') (hslash : c ≠ '\\')
    (hc : ¬ c.toNat < 0x20) (rest : List Char) :
    scanString opening offset (c :: rest) =
      (scanString opening (offset + 1) rest).map fun r => (CodePoint.ofChar c :: r.1, r.2) := by
  rw [scanString, if_neg hc] <;> simp_all

/-- A string is closed at the same place whatever follows it. -/
theorem scanString_append {opening offset : Nat} {cs more : List Char} {r : Text × Nat}
    (h : scanString opening offset cs = .ok r) :
    scanString opening offset (cs ++ more) = .ok r := by
  fun_induction scanString opening offset cs generalizing r with
  | case1 | case3 | case5 | case6 | case8 | case9 | case10 => cases h
  | case2 => simpa [scanString] using h
  | case4 offset a b c d rest point hpoint hne ih =>
      rcases Except.of_map_eq_ok h with ⟨r', hr', rfl⟩
      have hmore : rest ++ more ≠ [] := by simp [hne]
      simp [scanString, hpoint, hmore, ih hr', Except.map]
  | case7 offset c rest hu hc e he ih =>
      rcases Except.of_map_eq_ok h with ⟨r', hr', rfl⟩
      rw [List.cons_append, List.cons_append, scanString_escape he, ih hr']
      rfl
  | case11 offset c rest hquote hpair hu hescape hlast hc ih =>
      rcases Except.of_map_eq_ok h with ⟨r', hr', rfl⟩
      -- a backslash is part of an escape, or else the last character of the text
      have hslash : c ≠ '\\' := by
        intro heq
        cases rest with
        | nil => exact hlast heq rfl
        | cons d rest => exact hescape d rest heq rfl
      rw [List.cons_append, scanString_char hquote hslash hc, ih hr']
      rfl

/-- A string literal ends within the text. -/
theorem length_of_scanString {opening offset : Nat} {cs : List Char} {r : Text × Nat}
    (h : scanString opening offset cs = .ok r) (hle : opening ≤ offset) :
    opening + r.2 < offset + cs.length := by
  -- only the closing quote ends the reading, the other successful cases go on
  fun_induction scanString opening offset cs generalizing r with
  | case1 | case3 | case5 | case6 | case8 | case9 | case10 => cases h
  | case2 offset tail =>
      cases h
      simp only [List.length_cons]
      omega
  | case4 offset a b c d rest point hpoint hne ih =>
      rcases Except.of_map_eq_ok h with ⟨r', hr', rfl⟩
      have hlt := ih hr' (by omega)
      simp only [List.length_cons]
      omega
  | case7 offset c rest hu hc e he ih =>
      rcases Except.of_map_eq_ok h with ⟨r', hr', rfl⟩
      have hlt := ih hr' (by omega)
      simp only [List.length_cons]
      omega
  | case11 offset c rest hquote hpair hu hescape hlast hc ih =>
      rcases Except.of_map_eq_ok h with ⟨r', hr', rfl⟩
      have hlt := ih hr' (by omega)
      simp only [List.length_cons]
      omega

/-! ## Tokens -/

/-- The characters that are tokens by themselves. -/
def singleMarks : List Char := ['\x7b', '\x7d', '[', ']', ':', ',']

/-- The characters with which a token starts that is neither word nor numeral. -/
def tokenMarks : List Char := '"' :: singleMarks

theorem exists_scanToken_single {c : Char} (hc : c ∈ singleMarks) :
    ∃ token, ∀ offset rest, scanToken offset c rest = (token, 1) := by
  simp only [singleMarks, List.mem_cons, List.not_mem_nil, or_false] at hc
  rcases hc with rfl | rfl | rfl | rfl | rfl | rfl <;> exact ⟨_, fun _ _ => rfl⟩

theorem scanToken_word {c : Char} (hc : c ∉ tokenMarks) (offset : Nat) (rest : List Char) :
    scanToken offset c rest = scanWord (c :: rest) := by
  unfold scanToken
  split <;> simp_all [tokenMarks, singleMarks]

theorem Numeral.WellFormed.spelling_ne_nil {n : Numeral} (h : n.WellFormed) : n.spelling ≠ [] := by
  rcases h.exists_digit with ⟨d, ds, hwhole, -⟩
  simp [Numeral.spelling, hwhole]

theorem one_le_scanWord (cs : List Char) : 1 ≤ (scanWord cs).2 := by
  unfold scanWord
  split
  · next word value hfind =>
    have hall : ∀ w ∈ literalWords, 1 ≤ w.1.length := by decide +kernel
    exact hall _ (List.mem_of_find?_eq_some hfind)
  · split
    · next n hread =>
      exact List.length_pos_iff.2 (Numeral.of_read? hread).1.spelling_ne_nil
    · exact Nat.le_refl 1

/-- A token has a character. -/
theorem one_le_scanToken (offset : Nat) (c : Char) (rest : List Char) :
    1 ≤ (scanToken offset c rest).2 := by
  unfold scanToken
  split
  any_goals exact Nat.le_refl 1
  · split
    · simp
    · exact Nat.le_refl 1
  · exact one_le_scanWord _

/-- A token that is whole ends within the text. -/
theorem scanToken_le {offset : Nat} {c : Char} {rest : List Char}
    (h : (scanToken offset c rest).1.isBroken = false) :
    (scanToken offset c rest).2 ≤ rest.length + 1 := by
  -- strings, single marks and words are read by different functions
  by_cases hc : c ∈ tokenMarks
  · rcases List.mem_cons.1 hc with rfl | hsingle
    · cases hscan : scanString offset (offset + 1) rest with
      | error fault => simp [scanToken, hscan, Token.isBroken] at h
      | ok r =>
          have hlt := length_of_scanString hscan (by omega)
          simp only [scanToken, hscan]
          omega
    · rcases exists_scanToken_single hsingle with ⟨token, htoken⟩
      rw [htoken]
      exact Nat.le_add_left ..
  · rw [scanToken_word hc] at h ⊢
    rw [← List.length_cons (a := c)]
    rcases of_scanWord h with ⟨w, -, tail, hcs, hscan⟩ | ⟨n, -, -, tail, hcs, hscan⟩
    · rw [hscan, hcs, List.length_append]
      exact Nat.le_add_right ..
    · rw [hscan, hcs, List.length_append]
      exact Nat.le_add_right ..

/-- A token that is whole stays as it is if other text follows, unless this goes on a numeral. -/
theorem scanToken_append {offset : Nat} {c : Char} {rest more : List Char}
    (h : (scanToken offset c rest).1.isBroken = false)
    (hends : ∀ n, (scanToken offset c rest).1 = .literal (.number n) →
      EndsNumeral ((rest ++ more).drop ((scanToken offset c rest).2 - 1))) :
    scanToken offset c (rest ++ more) = scanToken offset c rest := by
  -- only a number can be read further than it ends, so this is where what follows matters
  by_cases hc : c ∈ tokenMarks
  · rcases List.mem_cons.1 hc with rfl | hsingle
    · cases hscan : scanString offset (offset + 1) rest with
      | error fault => simp [scanToken, hscan, Token.isBroken] at h
      | ok r => simp only [scanToken, scanString_append hscan, hscan]
    · rcases exists_scanToken_single hsingle with ⟨token, htoken⟩
      rw [htoken, htoken]
  · rw [scanToken_word hc] at h hends ⊢
    rw [scanToken_word hc]
    apply scanWord_append h
    intro n hn
    have hrest := hends n hn
    rcases Nat.exists_eq_add_of_le' (one_le_scanWord (c :: rest)) with ⟨k, hk⟩
    rw [hk] at hrest ⊢
    exact hrest

/-- Is this a token that may stand behind a value within a container? -/
def Token.isSeparator : Token → Bool
  | comma => true
  | closeArray => true
  | closeObject => true
  | _ => false

theorem isSeparator_scanWord (cs : List Char) : (scanWord cs).1.isSeparator = false := by
  unfold scanWord
  split
  · rfl
  · split
    · unfold numeralToken
      split <;> rfl
    · rfl

/-- A separator is a single character. -/
theorem of_isSeparator_scanToken {offset : Nat} {c : Char} {rest : List Char}
    (h : (scanToken offset c rest).1.isSeparator = true) :
    c ∈ [',', ']', '\x7d'] ∧ (scanToken offset c rest).2 = 1 := by
  by_cases hc : c ∈ tokenMarks
  · rcases List.mem_cons.1 hc with rfl | hsingle
    · cases hscan : scanString offset (offset + 1) rest with
      | error fault => simp [scanToken, hscan, Token.isSeparator] at h
      | ok r => simp [scanToken, hscan, Token.isSeparator] at h
    · simp only [singleMarks, List.mem_cons, List.not_mem_nil, or_false] at hsingle
      rcases hsingle with rfl | rfl | rfl | rfl | rfl | rfl
      any_goals cases h
      all_goals exact ⟨by simp, rfl⟩
  · rw [scanToken_word hc, isSeparator_scanWord] at h
    cases h

/-! ## Lexemes -/

/-- The characters of a lexeme are passed over. -/
theorem lexemesFrom_skip (skip offset : Nat) (cs : List Char) :
    lexemesFrom skip offset cs = lexemesFrom 0 (offset + skip) (cs.drop skip) := by
  induction cs generalizing skip offset with
  | nil => simp [lexemesFrom]
  | cons c cs ih =>
      cases skip with
      | zero => rfl
      | succ skip =>
          rw [lexemesFrom, if_pos (Nat.succ_pos skip), ih, List.drop_succ_cons]
          congr 1
          omega

/-- A blank is passed over. -/
theorem lexemesFrom_cons_blank {c : Char} (hc : isBlank c = true) (offset : Nat) (cs : List Char) :
    lexemesFrom 0 offset (c :: cs) = lexemesFrom 0 (offset + 1) cs := by
  rw [lexemesFrom, if_neg (Nat.lt_irrefl 0), if_pos hc]

/-- Blanks in front of a text move its lexemes. -/
theorem lexemesFrom_blank {blanks : List Char} (h : ∀ c ∈ blanks, isBlank c = true) (offset : Nat)
    (cs : List Char) :
    lexemesFrom 0 offset (blanks ++ cs) = lexemesFrom 0 (offset + blanks.length) cs := by
  induction blanks generalizing offset with
  | nil => rfl
  | cons b bs ih =>
      have hb : isBlank b = true := h b (List.mem_cons_self ..)
      have hbs : ∀ c ∈ bs, isBlank c = true := fun c hc => h c (List.mem_cons_of_mem _ hc)
      rw [List.cons_append, lexemesFrom_cons_blank hb, ih hbs, List.length_cons]
      congr 1
      omega

theorem lexemesFrom_cons {c : Char} (hc : isBlank c = false) (offset : Nat) (cs : List Char) :
    lexemesFrom 0 offset (c :: cs) =
      ⟨offset, (scanToken offset c cs).1⟩ ::
        if (scanToken offset c cs).1.isBroken then []
        else lexemesFrom 0 (offset + (scanToken offset c cs).2)
          (cs.drop ((scanToken offset c cs).2 - 1)) := by
  have hpos := one_le_scanToken offset c cs
  have hnext : lexemesFrom ((scanToken offset c cs).2 - 1) (offset + 1) cs =
      lexemesFrom 0 (offset + (scanToken offset c cs).2)
        (cs.drop ((scanToken offset c cs).2 - 1)) := by
    rw [lexemesFrom_skip]
    congr 1
    omega
  rw [← hnext, lexemesFrom, if_neg (Nat.lt_irrefl 0), hc, if_neg Bool.false_ne_true]

/-- A text without lexemes is blank. -/
theorem isBlank_of_lexemesFrom_nil {offset : Nat} {cs : List Char}
    (h : lexemesFrom 0 offset cs = []) : ∀ c ∈ cs, isBlank c = true := by
  induction cs generalizing offset with
  | nil => simp
  | cons c cs ih =>
      cases hc : isBlank c with
      | false =>
          rw [lexemesFrom_cons hc] at h
          cases h
      | true =>
          rw [lexemesFrom_cons_blank hc] at h
          intro d hd
          -- a blank is passed over, anything else would be a lexeme
          rcases List.mem_cons.1 hd with rfl | hd
          · exact hc
          · exact ih h d hd

/-- Where a lexeme stands, and that cutting the text from there on gives it and those behind it. -/
theorem exists_lexeme {offset : Nat} {cs : List Char} {before after : List Lexeme} {l : Lexeme}
    (h : lexemesFrom 0 offset cs = before ++ l :: after) :
    ∃ k c rest, l.start = offset + k ∧ cs.drop k = c :: rest ∧ isBlank c = false ∧
      l.token = (scanToken l.start c rest).1 ∧ lexemesFrom 0 l.start (c :: rest) = l :: after := by
  induction hn : cs.length using Nat.strongRecOn generalizing offset cs before with
  | _ n ih =>
      subst hn
      cases cs with
      | nil => simp [lexemesFrom] at h
      | cons c cs =>
          cases hc : isBlank c with
          | true =>
              rw [lexemesFrom_cons_blank hc] at h
              rcases ih cs.length (by simp) h rfl with ⟨k, d, rest, hstart, hdrop, hd⟩
              exact ⟨k + 1, d, rest, by omega, hdrop, hd⟩
          | false =>
              have hcut := h
              rw [lexemesFrom_cons hc] at h
              cases before with
              | nil =>
                  rcases List.cons.inj h with ⟨rfl, -⟩
                  exact ⟨0, c, cs, rfl, rfl, hc, rfl, hcut⟩
              | cons b bs =>
                  rcases List.cons.inj h with ⟨-, htail⟩
                  split at htail
                  · cases bs <;> cases htail
                  · -- go on behind the token, which is at least one character
                    have hpos := one_le_scanToken offset c cs
                    have hshorter : (cs.drop ((scanToken offset c cs).2 - 1)).length <
                        (c :: cs).length := by
                      rw [List.length_drop, List.length_cons]
                      omega
                    rcases ih _ hshorter htail rfl with ⟨k, d, rest, hstart, hdrop, hd⟩
                    refine ⟨k + (scanToken offset c cs).2, d, rest, by omega, ?_, hd⟩
                    rw [List.drop_drop] at hdrop
                    rcases Nat.exists_eq_add_of_le' hpos with ⟨m, hm⟩
                    rw [hm] at hdrop ⊢
                    rw [← Nat.add_assoc, List.drop_succ_cons, ← hdrop]
                    congr 1
                    omega

/-- Where a closing brace stands, and that the text behind it gives the lexemes behind it. -/
theorem exists_closeObject {offset last : Nat} {cs : List Char} {before after : List Lexeme}
    (h : lexemesFrom 0 offset cs = before ++ ⟨last, .closeObject⟩ :: after) :
    ∃ k rest, last = offset + k ∧ cs.drop k = '\x7d' :: rest ∧
      (scanToken last '\x7d' rest).2 = 1 ∧ lexemesFrom 0 (last + 1) rest = after := by
  rcases exists_lexeme h with ⟨k, c, rest, hstart, hdrop, hblank, htoken, hlex⟩
  have hsep : (scanToken last c rest).1.isSeparator = true := by
    rw [← htoken]
    rfl
  rcases of_isSeparator_scanToken hsep with ⟨hmark, -⟩
  simp only [List.mem_cons, List.not_mem_nil, or_false] at hmark
  -- of the three separators only this one closes an object
  rcases hmark with rfl | rfl | rfl
  · cases htoken
  · cases htoken
  · rw [lexemesFrom_cons hblank] at hlex
    exact ⟨k, rest, hstart, hdrop, rfl, (List.cons.inj hlex).2⟩

/-! ## Lexemes of a text that goes on -/

/-- These lexemes are whole, and behind each numeral there is a separator. -/
def Enclosed : List Lexeme → Prop
  | [] => True
  | l :: ls =>
      l.token.isBroken = false ∧
        (∀ n, l.token = .literal (.number n) →
          ∃ next more, ls = next :: more ∧ next.token.isSeparator = true) ∧
        Enclosed ls

/-- Does a phrase end with a token that closes it? -/
def Phrase.isClosed : Phrase → Bool
  | .value (.leaf ..) => false
  | _ => true

/-- The lexemes of a phrase enclose its numerals, if it is closed or a separator follows. -/
theorem Spells.enclosed {room : Nat} {ls : List Lexeme} {p : Phrase} (h : Spells room ls p)
    {rest : List Lexeme} (hrest : Enclosed rest)
    (hsep : p.isClosed = true ∨
      ∃ next more, rest = next :: more ∧ next.token.isSeparator = true) :
    Enclosed (ls ++ rest) := by
  -- every value within a container has a separator behind it, so only the phrase itself needs one
  induction h generalizing rest with
  | leaf =>
      rcases hsep with hclosed | hsep
      · cases hclosed
      · exact ⟨rfl, fun _ _ => hsep, hrest⟩
  | emptyArray => exact ⟨rfl, by simp, rfl, by simp, hrest⟩
  | array _ ih => exact ⟨rfl, by simp, ih hrest (.inl rfl)⟩
  | emptyObject => exact ⟨rfl, by simp, rfl, by simp, hrest⟩
  | object _ ih => exact ⟨rfl, by simp, rfl, by simp, rfl, by simp, ih hrest (.inl rfl)⟩
  | lastItem _ ih | lastMember _ ih =>
      rw [List.append_assoc]
      exact ih ⟨rfl, by simp, hrest⟩ (.inr ⟨_, _, rfl, rfl⟩)
  | nextItem _ _ ih ihmore =>
      rw [List.append_assoc]
      exact ih ⟨rfl, by simp, ihmore hrest (.inl rfl)⟩ (.inr ⟨_, _, rfl, rfl⟩)
  | nextMember _ _ ih ihmore =>
      rw [List.append_assoc]
      exact ih ⟨rfl, by simp, rfl, by simp, rfl, by simp, ihmore hrest (.inl rfl)⟩
        (.inr ⟨_, _, rfl, rfl⟩)

/-- No numeral goes on in front of a separator. -/
theorem endsNumeral_of_separator {offset : Nat} {cs : List Char} {l : Lexeme} {ls : List Lexeme}
    (h : lexemesFrom 0 offset cs = l :: ls) (hsep : l.token.isSeparator = true) (more : List Char) :
    EndsNumeral (cs ++ more) := by
  cases cs with
  | nil => cases h
  | cons c cs =>
      intro d hd
      obtain rfl : c = d := by simpa using hd
      -- blanks and separators are no part of a number
      cases hc : isBlank c with
      | true =>
          simp only [isBlank, Bool.or_eq_true, decide_eq_true_eq] at hc
          rcases hc with ((rfl | rfl) | rfl) | rfl <;> simp [isDigit]
      | false =>
          rw [lexemesFrom_cons hc] at h
          rcases List.cons.inj h with ⟨rfl, -⟩
          have hmark := (of_isSeparator_scanToken hsep).1
          simp only [List.mem_cons, List.not_mem_nil, or_false] at hmark
          rcases hmark with rfl | rfl | rfl <;> simp [isDigit]

/-- Lexemes that enclose their numerals are the same whatever text follows. -/
theorem lexemesFrom_append {offset : Nat} {cs : List Char} (more : List Char)
    {used left : List Lexeme} (h : lexemesFrom 0 offset cs = used ++ left) (hused : Enclosed used) :
    ∃ left', lexemesFrom 0 offset (cs ++ more) = used ++ left' := by
  -- the induction is on the text, as a step may pass over many characters
  induction hn : cs.length using Nat.strongRecOn generalizing offset cs used with
  | _ n ih =>
      subst hn
      cases used with
      | nil => exact ⟨_, rfl⟩
      | cons l used =>
          cases cs with
          | nil => cases h
          | cons c cs =>
              cases hc : isBlank c with
              | true =>
                  rw [lexemesFrom_cons_blank hc] at h
                  rcases ih cs.length (by simp) h hused rfl with ⟨left', hleft⟩
                  refine ⟨left', ?_⟩
                  rw [List.cons_append, lexemesFrom_cons_blank hc, hleft]
              | false =>
                  rw [lexemesFrom_cons hc] at h
                  rcases List.cons.inj h with ⟨rfl, htail⟩
                  rcases hused with ⟨hwhole, hnumeral, hrest⟩
                  rw [if_neg (by simp [hwhole])] at htail
                  have hshorter : (cs.drop ((scanToken offset c cs).2 - 1)).length <
                      (c :: cs).length := by
                    rw [List.length_drop, List.length_cons]
                    omega
                  rcases ih _ hshorter htail hrest rfl with ⟨left', hleft⟩
                  have hle := scanToken_le hwhole
                  have hdrop : (cs ++ more).drop ((scanToken offset c cs).2 - 1) =
                      cs.drop ((scanToken offset c cs).2 - 1) ++ more :=
                    List.drop_append_of_le_length (by omega)
                  -- a numeral that is cut off here has a separator behind it
                  have hsame : scanToken offset c (cs ++ more) = scanToken offset c cs := by
                    apply scanToken_append hwhole
                    intro n htoken
                    rcases hnumeral n htoken with ⟨next, others, rfl, hsep⟩
                    rw [hdrop]
                    exact endsNumeral_of_separator htail hsep more
                  refine ⟨left', ?_⟩
                  rw [List.cons_append, lexemesFrom_cons hc, hsame, hdrop, hleft,
                    if_neg (by simp [hwhole]), List.cons_append]

end ComponentMarkup
