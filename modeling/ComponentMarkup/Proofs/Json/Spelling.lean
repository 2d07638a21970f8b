import ComponentMarkup.Proofs.Json.ValueAt

/-!
# How lexemes are spelled

What may stand between the quotes of a string, which characters spell a text, and which a token. A
whole lexeme that is cut off a text is spelled by the characters that it takes (`exists_spelling`),
and a spelling in front of a text is cut off as one lexeme (`lexemesFrom_spelling`).
-/

namespace ComponentMarkup

/-! ## Strings -/

/-- A hexadecimal digit. -/
def IsHexDigit (c : Char) : Prop := isDigit c = true ∨ 'a' ≤ c ∧ c ≤ 'f' ∨ 'A' ≤ c ∧ c ≤ 'F'

instance (c : Char) : Decidable (IsHexDigit c) :=
  inferInstanceAs (Decidable (isDigit c = true ∨ 'a' ≤ c ∧ c ≤ 'f' ∨ 'A' ≤ c ∧ c ≤ 'F'))

/-- What may stand between the quotes of a string: characters from the space on as they are, quotes
and backslashes apart, and escapes. -/
inductive IsStringBody : List Char → Prop where
  | nil : IsStringBody []
  | plain {c cs} (hcontrol : 0x20 ≤ c.toNat) (hquote : c ≠ '"') (hslash : c ≠ '\\') :
      IsStringBody cs → IsStringBody (c :: cs)
  | short {c cs} (hc : c ∈ ['"', '\\', '/', 'b', 'f', 'n', 'r', 't']) :
      IsStringBody cs → IsStringBody ('\\' :: c :: cs)
  | unicode {a b c d cs} (h : ∀ x ∈ [a, b, c, d], IsHexDigit x) :
      IsStringBody cs → IsStringBody ('\\' :: 'u' :: a :: b :: c :: d :: cs)

theorem hexDigit?_lt {c : Char} {n : Nat} (h : hexDigit? c = some n) : n < 16 := by
  -- the bounds of the three digit ranges as numbers, for `omega`
  have h9 : ('9' : Char).toNat = 57 := rfl
  have hf : ('f' : Char).toNat = 102 := rfl
  have hF : ('F' : Char).toNat = 70 := rfl
  have h0 : ('0' : Char).toNat = 48 := rfl
  have ha : ('a' : Char).toNat = 97 := rfl
  have hA : ('A' : Char).toNat = 65 := rfl
  simp only [hexDigit?, Char.le_def, UInt32.le_iff_toNat_le, Char.toNat_val] at h
  split at h
  · obtain rfl := Option.some.inj h
    omega
  · split at h
    · obtain rfl := Option.some.inj h
      omega
    · split at h
      · obtain rfl := Option.some.inj h
        omega
      · cases h

theorem exists_hexDigit?_iff {c : Char} : (∃ n, hexDigit? c = some n) ↔ IsHexDigit c := by
  have hdigit : isDigit c = true ↔ '0' ≤ c ∧ c ≤ '9' := by
    simp [isDigit]
  rw [IsHexDigit, hdigit, hexDigit?]
  split
  · next h => simp [h]
  · next h =>
    split
    · next h' => simp [h']
    · next h' =>
      split
      · next h'' => simp [h'']
      · next h'' => simp [h, h', h'']

theorem exists_hexPoint?_iff {a b c d : Char} :
    (∃ point, hexPoint? a b c d = some point) ↔ ∀ x ∈ [a, b, c, d], IsHexDigit x := by
  simp only [List.forall_mem_cons, ← exists_hexDigit?_iff]
  constructor
  · rintro ⟨point, h⟩
    rcases Option.bind_eq_some_iff.1 h with ⟨i, hi, h⟩
    rcases Option.bind_eq_some_iff.1 h with ⟨j, hj, h⟩
    rcases Option.bind_eq_some_iff.1 h with ⟨k, hk, h⟩
    rcases Option.bind_eq_some_iff.1 h with ⟨l, hl, -⟩
    exact ⟨⟨i, hi⟩, ⟨j, hj⟩, ⟨k, hk⟩, ⟨l, hl⟩, by simp⟩
  · rintro ⟨⟨i, hi⟩, ⟨j, hj⟩, ⟨k, hk⟩, ⟨l, hl⟩, -⟩
    -- four digits stay far below the last code point
    have hi' := hexDigit?_lt hi
    have hj' := hexDigit?_lt hj
    have hk' := hexDigit?_lt hk
    have hl' := hexDigit?_lt hl
    have hlt : ((i * 16 + j) * 16 + k) * 16 + l < 0x110000 := by omega
    refine ⟨⟨((i * 16 + j) * 16 + k) * 16 + l, hlt⟩, ?_⟩
    simp [hexPoint?, hi, hj, hk, hl, hlt]

theorem exists_shortEscape?_iff {c : Char} :
    (∃ e, shortEscape? c = some e) ↔ c ∈ ['"', '\\', '/', 'b', 'f', 'n', 'r', 't'] := by
  constructor
  · rintro ⟨e, he⟩
    unfold shortEscape? at he
    split at he
    any_goals simp
    cases he
  · intro hc
    simp only [List.mem_cons, List.not_mem_nil, or_false] at hc
    rcases hc with rfl | rfl | rfl | rfl | rfl | rfl | rfl | rfl <;> exact ⟨_, rfl⟩

/-- These characters, between quotes, spell a text: every code point as it is or escaped, one above
`0xFFFF` also as the escapes of a surrogate pair. An escaped high surrogate stands for itself only
if no low one follows. -/
inductive Text.IsSpelled : Text → List Char → Prop where
  | nil : IsSpelled [] []
  | plain {c t cs} (hcontrol : 0x20 ≤ c.toNat) (hquote : c ≠ '"') (hslash : c ≠ '\\') :
      IsSpelled t cs → IsSpelled (CodePoint.ofChar c :: t) (c :: cs)
  | short {c e t cs} (he : shortEscape? c = some e) :
      IsSpelled t cs → IsSpelled (CodePoint.ofChar e :: t) ('\\' :: c :: cs)
  | unicode {a b c d p t cs} (hp : hexPoint? a b c d = some p)
      (hlone : p.IsHighSurrogate → ∀ q ∈ t.head?, ¬ q.IsLowSurrogate) :
      IsSpelled t cs → IsSpelled (p :: t) ('\\' :: 'u' :: a :: b :: c :: d :: cs)
  | pair {a b c d a' b' c' d' p q t cs} (hp : hexPoint? a b c d = some p)
      (hq : hexPoint? a' b' c' d' = some q) (hhigh : p.IsHighSurrogate) (hlow : q.IsLowSurrogate) :
      IsSpelled t cs → IsSpelled (CodePoint.ofPair p q :: t)
        ('\\' :: 'u' :: a :: b :: c :: d :: '\\' :: 'u' :: a' :: b' :: c' :: d' :: cs)

theorem CodePoint.not_isLowSurrogate_ofChar (c : Char) : ¬ (ofChar c).IsLowSurrogate := by
  have hvalid := c.valid
  simp only [UInt32.isValidChar, Nat.isValidChar] at hvalid
  simp only [IsLowSurrogate, val_ofChar, Char.toNat]
  omega

/-- Only its own escape spells a low surrogate. -/
theorem Text.IsSpelled.exists_low {q : CodePoint} {t : Text} {cs : List Char}
    (h : Text.IsSpelled (q :: t) cs) (hlow : q.IsLowSurrogate) :
    ∃ a b c d rest, cs = '\\' :: 'u' :: a :: b :: c :: d :: rest ∧ hexPoint? a b c d = some q ∧
      t.IsSpelled rest := by
  cases h with
  | plain | short => exact absurd hlow (CodePoint.not_isLowSurrogate_ofChar _)
  | unicode hq _ hrest => exact ⟨_, _, _, _, _, rfl, hq, hrest⟩
  | pair =>
      simp only [CodePoint.IsLowSurrogate, CodePoint.ofPair] at hlow
      omega

/-- What may stand between quotes spells a text. -/
theorem IsStringBody.exists_isSpelled {body : List Char} (h : IsStringBody body) :
    ∃ t : Text, t.IsSpelled body := by
  -- induction on the grammar of string bodies; only a `u` escape needs thought: with the escape
  -- behind it, it may form a pair
  induction h with
  | nil => exact ⟨[], .nil⟩
  | plain hcontrol hquote hslash _ ih =>
      rcases ih with ⟨t, ht⟩
      exact ⟨_, .plain hcontrol hquote hslash ht⟩
  | short hc _ ih =>
      rcases exists_shortEscape?_iff.2 hc with ⟨e, he⟩
      rcases ih with ⟨t, ht⟩
      exact ⟨_, .short he ht⟩
  | unicode hdigits _ ih =>
      rcases exists_hexPoint?_iff.2 hdigits with ⟨p, hp⟩
      rcases ih with ⟨t, ht⟩
      by_cases hjoins : p.IsHighSurrogate ∧ ∃ q ∈ t.head?, q.IsLowSurrogate
      · -- the next code point is a low surrogate, so it was itself written as a `u` escape: the two
        -- join
        rcases hjoins with ⟨hhigh, q, hq, hlow⟩
        rcases List.head?_eq_some_iff.1 hq with ⟨t, rfl⟩
        rcases ht.exists_low hlow with ⟨a, b, c, d, rest, rfl, hpoint, hrest⟩
        exact ⟨_, .pair hp hpoint hhigh hlow hrest⟩
      · -- nothing to join with: the escape stands for its own code point
        refine ⟨_, .unicode hp ?_ ht⟩
        intro hhigh q hq hlow
        exact hjoins ⟨hhigh, q, hq, hlow⟩

/-- A text is what may stand between the quotes that spell it. -/
theorem Text.IsSpelled.isStringBody {t : Text} {body : List Char} (h : t.IsSpelled body) :
    IsStringBody body := by
  induction h with
  | nil => exact .nil
  | plain hcontrol hquote hslash _ ih => exact .plain hcontrol hquote hslash ih
  | short he _ ih => exact .short (exists_shortEscape?_iff.1 ⟨_, he⟩) ih
  | unicode hp _ _ ih => exact .unicode (exists_hexPoint?_iff.1 ⟨_, hp⟩) ih
  | pair hp hq _ _ _ ih =>
      exact .unicode (exists_hexPoint?_iff.1 ⟨_, hp⟩) (.unicode (exists_hexPoint?_iff.1 ⟨_, hq⟩) ih)

/-- A string is read up to its closing quote as the text that is spelled, wherever it stands. -/
theorem Text.IsSpelled.scanString_eq {t : Text} {body : List Char} (h : t.IsSpelled body)
    (opening offset : Nat) (rest : List Char) :
    scanString opening offset (body ++ '"' :: rest) = .ok (t, offset + body.length - opening) := by
  induction h generalizing offset with
  | nil => rfl
  | @plain c t cs hcontrol hquote hslash _ ih =>
      rw [List.cons_append, scanString_char hquote hslash (Nat.not_lt.2 hcontrol), ih,
        List.length_cons, Nat.add_right_comm, Nat.add_assoc]
      rfl
  | @short c e t cs he _ ih =>
      have hlen : offset + ('\\' :: c :: cs).length = offset + 2 + cs.length := by
        simp only [List.length_cons]
        omega
      rw [List.cons_append, List.cons_append, scanString_escape he, ih, hlen]
      rfl
  | @unicode a b c d p t cs hp hlone _ ih =>
      have hlen : offset + ('\\' :: 'u' :: a :: b :: c :: d :: cs).length =
          offset + 6 + cs.length := by
        simp only [List.length_cons]
        omega
      have hjoin : Text.joinPair p t = p :: t := by
        cases t with
        | nil => rfl
        | cons q t => exact if_neg fun hpair => hlone hpair.1 q rfl hpair.2
      rw [hlen]
      simp [scanString, hp, ih, Except.map, hjoin]
  | @pair a b c d a' b' c' d' p q t cs hp hq hhigh hlow _ ih =>
      have hlen : offset + ('\\' :: 'u' :: a :: b :: c :: d ::
          '\\' :: 'u' :: a' :: b' :: c' :: d' :: cs).length = offset + 6 + 6 + cs.length := by
        simp only [List.length_cons]
        omega
      -- the low surrogate is read first; it is not high, so it does not join with what follows
      have hlow' : Text.joinPair q t = q :: t := by
        have hnothigh : ¬ q.IsHighSurrogate := by
          simp only [CodePoint.IsLowSurrogate, CodePoint.IsHighSurrogate] at hlow ⊢
          omega
        cases t with
        | nil => rfl
        | cons r t => exact if_neg fun hpair => hnothigh hpair.1
      have hjoin : Text.joinPair p (q :: t) = CodePoint.ofPair p q :: t := if_pos ⟨hhigh, hlow⟩
      rw [hlen]
      simp [scanString, hp, hq, ih, Except.map, hlow', hjoin]

/-- A string is read up to its closing quote, and as the same text wherever it stands. -/
theorem IsStringBody.exists_scanString {body : List Char} (h : IsStringBody body) :
    ∃ t, ∀ opening offset rest, scanString opening offset (body ++ '"' :: rest) =
      .ok (t, offset + body.length - opening) := by
  rcases h.exists_isSpelled with ⟨t, ht⟩
  exact ⟨t, ht.scanString_eq⟩

/-- What is read of a string is a body and the quote behind it. -/
theorem exists_body_of_scanString {opening offset : Nat} {cs : List Char} {r : Text × Nat}
    (h : scanString opening offset cs = .ok r) (hle : opening ≤ offset) :
    ∃ body rest, cs = body ++ '"' :: rest ∧ IsStringBody body ∧
      opening + r.2 = offset + body.length := by
  fun_induction scanString opening offset cs generalizing r with
  | case1 | case3 | case5 | case6 | case8 | case9 | case10 => cases h
  | case2 offset tail =>
      cases h
      exact ⟨[], tail, rfl, .nil, by simp only [List.length_nil]; omega⟩
  | case4 offset a b c d rest point hpoint hne ih =>
      rcases Except.of_map_eq_ok h with ⟨r', hr', rfl⟩
      rcases ih hr' (by omega) with ⟨body, rest, rfl, hbody, hlen⟩
      have hdigits := exists_hexPoint?_iff.1 ⟨point, hpoint⟩
      refine ⟨_, rest, rfl, .unicode hdigits hbody, ?_⟩
      simp only [List.length_cons]
      omega
  | case7 offset c rest hu hc e he ih =>
      rcases Except.of_map_eq_ok h with ⟨r', hr', rfl⟩
      rcases ih hr' (by omega) with ⟨body, rest, rfl, hbody, hlen⟩
      refine ⟨_, rest, rfl, .short (exists_shortEscape?_iff.1 ⟨e, he⟩) hbody, ?_⟩
      simp only [List.length_cons]
      omega
  | case11 offset c rest hquote hpair hu hescape hlast hc ih =>
      rcases Except.of_map_eq_ok h with ⟨r', hr', rfl⟩
      -- a backslash is part of an escape, or else the last character of the text
      have hslash : c ≠ '\\' := by
        intro heq
        cases rest with
        | nil => exact hlast heq rfl
        | cons d rest => exact hescape d rest heq rfl
      rcases ih hr' (by omega) with ⟨body, rest, rfl, hbody, hlen⟩
      refine ⟨_, rest, rfl, .plain (Nat.not_lt.1 hc) hquote hslash hbody, ?_⟩
      simp only [List.length_cons]
      omega

/-! ## Tokens -/

/-- A token is spelled by these characters. What a string means is left open. -/
inductive Token.IsSpelled : Token → List Char → Prop where
  | openObject : IsSpelled .openObject ['\x7b']
  | closeObject : IsSpelled .closeObject ['\x7d']
  | openArray : IsSpelled .openArray ['[']
  | closeArray : IsSpelled .closeArray [']']
  | colon : IsSpelled .colon [':']
  | comma : IsSpelled .comma [',']
  | word {w} (hw : w ∈ literalWords) : IsSpelled (.literal w.2) w.1
  | string {body t} (hbody : IsStringBody body) :
      IsSpelled (.literal (.string t)) ('"' :: (body ++ ['"']))
  | number {n} (hn : n.WellFormed) (hfew : numeralToken n = .literal (.number n)) :
      IsSpelled (.literal (.number n)) n.spelling

theorem exists_body_of_isSpelled {t : Text} {s : List Char}
    (h : (Token.literal (.string t)).IsSpelled s) :
    ∃ body, s = '"' :: (body ++ ['"']) ∧ IsStringBody body := by
  generalize htoken : Token.literal (.string t) = token at h
  cases h with
  | openObject | closeObject | openArray | closeArray | colon | comma | number => cases htoken
  | @word w hw =>
      simp only [literalWords, List.mem_cons, List.not_mem_nil, or_false] at hw
      rcases hw with rfl | rfl | rfl | rfl | rfl | rfl <;> cases htoken
  | @string body _ hbody => exact ⟨body, rfl, hbody⟩

/-- A token that is whole is spelled by the characters that it takes. -/
theorem exists_isSpelled_of_scanToken {offset : Nat} {c : Char} {cs : List Char}
    (h : (scanToken offset c cs).1.isBroken = false) :
    ∃ s rest, c :: cs = s ++ rest ∧ (scanToken offset c cs).2 = s.length ∧
      (scanToken offset c cs).1.IsSpelled s := by
  -- one case for each kind of first character: quotation mark, single mark, and all others
  by_cases hc : c ∈ tokenMarks
  · rcases List.mem_cons.1 hc with rfl | hsingle
    · -- a broken string would make the token broken; what is left is a string that was closed
      cases hscan : scanString offset (offset + 1) cs with
      | error fault => simp [scanToken, hscan, Token.isBroken] at h
      | ok r =>
          have hle : offset ≤ offset + 1 := Nat.le_succ _
          rcases exists_body_of_scanString hscan hle with ⟨body, rest, rfl, hbody, hlen⟩
          refine ⟨'"' :: (body ++ ['"']), rest, by simp, ?_, ?_⟩
          · simp only [scanToken, hscan, List.length_cons, List.length_append, List.length_nil]
            omega
          · simp only [scanToken, hscan]
            exact .string hbody
    · simp only [singleMarks, List.mem_cons, List.not_mem_nil, or_false] at hsingle
      rcases hsingle with rfl | rfl | rfl | rfl | rfl | rfl
      · exact ⟨_, cs, rfl, rfl, .openObject⟩
      · exact ⟨_, cs, rfl, rfl, .closeObject⟩
      · exact ⟨_, cs, rfl, rfl, .openArray⟩
      · exact ⟨_, cs, rfl, rfl, .closeArray⟩
      · exact ⟨_, cs, rfl, rfl, .colon⟩
      · exact ⟨_, cs, rfl, rfl, .comma⟩
  · -- a word of the table or a numeral within the digit limit
    rw [scanToken_word hc] at h ⊢
    rcases of_scanWord h with ⟨w, hw, rest, hcs, hscan⟩ | ⟨n, hn, hfew, rest, hcs, hscan⟩
    · rw [hscan]
      exact ⟨w.1, rest, hcs, rfl, .word hw⟩
    · rw [hscan, hfew]
      exact ⟨n.spelling, rest, hcs, rfl, .number hn hfew⟩

/-! ## Lexemes -/

/-- The characters of a text from the start of a lexeme up to its end. -/
def Lexeme.spelling (text : List Char) (l : Lexeme) : List Char :=
  (text.drop l.start).take (l.stop text - l.start)

/-- The blanks in front of the first lexeme of a text. -/
theorem exists_blanks {offset : Nat} {cs : List Char} {l : Lexeme} {ls : List Lexeme}
    (h : lexemesFrom 0 offset cs = l :: ls) :
    ∃ blanks c rest, cs = blanks ++ c :: rest ∧ (∀ b ∈ blanks, isBlank b = true) ∧
      isBlank c = false ∧ l.start = offset + blanks.length := by
  -- induction along the text: blanks are passed one at a time until the lexeme begins
  induction cs generalizing offset with
  | nil => cases h
  | cons c cs ih =>
      cases hc : isBlank c with
      | true =>
          rw [lexemesFrom_cons_blank hc] at h
          rcases ih h with ⟨blanks, d, rest, rfl, hblanks, hd, hstart⟩
          -- the blank joins the ones already passed
          refine ⟨c :: blanks, d, rest, rfl, ?_, hd, ?_⟩
          · intro b hb
            rcases List.mem_cons.1 hb with rfl | hb
            · exact hc
            · exact hblanks b hb
          · rw [hstart, List.length_cons]
            omega
      | false =>
          rw [lexemesFrom_cons hc] at h
          rcases List.cons.inj h with ⟨rfl, -⟩
          exact ⟨[], c, cs, rfl, by simp, hc, rfl⟩

/-- The first lexeme of a text, if it is whole: the blanks in front of it, its spelling, and the
text behind it with the other lexemes. -/
theorem exists_spelling {text : List Char} {offset : Nat} {l : Lexeme} {ls : List Lexeme}
    (h : lexemesFrom 0 offset (text.drop offset) = l :: ls) (hwhole : l.token.isBroken = false) :
    ∃ blanks stop, text.drop offset = blanks ++ (l.spelling text ++ text.drop stop) ∧
      (∀ b ∈ blanks, isBlank b = true) ∧ l.token.IsSpelled (l.spelling text) ∧
      lexemesFrom 0 stop (text.drop stop) = ls := by
  -- put the blanks aside first, so that the text of the lexeme begins at its start offset
  rcases exists_blanks h with ⟨blanks, c, rest, hcs, hblanks, hc, hstart⟩
  have hdrop : text.drop l.start = c :: rest := by
    rw [hstart, ← List.drop_drop, hcs, List.drop_left]
  rw [hcs, lexemesFrom_blank hblanks, ← hstart, lexemesFrom_cons hc] at h
  rcases List.cons.inj h with ⟨hl, hls⟩
  have htoken : l.token = (scanToken l.start c rest).1 := by rw [← hl]
  rw [htoken] at hwhole
  rw [if_neg (by simp [hwhole])] at hls
  -- the token's own spelling is what it consumed; the rest follows from comparing lengths
  rcases exists_isSpelled_of_scanToken hwhole with ⟨s, more, hsplit, hlen, hspelled⟩
  have hstop : l.stop text = l.start + s.length := by
    simp only [Lexeme.stop, hdrop, hlen]
  have hspelling : l.spelling text = s := by
    rw [Lexeme.spelling, hstop, Nat.add_sub_cancel_left, hdrop, hsplit, List.take_left]
  have hmore : text.drop (l.start + s.length) = more := by
    rw [← List.drop_drop, hdrop, hsplit, List.drop_left]
  -- `lexemesFrom` skips one character less than the spelling has, as the first one is already gone
  have hbehind : rest.drop (s.length - 1) = more := by
    have hpos := one_le_scanToken l.start c rest
    rcases Nat.exists_eq_add_of_le' hpos with ⟨k, hk⟩
    have hk' : s.length = k + 1 := hlen.symm.trans hk
    have hall : (c :: rest).drop s.length = more := by rw [hsplit, List.drop_left]
    rw [hk', List.drop_succ_cons] at hall
    rw [hk', Nat.add_sub_cancel, hall]
  refine ⟨blanks, l.start + s.length, ?_, hblanks, ?_, ?_⟩
  · rw [hspelling, hmore, ← hsplit, hcs]
  · rw [hspelling, htoken]
    exact hspelled
  · rw [hmore, ← hbehind, ← hlen, hls]

/-- A spelling in front of a text is cut off as one lexeme, if it is scanned as a whole. -/
theorem lexemesFrom_spelling {offset : Nat} {c : Char} {cs rest : List Char} {token : Token}
    (hc : isBlank c = false) (hwhole : token.isBroken = false)
    (hscan : scanToken offset c (cs ++ rest) = (token, cs.length + 1)) :
    lexemesFrom 0 offset (c :: cs ++ rest) =
      ⟨offset, token⟩ :: lexemesFrom 0 (offset + (cs.length + 1)) rest := by
  rw [List.cons_append, lexemesFrom_cons hc, hscan]
  simp only [hwhole, Bool.false_eq_true, if_false, Nat.add_sub_cancel, List.drop_left]

theorem lexemesFrom_string {t : Text} {body : List Char} (h : t.IsSpelled body) (offset : Nat)
    (rest : List Char) :
    lexemesFrom 0 offset ('"' :: (body ++ ['"']) ++ rest) =
      ⟨offset, .literal (.string t)⟩ ::
        lexemesFrom 0 (offset + ((body ++ ['"']).length + 1)) rest := by
  apply lexemesFrom_spelling rfl rfl
  have hlen : offset + 1 + body.length - offset = (body ++ ['"']).length := by
    simp only [List.length_append, List.length_singleton]
    omega
  simp only [List.append_assoc, List.singleton_append, scanToken, h.scanString_eq, hlen]

/-- No word for a value starts with a blank or with a character that is a token by itself. -/
theorem exists_cons_literalWords :
    ∀ w ∈ literalWords, ∃ c cs, w.1 = c :: cs ∧ isBlank c = false ∧ c ∉ tokenMarks := by
  intro w hw
  simp only [literalWords, List.mem_cons, List.not_mem_nil, or_false] at hw
  rcases hw with rfl | rfl | rfl | rfl | rfl | rfl <;> exact ⟨_, _, rfl, rfl, by decide⟩

theorem lexemesFrom_word {w : List Char × Literal} (hw : w ∈ literalWords) (offset : Nat)
    (rest : List Char) :
    lexemesFrom 0 offset (w.1 ++ rest) =
      ⟨offset, .literal w.2⟩ :: lexemesFrom 0 (offset + w.1.length) rest := by
  rcases exists_cons_literalWords w hw with ⟨c, cs, heq, hblank, hmark⟩
  have hscan := scanWord_literal hw rest
  rw [heq] at hscan ⊢
  apply lexemesFrom_spelling hblank rfl
  rw [scanToken_word hmark]
  exact hscan

/-- A numeral starts with a digit or a sign. -/
theorem Numeral.WellFormed.exists_cons {n : Numeral} (h : n.WellFormed) :
    ∃ c cs, n.spelling = c :: cs ∧ isBlank c = false ∧ c ∉ tokenMarks := by
  -- the first character is the sign, or else the first digit; neither is blank or a mark
  rcases h.exists_digit with ⟨d, ds, hwhole, hd⟩
  cases hneg : n.negative with
  | true =>
      refine ⟨'-', n.whole ++ (Numeral.fractionSpelling n.fraction ++
        (n.exponent.map Exponent.spelling).getD []), ?_, rfl, by decide⟩
      simp [Numeral.spelling, hneg]
  | false =>
      refine ⟨d, ds ++ (Numeral.fractionSpelling n.fraction ++
        (n.exponent.map Exponent.spelling).getD []), ?_, ?_, ?_⟩
      · simp [Numeral.spelling, hneg, hwhole]
      · cases hblank : isBlank d with
        | false => rfl
        | true =>
            exfalso
            simp only [isBlank, Bool.or_eq_true, decide_eq_true_eq] at hblank
            rcases hblank with ((rfl | rfl) | rfl) | rfl <;> cases hd
      · intro hmark
        simp only [tokenMarks, singleMarks, List.mem_cons, List.not_mem_nil, or_false] at hmark
        rcases hmark with rfl | rfl | rfl | rfl | rfl | rfl | rfl <;> cases hd

theorem lexemesFrom_numeral {n : Numeral} {rest : List Char} (h : n.WellFormed)
    (hfew : numeralToken n = .literal (.number n)) (hrest : EndsNumeral rest) (offset : Nat) :
    lexemesFrom 0 offset (n.spelling ++ rest) =
      ⟨offset, .literal (.number n)⟩ :: lexemesFrom 0 (offset + n.spelling.length) rest := by
  rcases h.exists_cons with ⟨c, cs, heq, hblank, hmark⟩
  have hscan := scanWord_numeral h hrest
  rw [hfew] at hscan
  rw [heq] at hscan ⊢
  apply lexemesFrom_spelling hblank rfl
  rw [scanToken_word hmark]
  exact hscan

end ComponentMarkup
