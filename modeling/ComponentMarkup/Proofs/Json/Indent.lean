import ComponentMarkup.Proofs.Json.Translation
import ComponentMarkup.Proofs.Marker
import ComponentMarkup.Proofs.Text.Indent
import Mathlib.Logic.Function.Basic

/-!
# Decoding an indented text

Spaces in front of its lines do not change what a text decodes to, nor whether it does, but move
every node to the right (`decodeJson_indent_iff`). A line end never stands within a token: it ends
words and numerals, and is a fault in a string. So the tokens of both texts are spelled alike, and
all that is left is to follow their offsets.
-/

namespace ComponentMarkup

/-! ## Words and numerals in front of a gap -/

section

variable {front rest : List Char}

theorem StartsWithGap.endsNumeral (h : StartsWithGap rest) : EndsNumeral rest := by
  intro c hc
  rcases h c hc with rfl | hnewline
  · decide
  · simp only [isNewline, Bool.or_eq_true, decide_eq_true_eq] at hnewline
    rcases hnewline with rfl | rfl <;> decide

theorem StartsWithGap.head?_ne {c : Char} (h : StartsWithGap rest) (hspace : c ≠ ' ')
    (hc : isNewline c = false) : rest.head? ≠ some c := by
  intro hhead
  rcases h c hhead with rfl | hnewline
  · exact hspace rfl
  · rw [hc] at hnewline
    cases hnewline

theorem StartsWithGap.head?_append_ne {c : Char} (h : StartsWithGap rest) (hspace : c ≠ ' ')
    (hc : isNewline c = false) (hfront : front.head? ≠ some c) :
    (front ++ rest).head? ≠ some c := by
  cases front with
  | nil => exact h.head?_ne hspace hc
  | cons d ds => exact hfront

theorem takeWhile_isDigit_append_gap (h : StartsWithGap rest) :
    (front ++ rest).takeWhile isDigit = front.takeWhile isDigit := by
  induction front with
  | nil =>
      cases rest with
      | nil => rfl
      | cons c cs => simp [(h.endsNumeral c rfl).1]
  | cons c cs ih => simp only [List.cons_append, List.takeWhile_cons, ih]

theorem readWhole?_append_gap (h : StartsWithGap rest) :
    Numeral.readWhole? (front ++ rest) = Numeral.readWhole? front := by
  have hdigits : (front ++ rest).takeWhile isDigit = front.takeWhile isDigit :=
    takeWhile_isDigit_append_gap h
  by_cases hzero : front.head? = some '0'
  · rcases List.head?_eq_some_iff.1 hzero with ⟨cs, rfl⟩
    rfl
  · have hzero' : (front ++ rest).head? ≠ some '0' :=
      h.head?_append_ne (by decide) rfl hzero
    rw [Numeral.readWhole?, Numeral.readWhole?, hdigits]
    · rintro cs rfl
      exact hzero rfl
    · intro cs heq
      exact hzero' (congrArg List.head? heq)

theorem readFraction?_append_gap (h : StartsWithGap rest) :
    Numeral.readFraction? (front ++ rest) = Numeral.readFraction? front := by
  by_cases hpoint : front.head? = some '.'
  · rcases List.head?_eq_some_iff.1 hpoint with ⟨cs, rfl⟩
    rw [List.cons_append, Numeral.readFraction?, Numeral.readFraction?,
      takeWhile_isDigit_append_gap h]
  · have hpoint' : (front ++ rest).head? ≠ some '.' :=
      h.head?_append_ne (by decide) rfl hpoint
    rw [Numeral.readFraction?, Numeral.readFraction?]
    · rintro cs rfl
      exact hpoint rfl
    · intro cs heq
      exact hpoint' (congrArg List.head? heq)

theorem splitSign_append_gap (h : StartsWithGap rest) :
    Exponent.splitSign (front ++ rest) =
      ((Exponent.splitSign front).1, (Exponent.splitSign front).2 ++ rest) := by
  -- a gap starts with no sign
  cases front with
  | nil =>
      have hplus := h.head?_ne (c := '+') (by decide) rfl
      have hminus := h.head?_ne (c := '-') (by decide) rfl
      rw [List.nil_append, Exponent.splitSign]
      · rfl
      · rintro cs rfl
        exact hplus rfl
      · rintro cs rfl
        exact hminus rfl
  | cons c cs =>
      rw [List.cons_append]
      unfold Exponent.splitSign
      split <;> simp_all

theorem readExponent?_append_gap (h : StartsWithGap rest) :
    Exponent.read? (front ++ rest) = Exponent.read? front := by
  cases front with
  | nil =>
      cases rest with
      | nil => rfl
      | cons c cs =>
          rcases h.endsNumeral c rfl with ⟨-, -, he, hE⟩
          simp [Exponent.read?, he, hE]
  | cons c cs =>
      simp only [List.cons_append, Exponent.read?, splitSign_append_gap h,
        takeWhile_isDigit_append_gap h]

theorem readMagnitude?_append_gap (h : StartsWithGap rest) (negative : Bool) :
    Numeral.readMagnitude? negative (front ++ rest) = Numeral.readMagnitude? negative front := by
  rw [Numeral.readMagnitude?, Numeral.readMagnitude?, readWhole?_append_gap h]
  cases hwhole : Numeral.readWhole? front with
  | none => rfl
  -- the digits in front are those of the front, so the fraction is cut where it was
  | some whole =>
      rcases (Numeral.of_readWhole? hwhole).2 with ⟨afterWhole, rfl⟩
      rcases (Numeral.of_readFraction? afterWhole).2 with ⟨afterFraction, hcut⟩
      have hdrop : (afterWhole ++ rest).drop
          (Numeral.fractionSpelling (Numeral.readFraction? afterWhole)).length =
            afterWhole.drop
              (Numeral.fractionSpelling (Numeral.readFraction? afterWhole)).length ++ rest := by
        apply List.drop_append_of_le_length
        conv => rhs; rw [hcut]
        simp
      simp only [Option.bind_eq_bind, Option.bind_some, List.append_assoc, List.drop_left,
        readFraction?_append_gap h, hdrop, readExponent?_append_gap h]

/-- A numeral never reaches over a gap. -/
theorem readNumeral?_append_gap (h : StartsWithGap rest) :
    Numeral.read? (front ++ rest) = Numeral.read? front := by
  by_cases hminus : front.head? = some '-'
  · rcases List.head?_eq_some_iff.1 hminus with ⟨cs, rfl⟩
    exact readMagnitude?_append_gap h true
  · have hminus' : (front ++ rest).head? ≠ some '-' :=
      h.head?_append_ne (by decide) rfl hminus
    rw [Numeral.read?, Numeral.read?, readMagnitude?_append_gap h]
    · rintro cs rfl
      exact hminus rfl
    · intro cs heq
      exact hminus' (congrArg List.head? heq)

theorem hasNoGap_literalWords : ∀ w ∈ literalWords, HasNoGap w.1 := by decide

/-- No word or numeral ever reaches over a gap. -/
theorem scanWord_append_gap (h : StartsWithGap rest) :
    scanWord (front ++ rest) = scanWord front := by
  have hfind : (literalWords.find? fun w => w.1.isPrefixOf (front ++ rest)) =
      literalWords.find? fun w => w.1.isPrefixOf front := by
    rw [← List.head?_filter, ← List.head?_filter,
      List.filter_congr fun w hw => (hasNoGap_literalWords w hw).isPrefixOf_append h]
  rw [scanWord, scanWord, hfind, readNumeral?_append_gap h]

end

/-! ## Lexemes -/

section

variable {gap : List Char} {next : Nat} {cs cs' : List Char}

/-- A text and an indented one start with the same part of a line, with a gap behind it. -/
theorem Indents.exists_front (h : Indents gap cs cs') :
    ∃ front rest rest', cs = front ++ rest ∧ cs' = front ++ rest' ∧ StartsWithGap rest ∧
      StartsWithGap rest' := by
  induction h with
  | nil n =>
      refine ⟨[], [], List.replicate n ' ', rfl, rfl, by simp [StartsWithGap], ?_⟩
      intro c hc
      exact .inl (List.eq_of_mem_replicate (List.mem_of_mem_head? hc))
  | @stay c cs cs' _ _ ih =>
      rcases ih with ⟨front, rest, rest', rfl, rfl, hrest, hrest'⟩
      exact ⟨c :: front, rest, rest', rfl, rfl, hrest, hrest'⟩
  -- a line end is itself the start of the gap
  | @lineEnd c cs cs' hend | @lastEnd c hend =>
      have hc : ∀ ds, StartsWithGap (c :: ds) := by
        intro ds d hd
        obtain rfl : c = d := Option.some.inj hd
        exact .inr (isNewline_of_anyBreak hend)
      exact ⟨[], _, _, rfl, rfl, hc _, hc _⟩

theorem isBlank_of_mem_spaces (n : Nat) : ∀ c ∈ List.replicate n ' ', isBlank c = true := by
  intro c hc
  rw [List.eq_of_mem_replicate hc]
  rfl

theorem isBlank_of_isNewline {c : Char} (h : isNewline c = true) : isBlank c = true := by
  simp only [isNewline, Bool.or_eq_true, decide_eq_true_eq] at h
  rcases h with rfl | rfl
  · rfl
  · rfl

/-- What holds of no newline character tells that a character is none. -/
theorem isNewline_eq_false_of (P : Char → Prop) (hfeed : ¬ P '\n') (hreturn : ¬ P '\r') {c : Char}
    (h : P c) : isNewline c = false := by
  cases hc : isNewline c with
  | false => rfl
  | true =>
      simp only [isNewline, Bool.or_eq_true, decide_eq_true_eq] at hc
      rcases hc with rfl | rfl
      · exact absurd h hfeed
      · exact absurd h hreturn

/-- A string has no line ends in it. -/
theorem IsStringBody.isNewline_eq_false {body : List Char} (h : IsStringBody body) :
    ∀ c ∈ body, isNewline c = false := by
  induction h with
  | nil => exact List.forall_mem_nil _
  -- control characters do not stand in strings, and escapes are made of letters and digits
  | @plain c cs hcontrol _ _ _ ih =>
      have hc := isNewline_eq_false_of (0x20 ≤ ·.toNat) (by decide) (by decide) hcontrol
      exact List.forall_mem_cons.2 ⟨hc, ih⟩
  | @short c cs hc _ ih =>
      have hletters : ∀ d ∈ ['"', '\\', '/', 'b', 'f', 'n', 'r', 't'], isNewline d = false := by
        simp [isNewline]
      exact List.forall_mem_cons.2 ⟨rfl, List.forall_mem_cons.2 ⟨hletters c hc, ih⟩⟩
  | @unicode a b c d cs hdigits _ ih =>
      have hhex : ∀ x ∈ [a, b, c, d], isNewline x = false := fun x hx =>
        isNewline_eq_false_of IsHexDigit (by decide) (by decide) (hdigits x hx)
      have hescape : ∀ x ∈ ['\\', 'u'], isNewline x = false := by simp [isNewline]
      have hrest := List.forall_mem_append.2 ⟨hhex, ih⟩
      exact List.forall_mem_append.2 ⟨hescape, hrest⟩

/-- A token has no line ends in it. -/
theorem Token.IsSpelled.isNewline_eq_false {token : Token} {s : List Char}
    (h : token.IsSpelled s) : ∀ c ∈ s, isNewline c = false := by
  cases h with
  | openObject | closeObject | openArray | closeArray | colon | comma => simp [isNewline]
  | @word w hw => exact fun c hc => (hasNoGap_literalWords w hw c hc).2
  | string hbody =>
      exact List.forall_mem_cons.2 ⟨rfl,
        List.forall_mem_append.2 ⟨hbody.isNewline_eq_false, by simp [isNewline]⟩⟩
  | number hn =>
      exact fun c hc => isNewline_eq_false_of (isNumeralChar · = true) (by decide) (by decide)
        (hn.isNumeralChar c hc)

/-- What is read as a string in a text or in an indented one is the same in both, wherever it
stands. -/
theorem Indents.scanString_iff {opening opening' : Nat} {r : Text × Nat}
    (h : Indents gap cs cs') :
    scanString opening (opening + 1) cs = .ok r ↔
      scanString opening' (opening' + 1) cs' = .ok r := by
  -- in both it is the same body, with a quote behind it
  have hsame : ∀ {body rest rest' : List Char} {i j : Nat}, IsStringBody body →
      scanString i (i + 1) (body ++ '"' :: rest) = .ok r →
      scanString j (j + 1) (body ++ '"' :: rest') = .ok r := by
    intro body rest rest' i j hbody hr
    rcases hbody.exists_scanString with ⟨t, ht⟩
    have hlen : j + 1 + body.length - j = i + 1 + body.length - i := by omega
    rw [ht] at hr
    rw [ht, hlen, hr]
  constructor
  · intro hr
    rcases exists_body_of_scanString hr (Nat.le_succ _) with ⟨body, rest, rfl, hbody, -⟩
    have hfront : ∀ c ∈ body ++ ['"'], isNewline c = false :=
      List.forall_mem_append.2 ⟨hbody.isNewline_eq_false, by simp [isNewline]⟩
    rw [List.append_cons] at h
    rcases h.of_append_left hfront with ⟨rest', rfl, -⟩
    rw [← List.append_cons]
    exact hsame hbody hr
  · intro hr
    rcases exists_body_of_scanString hr (Nat.le_succ _) with ⟨body, rest', rfl, hbody, -⟩
    rcases h.of_append_right hbody.isNewline_eq_false rfl (by decide) with ⟨rest, rfl, -⟩
    exact hsame hbody hr

/-- A token that is whole in a text or in an indented one is the same in both. -/
theorem Indents.scanToken_eq {offset offset' : Nat} {c : Char} (h : Indents gap cs cs')
    (hc : isNewline c = false) (hwhole : (scanToken offset c cs).1.isBroken = false ∨
      (scanToken offset' c cs').1.isBroken = false) :
    scanToken offset' c cs' = scanToken offset c cs := by
  by_cases hmark : c ∈ tokenMarks
  · rcases List.mem_cons.1 hmark with rfl | hsingle
    · -- a string that is whole on either side is read in the same way on the other one
      have hstring : ∀ r, scanString offset (offset + 1) cs = .ok r ↔
          scanString offset' (offset' + 1) cs' = .ok r := fun r => h.scanString_iff
      rcases hwhole with hwhole | hwhole
      · cases hscan : scanString offset (offset + 1) cs with
        | error fault => simp [scanToken, hscan, Token.isBroken] at hwhole
        | ok r => simp only [scanToken, hscan, (hstring r).1 hscan]
      · cases hscan : scanString offset' (offset' + 1) cs' with
        | error fault => simp [scanToken, hscan, Token.isBroken] at hwhole
        | ok r => simp only [scanToken, hscan, (hstring r).2 hscan]
    · rcases exists_scanToken_single hsingle with ⟨token, htoken⟩
      rw [htoken, htoken]
  · -- a word ends at the next gap, and there is one in both texts
    have hcons : Indents gap (c :: cs) (c :: cs') := .stay (anyBreak_eq_false hc cs) h
    rcases hcons.exists_front with ⟨front, rest, rest', heq, heq', hrest, hrest'⟩
    rw [scanToken_word hmark, scanToken_word hmark, heq, heq', scanWord_append_gap hrest,
      scanWord_append_gap hrest']

/-- A token that is whole in a text or in an indented one is followed by a text and an indented
one. -/
theorem Indents.exists_behind_token {offset offset' : Nat} {c : Char} (h : Indents gap cs cs')
    (hc : isNewline c = false) (hwhole : (scanToken offset c cs).1.isBroken = false ∨
      (scanToken offset' c cs').1.isBroken = false) :
    ∃ token s rest rest', (∀ d ∈ c :: s, isNewline d = false) ∧ token.isBroken = false ∧
      cs = s ++ rest ∧ cs' = s ++ rest' ∧ Indents gap rest rest' ∧
      scanToken offset c cs = (token, s.length + 1) ∧
      scanToken offset' c cs' = (token, s.length + 1) := by
  have hsame := h.scanToken_eq hc hwhole
  -- whichever side is whole, so is the other
  have hwhole' : (scanToken offset c cs).1.isBroken = false := by
    rcases hwhole with hwhole | hwhole
    · exact hwhole
    · rwa [hsame] at hwhole
  -- the token has a spelling without line ends, which therefore stands in both texts
  rcases exists_isSpelled_of_scanToken hwhole' with ⟨spelling, rest, hsplit, hlen, hspelled⟩
  cases spelling with
  | nil =>
      have hpos := one_le_scanToken offset c cs
      rw [hlen] at hpos
      cases hpos
  | cons d s =>
      obtain ⟨rfl, rfl⟩ := List.cons.inj hsplit
      have hline := hspelled.isNewline_eq_false
      rcases h.of_append_left fun e he => hline e (.tail c he) with ⟨rest', rfl, hrest⟩
      have hscan : scanToken offset c (s ++ rest) =
          ((scanToken offset c (s ++ rest)).1, s.length + 1) := Prod.ext rfl hlen
      exact ⟨_, s, rest, rest', hline, hwhole', rfl, rfl, hrest, hscan, hsame.trans hscan⟩

/-- The lexemes of a text and of an indented one are the same, and start where the characters of the
text stand, if those of one of them are whole. -/
theorem Indents.lexemesFrom_eq {f : Nat → Nat} {offset offset' : Nat}
    (h : Indents (List.replicate next ' ') cs cs')
    (hf : ∀ i, f (offset + i) = offset' + indentedOffset next cs i)
    (hwhole : (∀ l ∈ lexemesFrom 0 offset cs, l.token.isBroken = false) ∨
      ∀ l ∈ lexemesFrom 0 offset' cs', l.token.isBroken = false) :
    lexemesFrom 0 offset' cs' = (lexemesFrom 0 offset cs).map (Lexeme.mapStart f) := by
  -- the induction is on the text, as a step may pass over many characters
  induction hn : cs.length using Nat.strongRecOn generalizing offset offset' cs cs' with
  | _ n ih =>
      subst hn
      cases h with
      | nil n =>
          have hnone := lexemesFrom_blank (isBlank_of_mem_spaces n) offset' []
          rw [List.append_nil] at hnone
          rw [hnone]
          rfl
      | @lastEnd c hend =>
          have hc := isBlank_of_isNewline (isNewline_of_anyBreak hend)
          rw [lexemesFrom_cons_blank hc, lexemesFrom_cons_blank hc]
          rfl
      | @lineEnd c cs cs' hend hrest =>
          have hc := isBlank_of_isNewline (isNewline_of_anyBreak hend)
          rw [lexemesFrom_cons_blank hc, lexemesFrom_cons_blank hc,
            lexemesFrom_blank (isBlank_of_mem_spaces next)] at hwhole ⊢
          refine ih cs.length (Nat.lt_succ_self _) hrest ?_ hwhole rfl
          intro i
          have hi := hf (i + 1)
          rw [indentedOffset, if_pos hend] at hi
          rw [List.length_replicate, Nat.add_assoc, Nat.add_comm 1, hi]
          omega
      | @stay c cs cs' hstay hrest =>
          cases hc : isBlank c with
          | true =>
              rw [lexemesFrom_cons_blank hc, lexemesFrom_cons_blank hc] at hwhole ⊢
              refine ih cs.length (Nat.lt_succ_self _) hrest ?_ hwhole rfl
              intro i
              have hi := hf (i + 1)
              rw [indentedOffset, hstay, if_neg Bool.false_ne_true] at hi
              rw [Nat.add_assoc, Nat.add_comm 1, hi]
              omega
          | false =>
              have hnewline :=
                isNewline_eq_false_of (isBlank · = false) (by decide) (by decide) hc
              rw [lexemesFrom_cons hc, lexemesFrom_cons hc] at hwhole ⊢
              have hhead : (scanToken offset c cs).1.isBroken = false ∨
                  (scanToken offset' c cs').1.isBroken = false :=
                hwhole.imp (fun h => h _ (List.mem_cons_self ..))
                  fun h => h _ (List.mem_cons_self ..)
              rcases hrest.exists_behind_token hnewline hhead with
                ⟨token, s, rest, rest', hline, htoken, rfl, rfl, hbehind, hscan, hscan'⟩
              have hstart : f offset = offset' := by simpa using hf 0
              simp only [hscan, hscan', htoken, Bool.false_eq_true, if_false,
                Nat.add_sub_cancel, List.drop_left, List.map_cons, Lexeme.mapStart,
                hstart] at hwhole ⊢
              refine congrArg (_ :: ·) (ih rest.length ?_ hbehind ?_ ?_ rfl)
              · simp only [List.length_cons, List.length_append]
                omega
              · intro i
                have hi := hf (s.length + 1 + i)
                have happend := indentedOffset_append next hline rest i
                rw [List.cons_append, List.length_cons] at happend
                rw [Nat.add_assoc, hi, happend]
                omega
              · exact hwhole.imp (fun h l hl => h l (.tail _ hl)) fun h l hl => h l (.tail _ hl)

end

/-! ## Decoding -/

/-- Spaces in front of the lines do not change the lexemes of a text, if it has only whole ones with
or without them. -/
theorem lexemes_indent {m : Indent} {text text' : List Char} (h : m.Applies text text')
    (hwhole : (∀ l ∈ lexemes text, l.token.isBroken = false) ∨
      ∀ l ∈ lexemes text', l.token.isBroken = false) :
    lexemes text' = (lexemes text).map (Lexeme.mapStart (m.offset text)) := by
  rcases h with ⟨body, hbody, rfl⟩
  have hbehind : lexemes (List.replicate m.first ' ' ++ body) = lexemesFrom 0 m.first body := by
    rw [lexemes, lexemesFrom_blank (isBlank_of_mem_spaces _), List.length_replicate, Nat.zero_add]
  rw [hbehind] at hwhole ⊢
  refine hbody.lexemesFrom_eq ?_ hwhole
  intro i
  rw [Nat.zero_add]
  rfl

/-- An indented text decodes if the text does, to the same tree with every node where it stands in
the indented text. -/
theorem decodeJson_indent_iff {m : Indent} {room : Nat} {text text' : List Char}
    (h : m.Applies text text') {root' : LocatedTree} :
    decodeJson room text' = .ok root' ↔
      ∃ root, decodeJson room text = .ok root ∧ root' = root.mapMark m.place := by
  have hforward : ∀ root, decodeJson room text = .ok root →
      decodeJson room text' = .ok (root.mapMark m.place) := by
    intro root hroot
    rcases decodeJson_eq_ok_iff.1 hroot with ⟨tree, meaning, hspells, hcalls, hmeans, rfl⟩
    refine decodeJson_eq_ok_iff.2 ⟨tree.mapMark (m.offset text), meaning.mapMark (m.offset text),
      ?_, ?_, ?_, ?_⟩
    · rw [lexemes_indent h (.inl hspells.isBroken_eq_false)]
      exact hspells.mapMark _
    · rw [Tree.calls_mapMark]
      exact hcalls
    · rw [Tree.meaning?_mapMark, hmeans]
      rfl
    · rw [locate_eq_mapMark, locate_eq_mapMark, Tree.mapMark_mapMark, Tree.mapMark_mapMark]
      apply Tree.mapMark_congr
      intro u hu
      exact (h.placeAt_eq (mark_lt_of_meaning? hspells hmeans hu)).symm
  constructor
  · intro hroot'
    rcases decodeJson_eq_ok_iff.1 hroot' with ⟨tree, meaning, hspells, hcalls, hmeans, -⟩
    -- every offset in the indented text is that of one character of the text, and leads back to it
    have hinj : Function.Injective (m.offset text) := fun i j => m.offset_injective text
    rcases hinj.hasLeftInverse with ⟨back, hback⟩
    have hlex : lexemes text = (lexemes text').map (Lexeme.mapStart back) := by
      have hid : Lexeme.mapStart back ∘ Lexeme.mapStart (m.offset text) = id := by
        funext l
        exact congrArg (Lexeme.mk · l.token) (hback l.start)
      rw [lexemes_indent h (.inr hspells.isBroken_eq_false), List.map_map, hid, List.map_id]
    have hroot : decodeJson room text = .ok (locate text (meaning.mapMark back)) := by
      refine decodeJson_eq_ok_iff.2 ⟨tree.mapMark back, _, ?_, ?_, ?_, rfl⟩
      · rw [hlex]
        exact hspells.mapMark _
      · rw [Tree.calls_mapMark]
        exact hcalls
      · rw [Tree.meaning?_mapMark, hmeans]
        rfl
    refine ⟨_, hroot, ?_⟩
    exact Except.ok.inj (hroot'.symm.trans (hforward _ hroot))
  · rintro ⟨root, hroot, rfl⟩
    exact hforward root hroot

end ComponentMarkup
