import ComponentMarkup.Proofs.Json.Decode
import ComponentMarkup.Proofs.Json.Spelling

/-!
# Renderings

A rendering of a value is any text that JSON has for it: white space may stand between all tokens,
and each literal may be spelled in any way that stands for it. The grammar of renderings relates
characters to trees; it knows neither lexemes nor the reader. We show:

* `IsRendering.isSpelled`: a rendering is cut into lexemes that spell its value;
* `IsRendering.readSpelled_eq`: it is read back as the value that it renders, every node with the
  offset at which it stands.
-/

namespace ComponentMarkup

/-! ## White space and marks -/

/-- Nothing but white space. -/
def IsBlankText (cs : List Char) : Prop := ∀ c ∈ cs, isBlank c = true

theorem isBlankText_nil : IsBlankText [] := by simp [IsBlankText]

/-- The characters of a token that is always spelled by the same one. -/
def Token.mark? : Token → Option Char
  | openObject => some '\x7b'
  | closeObject => some '\x7d'
  | openArray => some '['
  | closeArray => some ']'
  | colon => some ':'
  | comma => some ','
  | _ => none

/-- No numeral goes on with white space or with what follows white space. -/
theorem EndsNumeral.of_blank {blanks rest : List Char} (h : IsBlankText blanks)
    (hrest : EndsNumeral rest) : EndsNumeral (blanks ++ rest) := by
  cases blanks with
  | nil => exact hrest
  | cons b bs =>
      intro c hc
      obtain rfl : b = c := by simpa using hc
      have hb := h b (List.mem_cons_self ..)
      simp only [isBlank, Bool.or_eq_true, decide_eq_true_eq] at hb
      rcases hb with ((rfl | rfl) | rfl) | rfl <;> simp [isDigit]

theorem endsNumeral_cons {c : Char} (hc : c ∈ [',', ']', '\x7d']) (rest : List Char) :
    EndsNumeral (c :: rest) := by
  intro d hd
  obtain rfl : c = d := by simpa using hd
  simp only [List.mem_cons, List.not_mem_nil, or_false] at hc
  rcases hc with rfl | rfl | rfl <;> simp [isDigit]

/-- A token that is always spelled by the same character is cut off as one lexeme. -/
theorem lexemesFrom_mark (token : Token) {c : Char} (hmark : token.mark? = some c) (offset : Nat)
    (rest : List Char) :
    lexemesFrom 0 offset (c :: rest) = ⟨offset, token⟩ :: lexemesFrom 0 (offset + 1) rest := by
  cases token
  all_goals cases hmark
  all_goals exact lexemesFrom_cons rfl ..

/-- A bracket or brace in front of what it opens is cut off as one lexeme. -/
theorem lexemesFrom_enclosed (token : Token) {c close : Char} (hmark : token.mark? = some c)
    (offset : Nat) (inner rest : List Char) :
    lexemesFrom 0 offset (c :: (inner ++ [close]) ++ rest) =
      ⟨offset, token⟩ :: lexemesFrom 0 (offset + 1) (inner ++ close :: rest) := by
  rw [List.cons_append, List.append_assoc, List.singleton_append, lexemesFrom_mark token hmark]

theorem stop_enclosed (offset : Nat) (c close : Char) (inner : List Char) :
    offset + (c :: (inner ++ [close])).length = offset + 1 + inner.length + 1 := by
  simp only [List.length_cons, List.length_append, List.length_nil]
  omega

/-! ## Literals -/

/-- This number is no integer with too many digits. -/
def Numeral.IsWithinLimit (n : Numeral) : Prop :=
  n.isInteger = true → n.whole.length ≤ integerDigitLimit

theorem Numeral.isWithinLimit_iff {n : Numeral} :
    n.IsWithinLimit ↔ numeralToken n = .literal (.number n) := by
  constructor
  · intro hdigits
    rw [numeralToken, if_neg]
    rintro ⟨hinteger, hmany⟩
    exact absurd (hdigits hinteger) (Nat.not_le.2 hmany)
  · intro htoken hinteger
    apply Nat.le_of_not_lt
    intro hmany
    rw [numeralToken, if_pos ⟨hinteger, hmany⟩] at htoken
    cases htoken

/-- These characters spell a literal. -/
inductive Literal.IsSpelled : Literal → List Char → Prop where
  | word {w} (hw : w ∈ literalWords) : IsSpelled w.2 w.1
  | string {t : Text} {body} (ht : t.IsSpelled body) :
      IsSpelled (.string t) ('"' :: (body ++ ['"']))
  | number {n : Numeral} (hn : n.WellFormed) (hlimit : n.IsWithinLimit) :
      IsSpelled (.number n) n.spelling

/-- What spells a literal is cut off as one lexeme. -/
theorem Literal.IsSpelled.lexemesFrom_eq {value : Literal} {cs rest : List Char}
    (h : value.IsSpelled cs) (hends : EndsNumeral rest) (offset : Nat) :
    lexemesFrom 0 offset (cs ++ rest) =
      ⟨offset, .literal value⟩ :: lexemesFrom 0 (offset + cs.length) rest := by
  cases h with
  | word hw => exact lexemesFrom_word hw offset rest
  | string ht => exact lexemesFrom_string ht offset rest
  | number hn hlimit =>
      exact lexemesFrom_numeral hn (Numeral.isWithinLimit_iff.1 hlimit) hends offset

/-! ## The grammar -/

/-- What a part of a rendering renders. -/
inductive Content where
  /-- A value. -/
  | value (tree : SpelledTree)
  /-- A value with the white space around it. -/
  | padded (tree : SpelledTree)
  /-- The elements of an array that has some, between its brackets. -/
  | elements (trees : List SpelledTree)
  /-- The members of an object that has some, between its braces. -/
  | members (list : List (Text × SpelledTree))

/-- These characters are the name of a member with the white space around it. -/
def Text.IsName (name : Text) (cs : List Char) : Prop :=
  ∃ before body after, cs = before ++ '"' :: (body ++ '"' :: after) ∧ IsBlankText before ∧
    name.IsSpelled body ∧ IsBlankText after

section

variable (literals : Literal → Prop)

/-- From an offset on these characters render a part of a document with containers at most `room`
deep, the literals of which have some property. The mark of a node is the offset at which it
stands. -/
inductive IsRendering : Nat → Nat → Content → List Char → Prop where
  | leaf {room offset value cs} :
      literals value → value.IsSpelled cs → IsRendering room offset (.value (.leaf offset value)) cs
  | emptyArray {room offset blanks} :
      IsBlankText blanks →
      IsRendering (room + 1) offset (.value (.array offset [])) ('[' :: (blanks ++ [']']))
  | array {room offset trees cs} :
      IsRendering room (offset + 1) (.elements trees) cs →
      IsRendering (room + 1) offset (.value (.array offset trees)) ('[' :: (cs ++ [']']))
  | emptyObject {room offset blanks} :
      IsBlankText blanks →
      IsRendering (room + 1) offset (.value (.object offset []))
        ('\x7b' :: (blanks ++ ['\x7d']))
  | object {room offset list cs} :
      IsRendering room (offset + 1) (.members list) cs →
      IsRendering (room + 1) offset (.value (.object offset list)) ('\x7b' :: (cs ++ ['\x7d']))
  | padded {room offset tree before cs after} :
      IsBlankText before → IsRendering room (offset + before.length) (.value tree) cs →
      IsBlankText after → IsRendering room offset (.padded tree) (before ++ (cs ++ after))
  | lastElement {room offset tree cs} :
      IsRendering room offset (.padded tree) cs → IsRendering room offset (.elements [tree]) cs
  | nextElement {room offset tree trees cs more} :
      IsRendering room offset (.padded tree) cs →
      IsRendering room (offset + cs.length + 1) (.elements trees) more →
      IsRendering room offset (.elements (tree :: trees)) (cs ++ ',' :: more)
  | lastMember {room offset name tree key cs} :
      Text.IsName name key → IsRendering room (offset + key.length + 1) (.padded tree) cs →
      IsRendering room offset (.members [(name, tree)]) (key ++ ':' :: cs)
  | nextMember {room offset name tree list key cs more} :
      Text.IsName name key → IsRendering room (offset + key.length + 1) (.padded tree) cs →
      IsRendering room (offset + key.length + 1 + cs.length + 1) (.members list) more →
      IsRendering room offset (.members ((name, tree) :: list)) (key ++ ':' :: (cs ++ ',' :: more))

end

/-- This literal is one of those that a part of a rendering renders. -/
def Content.HasLeaf (literal : Literal) : Content → Prop
  | value tree | padded tree => tree.HasLeaf literal
  | elements trees => ∃ t ∈ trees, t.HasLeaf literal
  | members list => ∃ m ∈ list, m.2.HasLeaf literal

/-- All literals of a rendering have its property. -/
theorem IsRendering.of_hasLeaf {literals : Literal → Prop} {room offset : Nat} {content : Content}
    {cs : List Char} (h : IsRendering literals room offset content cs) {literal : Literal}
    (hleaf : content.HasLeaf literal) : literals literal := by
  -- induction on the rendering: a leaf carries its literal, every other rule passes the leaf on to
  -- a premise
  induction h with
  | leaf hvalue _ =>
      obtain rfl := Tree.hasLeaf_leaf.1 hleaf
      exact hvalue
  | emptyArray | emptyObject => simp [Content.HasLeaf] at hleaf
  | array _ ih => exact ih (Tree.hasLeaf_array.1 hleaf)
  | object _ ih => exact ih (Tree.hasLeaf_object.1 hleaf)
  | padded _ _ _ ih => exact ih hleaf
  | lastElement _ ih | lastMember _ _ ih =>
      -- a list of one: the leaf is in that element
      rcases hleaf with ⟨t, ht, hleaf⟩
      obtain rfl := List.mem_singleton.1 ht
      exact ih hleaf
  | nextElement _ _ ih ihmore | nextMember _ _ _ ih ihmore =>
      rcases hleaf with ⟨t, ht, hleaf⟩
      -- the leaf is in the first element or in one of the others
      rcases List.mem_cons.1 ht with rfl | ht
      · exact ih hleaf
      · exact ihmore ⟨t, ht, hleaf⟩

theorem IsRendering.mono {literals literals' : Literal → Prop} {room offset : Nat}
    {content : Content} {cs : List Char}
    (hmono : ∀ literal, literals literal → literals' literal)
    (h : IsRendering literals room offset content cs) :
    IsRendering literals' room offset content cs := by
  -- only leaves speak of the literals; the other rules are rebuilt from their premises
  induction h with
  | leaf hvalue hspelled => exact .leaf (hmono _ hvalue) hspelled
  | emptyArray hblanks => exact .emptyArray hblanks
  | array _ ih => exact .array ih
  | emptyObject hblanks => exact .emptyObject hblanks
  | object _ ih => exact .object ih
  | padded hbefore _ hafter ih => exact .padded hbefore ih hafter
  | lastElement _ ih => exact .lastElement ih
  | nextElement _ _ ih ihmore => exact .nextElement ih ihmore
  | lastMember hname _ ih => exact .lastMember hname ih
  | nextMember hname _ _ ih ihmore => exact .nextMember hname ih ihmore

/-! ## A rendering is spelled -/

/-- The characters of a part of a rendering are cut into lexemes that spell it, and `rest` into
lexemes of its own. -/
def Content.IsSpelled (room offset : Nat) (cs rest : List Char) : Content → Prop
  | value tree | padded tree => EndsNumeral rest → ∃ ls,
      lexemesFrom 0 offset (cs ++ rest) = ls ++ lexemesFrom 0 (offset + cs.length) rest ∧
        Spells room ls (.value tree)
  | elements trees => ∃ ls,
      lexemesFrom 0 offset (cs ++ ']' :: rest) =
        ls ++ lexemesFrom 0 (offset + cs.length + 1) rest ∧
        Spells room ls (.items trees)
  | members list => ∃ nameAt colonAt name tree more ls, list = (name, tree) :: more ∧
      lexemesFrom 0 offset (cs ++ '\x7d' :: rest) =
        ⟨nameAt, .literal (.string name)⟩ :: ⟨colonAt, .colon⟩ ::
          (ls ++ lexemesFrom 0 (offset + cs.length + 1) rest) ∧
        Spells room ls (.members list)

/-- The name of a member and the colon behind it are two lexemes. -/
theorem Text.IsName.exists_lexemesFrom {name : Text} {key : List Char} (h : name.IsName key)
    (offset : Nat) (rest : List Char) :
    ∃ nameAt colonAt, lexemesFrom 0 offset (key ++ ':' :: rest) =
      ⟨nameAt, .literal (.string name)⟩ :: ⟨colonAt, .colon⟩ ::
        lexemesFrom 0 (offset + key.length + 1) rest := by
  rcases h with ⟨before, body, after, rfl, hbefore, hbody, hafter⟩
  -- bracket the text as the lexer meets it: blanks, the quoted name, blanks, the colon
  have hsplit : before ++ '"' :: (body ++ '"' :: after) ++ ':' :: rest =
      before ++ ('"' :: (body ++ ['"']) ++ (after ++ ':' :: rest)) := by simp
  have hstop : offset + before.length + ((body ++ ['"']).length + 1) + after.length + 1 =
      offset + (before ++ '"' :: (body ++ '"' :: after)).length + 1 := by
    simp only [List.length_append, List.length_cons, List.length_nil]
    omega
  rw [hsplit, lexemesFrom_blank hbefore, lexemesFrom_string hbody, lexemesFrom_blank hafter,
    lexemesFrom_mark .colon rfl, hstop]
  exact ⟨_, _, rfl⟩

/-- A value with the white space around it is cut into lexemes in front of a token that goes on
behind a value. -/
theorem exists_lexemesFrom_padded {room offset : Nat} {tree : SpelledTree} {cs rest : List Char}
    {c : Char} (token : Token) (h : (Content.padded tree).IsSpelled room offset cs (c :: rest))
    (hmark : token.mark? = some c) (hends : c ∈ [',', ']', '\x7d']) :
    ∃ ls start,
      lexemesFrom 0 offset (cs ++ c :: rest) =
        ls ++ ⟨start, token⟩ :: lexemesFrom 0 (offset + cs.length + 1) rest ∧
        Spells room ls (.value tree) := by
  rcases h (endsNumeral_cons hends rest) with ⟨ls, hcut, hspells⟩
  rw [lexemesFrom_mark token hmark] at hcut
  exact ⟨ls, _, hcut, hspells⟩

/-- The lexemes of a part of a rendering spell what it renders. -/
theorem IsRendering.isSpelled {literals : Literal → Prop} {room offset : Nat} {content : Content}
    {cs : List Char} (h : IsRendering literals room offset content cs) (rest : List Char) :
    content.IsSpelled room offset cs rest := by
  -- what follows matters only to a numeral, and in a container it is a mark, which ends one
  induction h generalizing rest with
  | leaf _ hvalue =>
      intro hends
      exact ⟨[_], hvalue.lexemesFrom_eq hends _, .leaf⟩
  | @emptyArray room offset blanks hblanks =>
      intro _
      refine ⟨[⟨offset, .openArray⟩, ⟨offset + 1 + blanks.length, .closeArray⟩], ?_, .emptyArray⟩
      rw [lexemesFrom_enclosed .openArray rfl, stop_enclosed, lexemesFrom_blank hblanks,
        lexemesFrom_mark .closeArray rfl]
      rfl
  | @array room offset trees cs _ ih =>
      intro _
      rcases ih rest with ⟨ls, hcut, hspells⟩
      refine ⟨⟨offset, .openArray⟩ :: ls, ?_, .array hspells⟩
      rw [lexemesFrom_enclosed .openArray rfl, stop_enclosed, hcut]
      rfl
  | @emptyObject room offset blanks hblanks =>
      intro _
      refine ⟨[⟨offset, .openObject⟩, ⟨offset + 1 + blanks.length, .closeObject⟩], ?_, .emptyObject⟩
      rw [lexemesFrom_enclosed .openObject rfl, stop_enclosed, lexemesFrom_blank hblanks,
        lexemesFrom_mark .closeObject rfl]
      rfl
  | @object room offset list cs _ ih =>
      intro _
      rcases ih rest with ⟨nameAt, colonAt, name, tree, more, ls, rfl, hcut, hspells⟩
      refine ⟨⟨offset, .openObject⟩ :: ⟨nameAt, .literal (.string name)⟩ :: ⟨colonAt, .colon⟩ :: ls,
        ?_, .object hspells⟩
      rw [lexemesFrom_enclosed .openObject rfl, stop_enclosed, hcut]
      rfl
  | @padded room offset tree before cs after hbefore _ hafter ih =>
      intro hends
      rcases ih (after ++ rest) (hends.of_blank hafter) with ⟨ls, hcut, hspells⟩
      have hstop : offset + before.length + cs.length + after.length =
          offset + (before ++ (cs ++ after)).length := by
        simp only [List.length_append]
        omega
      refine ⟨ls, ?_, hspells⟩
      rw [List.append_assoc, lexemesFrom_blank hbefore, List.append_assoc, hcut,
        lexemesFrom_blank hafter, hstop]
  | lastElement _ ih =>
      rcases exists_lexemesFrom_padded .closeArray (ih _) rfl (by simp) with
        ⟨ls, last, hcut, hspells⟩
      exact ⟨ls ++ [⟨last, .closeArray⟩], by simpa using hcut, .lastItem hspells⟩
  | @nextElement room offset tree trees cs more _ _ ih ihmore =>
      rcases exists_lexemesFrom_padded .comma (ih _) rfl (by simp) with
        ⟨ls, commaAt, hcut, hspells⟩
      rcases ihmore rest with ⟨others, hmore, hspells'⟩
      have hstop : offset + cs.length + 1 + more.length + 1 =
          offset + (cs ++ ',' :: more).length + 1 := by
        simp only [List.length_append, List.length_cons]
        omega
      refine ⟨ls ++ ⟨commaAt, .comma⟩ :: others, ?_, .nextItem hspells hspells'⟩
      rw [List.append_assoc, List.cons_append, hcut, hmore, hstop]
      simp
  | @lastMember room offset name tree key cs hname _ ih =>
      rcases hname.exists_lexemesFrom offset (cs ++ '\x7d' :: rest) with ⟨nameAt, colonAt, hkey⟩
      rcases exists_lexemesFrom_padded .closeObject (ih _) rfl (by simp) with
        ⟨ls, last, hcut, hspells⟩
      have hstop : offset + key.length + 1 + cs.length + 1 =
          offset + (key ++ ':' :: cs).length + 1 := by
        simp only [List.length_append, List.length_cons]
        omega
      refine ⟨nameAt, colonAt, name, tree, [], ls ++ [⟨last, .closeObject⟩], rfl, ?_,
        .lastMember hspells⟩
      rw [List.append_assoc, List.cons_append, hkey, hcut, hstop]
      simp
  | @nextMember room offset name tree list key cs more hname _ _ ih ihmore =>
      rcases hname.exists_lexemesFrom offset (cs ++ ',' :: (more ++ '\x7d' :: rest)) with
        ⟨nameAt, colonAt, hkey⟩
      rcases exists_lexemesFrom_padded .comma (ih _) rfl (by simp) with
        ⟨ls, commaAt, hcut, hspells⟩
      rcases ihmore rest with
        ⟨nextAt, colonAt', next, nextTree, others, lexemes, rfl, hmore, hspells'⟩
      have hstop : offset + key.length + 1 + cs.length + 1 + more.length + 1 =
          offset + (key ++ ':' :: (cs ++ ',' :: more)).length + 1 := by
        simp only [List.length_append, List.length_cons]
        omega
      refine ⟨nameAt, colonAt, name, tree, _,
        ls ++ ⟨commaAt, .comma⟩ :: ⟨nextAt, .literal (.string next)⟩ :: ⟨colonAt', .colon⟩ ::
          lexemes, rfl, ?_, .nextMember hspells hspells'⟩
      rw [List.append_assoc, List.cons_append, List.append_assoc, List.cons_append, hkey, hcut,
        hmore, hstop]
      simp

/-- A rendering is read back as the value that it renders. -/
theorem IsRendering.readSpelled_eq {literals : Literal → Prop} {levels : Nat} {tree : SpelledTree}
    {text : List Char} (h : IsRendering literals levels 0 (.padded tree) text) :
    readSpelled levels text = .ok tree := by
  have hends : EndsNumeral [] := by simp [EndsNumeral]
  rcases h.isSpelled [] hends with ⟨ls, hcut, hspells⟩
  have hlex : lexemes text = ls := by simpa [lexemes, lexemesFrom] using hcut
  rw [readSpelled_eq_ok_iff, hlex]
  exact hspells

end ComponentMarkup
