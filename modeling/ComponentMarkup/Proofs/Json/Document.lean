import ComponentMarkup.Proofs.Fragment
import ComponentMarkup.Proofs.Json.Rendering

/-!
# JSON documents

The grammar of JSON on characters, and which of its documents are decoded. The grammar says nothing
of lexemes or of trees; its strings and numbers are parameters, so that it also describes documents
whose strings or numbers are restricted. We show:

* `Spells.isWritten`: a text whose lexemes spell a value is a document;
* `IsJson.isRendered`: a document is a rendering of some value;
* `exists_decodeJson_iff`: a text is decoded if and only if it is a document within the limits, none
  of its exponents has a plus sign, and the value that it renders does not take too many calls.
-/

namespace ComponentMarkup

open ComponentMarkup.Tree (mapLeaves?)

/-! ## The grammar -/

/-- The parts of a document. -/
inductive JsonPart where
  /-- A value. -/
  | value
  /-- A value with the white space around it. -/
  | padded
  /-- The elements of an array that has some, between its brackets. -/
  | elements
  /-- The members of an object that has some, between its braces. -/
  | members

section

variable (strings : List Char → Prop) (numbers : Numeral → Prop)

/-- The name of a member with the white space around it. -/
def IsMemberName (cs : List Char) : Prop :=
  ∃ before body after, cs = before ++ '"' :: (body ++ '"' :: after) ∧ IsBlankText before ∧
    strings body ∧ IsBlankText after

/-- These characters are a part of a document with containers at most `room` deep, the strings and
the numbers of which have some property. -/
inductive IsJson : Nat → JsonPart → List Char → Prop where
  | word {room word} : word ∈ ["null", "true", "false"] → IsJson room .value word.toList
  | string {room body} : strings body → IsJson room .value ('"' :: (body ++ ['"']))
  | number {room} {n : Numeral} : n.WellFormed → numbers n → IsJson room .value n.spelling
  | emptyArray {room blanks} :
      IsBlankText blanks → IsJson (room + 1) .value ('[' :: (blanks ++ [']']))
  | array {room cs} : IsJson room .elements cs → IsJson (room + 1) .value ('[' :: (cs ++ [']']))
  | emptyObject {room blanks} :
      IsBlankText blanks → IsJson (room + 1) .value ('\x7b' :: (blanks ++ ['\x7d']))
  | object {room cs} :
      IsJson room .members cs → IsJson (room + 1) .value ('\x7b' :: (cs ++ ['\x7d']))
  | padded {room before cs after} :
      IsBlankText before → IsJson room .value cs → IsBlankText after →
      IsJson room .padded (before ++ (cs ++ after))
  | lastElement {room cs} : IsJson room .padded cs → IsJson room .elements cs
  | nextElement {room cs more} :
      IsJson room .padded cs → IsJson room .elements more →
      IsJson room .elements (cs ++ ',' :: more)
  | lastMember {room name cs} :
      IsMemberName strings name → IsJson room .padded cs →
      IsJson room .members (name ++ ':' :: cs)
  | nextMember {room name cs more} :
      IsMemberName strings name → IsJson room .padded cs → IsJson room .members more →
      IsJson room .members (name ++ ':' :: (cs ++ ',' :: more))

end

/-! ## What is spelled is a document -/

section

variable {strings : List Char → Prop} {numbers : Numeral → Prop}

/-- A value that is spelled by these characters may stand in a document. -/
def Literal.Fits (strings : List Char → Prop) (numbers : Numeral → Prop) (cs : List Char) :
    Literal → Prop
  | string _ => ∀ body, cs = '"' :: (body ++ ['"']) → IsStringBody body → strings body
  | number n => numeralToken n = .literal (.number n) → numbers n
  | infinity _ | nan => False
  | null | bool _ => True

/-- A literal that may stand in a document is a value of it. -/
theorem isJson_of_isSpelled {value : Literal} {cs : List Char} (room : Nat)
    (h : (Token.literal value).IsSpelled cs) (hfits : value.Fits strings numbers cs) :
    IsJson strings numbers room .value cs := by
  cases h with
  | @word w hw =>
      -- only the three words of the grammar are values, the others do not fit
      simp only [literalWords, List.mem_cons, List.not_mem_nil, or_false] at hw
      rcases hw with rfl | rfl | rfl | rfl | rfl | rfl
      · have hword : "null" ∈ ["null", "true", "false"] := by simp
        exact .word hword
      · have hword : "true" ∈ ["null", "true", "false"] := by simp
        exact .word hword
      · have hword : "false" ∈ ["null", "true", "false"] := by simp
        exact .word hword
      · exact hfits.elim
      · exact hfits.elim
      · exact hfits.elim
  | string hbody => exact .string (hfits _ rfl hbody)
  | number hn hfew => exact .number hn (hfits hfew)

/-- From an offset of a text on there are the characters of a phrase, and behind them those of the
lexemes that are left. -/
def Phrase.IsWritten (strings : List Char → Prop) (numbers : Numeral → Prop) (room : Nat)
    (text : List Char) (offset : Nat) (left : List Lexeme) : Phrase → Prop
  | .value _ => ∃ blanks cs stop, text.drop offset = blanks ++ (cs ++ text.drop stop) ∧
      IsBlankText blanks ∧ IsJson strings numbers room .value cs ∧
      lexemesFrom 0 stop (text.drop stop) = left
  | .items _ => ∃ cs stop, text.drop offset = cs ++ ']' :: text.drop stop ∧
      IsJson strings numbers room .elements cs ∧ lexemesFrom 0 stop (text.drop stop) = left
  | .members _ => ∃ cs stop, text.drop offset = cs ++ '\x7d' :: text.drop stop ∧
      (∀ name, IsMemberName strings name →
        IsJson strings numbers room .members (name ++ ':' :: cs)) ∧
      lexemesFrom 0 stop (text.drop stop) = left

variable {text : List Char} {offset : Nat} {ls left : List Lexeme}

theorem exists_mark {l : Lexeme} {c : Char}
    (h : lexemesFrom 0 offset (text.drop offset) = l :: ls) (hmark : l.token.mark? = some c) :
    ∃ blanks stop, text.drop offset = blanks ++ c :: text.drop stop ∧ IsBlankText blanks ∧
      lexemesFrom 0 stop (text.drop stop) = ls := by
  rcases l with ⟨start, token⟩
  have hwhole : token.isBroken = false := by
    cases token <;> first | rfl | cases hmark
  rcases exists_spelling h hwhole with ⟨blanks, stop, hdrop, hblanks, hspelled, hls⟩
  generalize (⟨start, token⟩ : Lexeme).spelling text = s at hdrop hspelled
  have hs : s = [c] := by
    cases hspelled <;> first | cases hmark; rfl | cases hmark
  rw [hs] at hdrop
  exact ⟨blanks, stop, hdrop, hblanks, hls⟩

/-- The name of a member and the colon behind it. -/
theorem exists_name {nameAt colonAt : Nat} {name : Text}
    (h : lexemesFrom 0 offset (text.drop offset) =
      ⟨nameAt, .literal (.string name)⟩ :: ⟨colonAt, .colon⟩ :: ls)
    (hfits : (Literal.string name).Fits strings numbers
      ((⟨nameAt, .literal (.string name)⟩ : Lexeme).spelling text)) :
    ∃ cs stop, text.drop offset = cs ++ ':' :: text.drop stop ∧ IsMemberName strings cs ∧
      lexemesFrom 0 stop (text.drop stop) = ls := by
  rcases exists_spelling h rfl with ⟨before, stop, hdrop, hbefore, hspelled, hls⟩
  rcases exists_mark hls rfl with ⟨after, stop', hdrop', hafter, hls'⟩
  rcases exists_body_of_isSpelled hspelled with ⟨body, hspelling, hbody⟩
  rw [hspelling] at hdrop
  -- the name is a string with blanks around it, up to the colon
  refine ⟨before ++ '"' :: (body ++ '"' :: after), stop', ?_, ?_, hls'⟩
  · rw [hdrop, hdrop']
    simp
  · exact ⟨before, body, after, rfl, hbefore, hfits body hspelling hbody, hafter⟩

/-- A value and the white space around it, in front of a token that goes on behind a value. -/
theorem exists_padded {tree : SpelledTree} {room : Nat} {l : Lexeme} {c : Char}
    (h : (Phrase.value tree).IsWritten strings numbers room text offset (l :: left))
    (hmark : l.token.mark? = some c) :
    ∃ cs stop, text.drop offset = cs ++ c :: text.drop stop ∧
      IsJson strings numbers room .padded cs ∧ lexemesFrom 0 stop (text.drop stop) = left := by
  rcases h with ⟨before, cs, stop, hdrop, hbefore, hcs, hleft⟩
  rcases exists_mark hleft hmark with ⟨after, stop', hdrop', hafter, hleft'⟩
  refine ⟨before ++ (cs ++ after), stop', ?_, .padded hbefore hcs hafter, hleft'⟩
  rw [hdrop, hdrop']
  simp

/-- The characters that are cut into the lexemes of a phrase are those of a part of a document. -/
theorem Spells.isWritten {room : Nat} {p : Phrase} (h : Spells room ls p)
    (hlex : lexemesFrom 0 offset (text.drop offset) = ls ++ left)
    (hfits : ∀ l ∈ ls, ∀ value, l.token = .literal value →
      value.Fits strings numbers (l.spelling text)) :
    p.IsWritten strings numbers room text offset left := by
  -- a phrase takes up its own lexemes, and what is behind it starts with those that are left
  induction h generalizing offset left with
  | @leaf room start value =>
      rcases exists_spelling hlex rfl with ⟨blanks, stop, hdrop, hblanks, hspelled, hleft⟩
      have hvalue := hfits _ (List.mem_singleton_self _) value rfl
      exact ⟨blanks, _, stop, hdrop, hblanks, isJson_of_isSpelled room hspelled hvalue, hleft⟩
  | emptyArray =>
      rcases exists_mark hlex rfl with ⟨blanks, stop, hdrop, hblanks, hls⟩
      rcases exists_mark hls rfl with ⟨inner, stop', hdrop', hinner, hleft⟩
      refine ⟨blanks, '[' :: (inner ++ [']']), stop', ?_, hblanks, .emptyArray hinner, hleft⟩
      rw [hdrop, hdrop']
      simp
  | array _ ih =>
      rcases exists_mark hlex rfl with ⟨blanks, stop, hdrop, hblanks, hls⟩
      rcases ih hls fun l hl => hfits l (List.mem_cons_of_mem _ hl) with
        ⟨cs, stop', hdrop', hcs, hleft⟩
      refine ⟨blanks, '[' :: (cs ++ [']']), stop', ?_, hblanks, .array hcs, hleft⟩
      rw [hdrop, hdrop']
      simp
  | emptyObject =>
      rcases exists_mark hlex rfl with ⟨blanks, stop, hdrop, hblanks, hls⟩
      rcases exists_mark hls rfl with ⟨inner, stop', hdrop', hinner, hleft⟩
      refine ⟨blanks, '\x7b' :: (inner ++ ['\x7d']), stop', ?_, hblanks, .emptyObject hinner, hleft⟩
      rw [hdrop, hdrop']
      simp
  | object _ ih =>
      rcases exists_mark hlex rfl with ⟨blanks, stop, hdrop, hblanks, hls⟩
      have hname := hfits _ (List.mem_cons_of_mem _ (List.mem_cons_self ..)) _ rfl
      rcases exists_name hls hname with ⟨name, stop', hdrop', hmember, hls'⟩
      rcases ih hls' fun l hl => hfits l (by simp [hl]) with ⟨cs, stop'', hdrop'', hcs, hleft⟩
      refine ⟨blanks, '\x7b' :: (name ++ ':' :: cs ++ ['\x7d']), stop'', ?_, hblanks,
        .object (hcs name hmember), hleft⟩
      rw [hdrop, hdrop', hdrop'']
      simp
  | lastItem _ ih =>
      rw [List.append_assoc] at hlex
      have hvalue := ih hlex fun l hl => hfits l (by simp [hl])
      rcases exists_padded hvalue rfl with ⟨cs, stop, hdrop, hcs, hleft⟩
      exact ⟨cs, stop, hdrop, .lastElement hcs, hleft⟩
  | nextItem _ _ ih ihmore =>
      rw [List.append_assoc] at hlex
      have hvalue := ih hlex fun l hl => hfits l (by simp [hl])
      rcases exists_padded hvalue rfl with ⟨cs, stop, hdrop, hcs, hls⟩
      rcases ihmore hls fun l hl => hfits l (by simp [hl]) with ⟨more, stop', hdrop', hmore, hleft⟩
      refine ⟨cs ++ ',' :: more, stop', ?_, .nextElement hcs hmore, hleft⟩
      rw [hdrop, hdrop']
      simp
  | lastMember _ ih =>
      rw [List.append_assoc] at hlex
      have hvalue := ih hlex fun l hl => hfits l (by simp [hl])
      rcases exists_padded hvalue rfl with ⟨cs, stop, hdrop, hcs, hleft⟩
      exact ⟨cs, stop, hdrop, fun name hname => .lastMember hname hcs, hleft⟩
  | @nextMember room commaAt nameAt colonAt ls more name tree next nextTree list _ _ ih ihmore =>
      rw [List.append_assoc] at hlex
      have hvalue := ih hlex fun l hl => hfits l (by simp [hl])
      rcases exists_padded hvalue rfl with ⟨cs, stop, hdrop, hcs, hls⟩
      have hnext := hfits ⟨nameAt, .literal (.string next)⟩ (by simp) _ rfl
      rcases exists_name hls hnext with ⟨next, stop', hdrop', hmember, hls'⟩
      rcases ihmore hls' fun l hl => hfits l (by simp [hl]) with
        ⟨more, stop'', hdrop'', hmore, hleft⟩
      refine ⟨cs ++ ',' :: (next ++ ':' :: more), stop'', ?_, ?_, hleft⟩
      · rw [hdrop, hdrop', hdrop'']
        simp
      · exact fun name hname => .nextMember hname hcs (hmore next hmember)

end

/-! ## A document is spelled -/

/-- A number of a document that is decoded: its exponent, if there is one, has no plus sign. -/
structure Numeral.IsDecoded (n : Numeral) : Prop where
  digits : n.IsWithinLimit
  sign : ∀ e ∈ n.exponent, e.sign ≠ some '+'

/-- JSON has this literal, if its numbers have some property. -/
def Literal.IsJson (numbers : Numeral → Prop) : Literal → Prop
  | number n => numbers n
  | infinity _ | nan => False
  | null | bool _ | string _ => True

theorem Numeral.isDecoded_iff {n : Numeral} :
    n.IsDecoded ↔ numeralToken n = .literal (.number n) ∧
      (Literal.number n).scalar?.isSome = true := by
  constructor
  · rintro ⟨hdigits, hsign⟩
    refine ⟨Numeral.isWithinLimit_iff.1 hdigits, ?_⟩
    -- what is refused is a plus in front of the exponent, and that only
    have hplus : ¬ n.exponent.any (·.sign = some '+') = true := by
      cases hexponent : n.exponent with
      | none => simp
      | some e => simpa using hsign e hexponent
    rw [Literal.scalar?, if_neg hplus]
    rfl
  · rintro ⟨htoken, hscalar⟩
    refine ⟨Numeral.isWithinLimit_iff.2 htoken, ?_⟩
    intro e he hplus
    have hany : n.exponent.any (·.sign = some '+') = true := by
      rw [Option.mem_def.1 he]
      simpa using hplus
    rw [Literal.scalar?, if_pos hany] at hscalar
    cases hscalar

theorem Literal.IsJson.isSome_scalar? {value : Literal} (h : value.IsJson Numeral.IsDecoded) :
    value.scalar?.isSome = true := by
  cases value with
  | null | bool | string => rfl
  | number n => exact (Numeral.isDecoded_iff.1 h).2
  | infinity | nan => exact h.elim

/-- Is this no literal, or one that JSON has? -/
def Token.isMeant : Token → Bool
  | literal value => value.scalar?.isSome
  | _ => true

/-- Do all values of a phrase mean something? -/
def Phrase.HasMeaning : Phrase → Prop
  | .value tree => (mapLeaves? Literal.scalar? tree).isSome = true
  | .items trees => ∀ t ∈ trees, (mapLeaves? Literal.scalar? t).isSome = true
  | .members list => ∀ m ∈ list, (mapLeaves? Literal.scalar? m.2).isSome = true

/-- The values of a phrase mean something if and only if JSON has all the literals. -/
theorem Spells.hasMeaning_iff {room : Nat} {ls : List Lexeme} {p : Phrase} (h : Spells room ls p) :
    p.HasMeaning ↔ ∀ l ∈ ls, l.token.isMeant = true := by
  -- a part has a meaning just if its lexemes have one: marks always do, names are texts
  induction h with
  | leaf => simp [Phrase.HasMeaning, Tree.mapLeaves?_leaf, Token.isMeant]
  | emptyArray => simp [Phrase.HasMeaning, Tree.isSome_mapLeaves?_array, Token.isMeant]
  | emptyObject => simp [Phrase.HasMeaning, Tree.isSome_mapLeaves?_object, Token.isMeant]
  | array _ ih =>
      simp only [Phrase.HasMeaning, Tree.isSome_mapLeaves?_array] at ih ⊢
      simp [ih, Token.isMeant]
  | object _ ih =>
      simp only [Phrase.HasMeaning, Tree.isSome_mapLeaves?_object] at ih ⊢
      simp only [ih]
      simp [Token.isMeant, Literal.scalar?]
  | lastItem _ ih | lastMember _ ih =>
      simp only [Phrase.HasMeaning, List.forall_mem_singleton, List.forall_mem_append] at ih ⊢
      rw [ih]
      simp [Token.isMeant]
  | nextItem _ _ ih ihmore =>
      simp only [Phrase.HasMeaning, List.forall_mem_cons, List.forall_mem_append] at ih ihmore ⊢
      rw [ih, ihmore]
      simp [Token.isMeant]
  | nextMember _ _ ih ihmore =>
      simp only [Phrase.HasMeaning, List.forall_mem_cons, List.forall_mem_append] at ih ihmore ⊢
      rw [ih, ihmore]
      simp [Token.isMeant, Literal.scalar?]

/-- What a part of a rendering renders, as a phrase. -/
def Content.phrase : Content → Phrase
  | value tree | padded tree => .value tree
  | elements trees => .items trees
  | members list => .members list

/-- The values of a rendering mean something if its literals do. -/
theorem IsRendering.hasMeaning {literals : Literal → Prop} {room offset : Nat} {content : Content}
    {cs : List Char} (h : IsRendering literals room offset content cs)
    (hmeant : ∀ value, literals value → value.scalar?.isSome = true) :
    content.phrase.HasMeaning := by
  -- only leaves can be without a meaning
  induction h with
  | leaf hvalue _ =>
      simpa [Content.phrase, Phrase.HasMeaning, Tree.mapLeaves?_leaf] using hmeant _ hvalue
  | emptyArray => simp [Content.phrase, Phrase.HasMeaning, Tree.isSome_mapLeaves?_array]
  | emptyObject => simp [Content.phrase, Phrase.HasMeaning, Tree.isSome_mapLeaves?_object]
  | array _ ih => exact Tree.isSome_mapLeaves?_array.2 ih
  | object _ ih => exact Tree.isSome_mapLeaves?_object.2 ih
  | padded _ _ _ ih => exact ih
  | lastElement _ ih | lastMember _ _ ih => exact List.forall_mem_singleton.2 ih
  | nextElement _ _ ih ihmore | nextMember _ _ _ ih ihmore =>
      exact List.forall_mem_cons.2 ⟨ih, ihmore⟩

/-- Wherever they stand, the characters of a part of a document render something. -/
def JsonPart.IsRendered (numbers : Numeral → Prop) (room : Nat) (cs : List Char) : JsonPart → Prop
  | value => ∀ offset, ∃ tree, IsRendering (Literal.IsJson numbers) room offset (.value tree) cs
  | padded => ∀ offset, ∃ tree, IsRendering (Literal.IsJson numbers) room offset (.padded tree) cs
  | elements => ∀ offset, ∃ trees,
      IsRendering (Literal.IsJson numbers) room offset (.elements trees) cs
  | members => ∀ offset, ∃ list, IsRendering (Literal.IsJson numbers) room offset (.members list) cs

theorem IsMemberName.exists_isName {cs : List Char} (h : IsMemberName IsStringBody cs) :
    ∃ name : Text, name.IsName cs := by
  rcases h with ⟨before, body, after, heq, hbefore, hbody, hafter⟩
  rcases hbody.exists_isSpelled with ⟨name, hname⟩
  exact ⟨name, before, body, after, heq, hbefore, hname, hafter⟩

/-- A document is a rendering of some value, if none of its integers has too many digits. -/
theorem IsJson.isRendered {numbers : Numeral → Prop} {room : Nat} {part : JsonPart}
    {cs : List Char} (hlimit : ∀ n, numbers n → n.IsWithinLimit)
    (h : IsJson IsStringBody numbers room part cs) : part.IsRendered numbers room cs := by
  -- the induction is general in the offset, since each part is rendered where the one before it
  -- ends
  induction h with
  | @word room word hword =>
      -- a word is one of three, a string and a number give their leaf
      intro offset
      simp only [List.mem_cons, List.not_mem_nil, or_false] at hword
      have hnull : ("null".toList, Literal.null) ∈ literalWords := by simp [literalWords]
      have htrue : ("true".toList, Literal.bool true) ∈ literalWords := by simp [literalWords]
      have hfalse : ("false".toList, Literal.bool false) ∈ literalWords := by simp [literalWords]
      rcases hword with rfl | rfl | rfl
      · exact ⟨.leaf offset .null, .leaf trivial (.word hnull)⟩
      · exact ⟨.leaf offset (.bool true), .leaf trivial (.word htrue)⟩
      · exact ⟨.leaf offset (.bool false), .leaf trivial (.word hfalse)⟩
  | string hbody =>
      intro offset
      rcases hbody.exists_isSpelled with ⟨t, ht⟩
      exact ⟨.leaf offset (.string t), .leaf trivial (.string ht)⟩
  | @number room n hn hnumber =>
      intro offset
      exact ⟨.leaf offset (.number n), .leaf hnumber (.number hn (hlimit _ hnumber))⟩
  | emptyArray hblanks =>
      intro offset
      exact ⟨_, .emptyArray hblanks⟩
  | array _ ih =>
      intro offset
      rcases ih (offset + 1) with ⟨trees, htrees⟩
      exact ⟨_, .array htrees⟩
  | emptyObject hblanks =>
      intro offset
      exact ⟨_, .emptyObject hblanks⟩
  | object _ ih =>
      intro offset
      rcases ih (offset + 1) with ⟨list, hlist⟩
      exact ⟨_, .object hlist⟩
  | padded hbefore _ hafter ih =>
      intro offset
      rcases ih _ with ⟨tree, htree⟩
      exact ⟨tree, .padded hbefore htree hafter⟩
  | lastElement _ ih =>
      intro offset
      rcases ih offset with ⟨tree, htree⟩
      exact ⟨_, .lastElement htree⟩
  | nextElement _ _ ih ihmore =>
      intro offset
      rcases ih offset with ⟨tree, htree⟩
      rcases ihmore _ with ⟨trees, htrees⟩
      exact ⟨_, .nextElement htree htrees⟩
  | lastMember hname _ ih =>
      intro offset
      rcases hname.exists_isName with ⟨name, hkey⟩
      rcases ih _ with ⟨tree, htree⟩
      exact ⟨_, .lastMember hkey htree⟩
  | nextMember hname _ _ ih ihmore =>
      intro offset
      rcases hname.exists_isName with ⟨name, hkey⟩
      rcases ih _ with ⟨tree, htree⟩
      rcases ihmore _ with ⟨list, hlist⟩
      exact ⟨_, .nextMember hkey htree hlist⟩

/-- What a part of a rendering is a part of. -/
def Content.part : Content → JsonPart
  | value _ => .value
  | padded _ => .padded
  | elements _ => .elements
  | members _ => .members

theorem Text.IsName.isMemberName {name : Text} {cs : List Char} (h : name.IsName cs) :
    IsMemberName IsStringBody cs := by
  rcases h with ⟨before, body, after, heq, hbefore, hbody, hafter⟩
  exact ⟨before, body, after, heq, hbefore, hbody.isStringBody, hafter⟩

/-- A rendering is a document, if JSON has its literals. -/
theorem IsRendering.isJson {numbers : Numeral → Prop} {room offset : Nat} {content : Content}
    {cs : List Char} (h : IsRendering (Literal.IsJson numbers) room offset content cs) :
    IsJson IsStringBody numbers room content.part cs := by
  -- each construct of a rendering is one of the grammar; only in words the rendering admits more
  induction h with
  | leaf hvalue hspelled =>
      cases hspelled with
      | @word w hw =>
          simp only [literalWords, List.mem_cons, List.not_mem_nil, or_false] at hw
          rcases hw with rfl | rfl | rfl | rfl | rfl | rfl
          · exact .word (by simp : "null" ∈ _)
          · exact .word (by simp : "true" ∈ _)
          · exact .word (by simp : "false" ∈ _)
          · exact hvalue.elim
          · exact hvalue.elim
          · exact hvalue.elim
      | string ht => exact .string ht.isStringBody
      | number hn _ => exact .number hn hvalue
  | emptyArray hblanks => exact .emptyArray hblanks
  | array _ ih => exact .array ih
  | emptyObject hblanks => exact .emptyObject hblanks
  | object _ ih => exact .object ih
  | padded hbefore _ hafter ih => exact .padded hbefore ih hafter
  | lastElement _ ih => exact .lastElement ih
  | nextElement _ _ ih ihmore => exact .nextElement ih ihmore
  | lastMember hname _ ih => exact .lastMember hname.isMemberName ih
  | nextMember hname _ _ ih ihmore => exact .nextMember hname.isMemberName ih ihmore

/-! ## Decoding -/

/-- A text that is decoded is a document, the strings of which have any property that the bodies of
the string literals have. -/
theorem isJson_of_decodeJson {strings : List Char → Prop} {room : Nat} {text : List Char}
    {root : LocatedTree} (h : decodeJson room text = .ok root)
    (hstrings : ∀ l ∈ lexemes text, ∀ t, l.token = .literal (.string t) →
      ∀ body, l.spelling text = '"' :: (body ++ ['"']) → IsStringBody body → strings body) :
    IsJson strings Numeral.IsDecoded (levelLimit room) .padded text := by
  rcases decodeJson_eq_ok_iff.1 h with ⟨tree, meaning, hspells, -, hmeans, -⟩
  -- the decoded tree has a meaning, so each of its lexemes has one
  have hsome : (Phrase.value tree).HasMeaning := by
    rcases Option.map_eq_some_iff.1 hmeans with ⟨changed, hchanged, -⟩
    simp [Phrase.HasMeaning, hchanged]
  have hmeant := hspells.hasMeaning_iff.1 hsome
  have hfits : ∀ l ∈ lexemes text, ∀ value, l.token = .literal value →
      value.Fits strings Numeral.IsDecoded (l.spelling text) := by
    intro l hl value hvalue
    have hscalar : value.scalar?.isSome = true := by
      have hl' := hmeant l hl
      rwa [hvalue] at hl'
    cases value with
    | null | bool => trivial
    | string t => exact hstrings l hl t hvalue
    | number n => exact fun hfew => Numeral.isDecoded_iff.2 ⟨hfew, hscalar⟩
    | infinity | nan => cases hscalar
  -- the text is cut from its start, and nothing but blanks is left behind the value
  have hlex : lexemesFrom 0 0 (text.drop 0) = lexemes text ++ [] := (List.append_nil _).symm
  rcases hspells.isWritten hlex hfits with ⟨before, cs, stop, hdrop, hbefore, hcs, hnone⟩
  have htext : text = before ++ (cs ++ text.drop stop) := hdrop
  rw [htext]
  exact .padded hbefore hcs (isBlank_of_lexemesFrom_nil hnone)

/-- A text is decoded with some room if and only if it is a document of JSON, with containers nested
no deeper than is read with this room and integers of no more than `integerDigitLimit` digits, in
which no exponent has a plus sign, and the conversion of the value that it renders takes no more
calls than there is room for. -/
theorem exists_decodeJson_iff {room : Nat} {text : List Char} :
    (∃ root, decodeJson room text = .ok root) ↔
      IsJson IsStringBody Numeral.IsDecoded (levelLimit room) .padded text ∧
        ∀ tree, IsRendering (Literal.IsJson Numeral.IsDecoded) (levelLimit room) 0
          (.padded tree) text → tree.calls ≤ callLimit room := by
  constructor
  · rintro ⟨root, h⟩
    refine ⟨isJson_of_decodeJson h fun _ _ _ _ _ _ hbody => hbody, ?_⟩
    intro tree htree
    -- what the text renders is what was read from it
    rcases decodeJson_eq_ok_iff.1 h with ⟨read, -, hspells, hcalls, -, -⟩
    have hread := readSpelled_eq_ok_iff.2 hspells
    rw [htree.readSpelled_eq] at hread
    rw [Except.ok.inj hread]
    exact hcalls
  · rintro ⟨h, hcalls⟩
    rcases h.isRendered (fun n hn => hn.digits) 0 with ⟨tree, htree⟩
    have hmeaning := htree.hasMeaning fun value hvalue => hvalue.isSome_scalar?
    rcases Option.isSome_iff_exists.1 hmeaning with ⟨changed, hchanged⟩
    exact ⟨_, decodeJson_eq_ok_iff.2 ⟨tree, changed.collapse,
      readSpelled_eq_ok_iff.1 htree.readSpelled_eq, hcalls tree htree, by
      simp [Tree.meaning?, hchanged], rfl⟩⟩

/-- The plus sign of an exponent is refused, though it is JSON and no limit speaks against it. -/
theorem exists_document_not_decoded :
    ∃ text, IsJson IsStringBody Numeral.IsWithinLimit 0 .padded text ∧
      ∀ room, ¬ ∃ root, decodeJson room text = .ok root := by
  -- the text is a number of the grammar, so all that is to be shown is that it is spelled as one
  have hrefused : ∀ room, decodeJson room "1e+5".toList = .error .foreignSpelling := fun _ => rfl
  refine ⟨"1e+5".toList, ?_, ?_⟩
  · have hnone : IsBlankText [] := by simp [IsBlankText]
    have hwf : Numeral.WellFormed ⟨false, ['1'], none, some ⟨'e', some '+', ['5']⟩⟩ := {
      whole := .inr ⟨⟨by simp, by simp [isDigit]⟩, by simp⟩
      fraction := by simp
      exponent := by
        intro e he
        obtain rfl := Option.some.inj he
        exact ⟨.inl rfl, by simp, by simp, by simp [isDigit]⟩ }
    have hlimit : Numeral.IsWithinLimit ⟨false, ['1'], none, some ⟨'e', some '+', ['5']⟩⟩ := by
      simp [Numeral.IsWithinLimit, Numeral.isInteger]
    exact .padded hnone (.number hwf hlimit) hnone
  · rintro room ⟨root, hroot⟩
    rw [hrefused] at hroot
    cases hroot

end ComponentMarkup
