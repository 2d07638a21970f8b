import ComponentMarkup.Json.Printer
import ComponentMarkup.Proofs.Json.Bare
import ComponentMarkup.Proofs.Json.Denotation
import ComponentMarkup.Proofs.Number.Shortest

/-!
# Printed values read back

A printed value is a rendering, so it is read as spelled. What it then means is the value that was
printed (`readLoosely_printJson`), unless the value cannot be told from another one: two surrogates
in succession that would join, a name that is repeated in an object, and integers and nesting past
the limits of the reader. Doubles that are not finite are printed as words that JSON does not have,
so that a printed value is a document only without them (`isFinite_of_isJson_printJson`), and then
it is one (`isJson_printJson`).
-/

namespace ComponentMarkup

open ComponentMarkup.Tree (Subtree collapse distinctMembers lastMember? mapMark)

/-! ## Strings -/

/-- No high surrogate stands directly in front of a low one, so that all pairs are joined. -/
def Text.IsJoined (t : Text) : Prop :=
  t.IsChain fun p q => ¬ (p.IsHighSurrogate ∧ q.IsLowSurrogate)

theorem CodePoint.not_isHighSurrogate_ofChar (c : Char) : ¬ (ofChar c).IsHighSurrogate := by
  have hvalid := c.valid
  simp only [UInt32.isValidChar, Nat.isValidChar] at hvalid
  simp only [IsHighSurrogate, val_ofChar, Char.toNat]
  omega

theorem Text.IsJoined.cons {p : CodePoint} {t : Text}
    (hlone : p.IsHighSurrogate → ∀ q ∈ t.head?, ¬ q.IsLowSurrogate) (h : t.IsJoined) :
    Text.IsJoined (p :: t) :=
  List.isChain_cons.2 ⟨fun q hq hpair => hlone hpair.1 q hq hpair.2, h⟩

/-- A text without surrogates. -/
theorem Text.isJoined_ofChars (cs : List Char) : (ofChars cs).IsJoined := by
  induction cs with
  | nil => exact .nil
  | cons c cs ih => exact .cons (fun h => absurd h (CodePoint.not_isHighSurrogate_ofChar c)) ih

theorem hexDigit?_digitChar {k : Nat} (hk : k < 16) : hexDigit? (Nat.digitChar k) = some k := by
  have hall : ∀ k < 16, hexDigit? (Nat.digitChar k) = some k := by decide
  exact hall k hk

/-- The last digit of a number of some width. -/
theorem paddedHex_succ (width n : Nat) :
    paddedHex (width + 2) n = paddedHex (width + 1) (n / 16) ++ [Nat.digitChar (n % 16)] := by
  rw [paddedHex, paddedHex, Nat.toDigits_eq_if (by decide)]
  split
  · next hlt =>
    have hquotient : n / 16 = 0 := Nat.div_eq_of_lt hlt
    have hzero : Nat.toDigits 16 0 = ['0'] := rfl
    rw [hquotient, hzero, Nat.mod_eq_of_lt hlt]
    simp [List.replicate_succ']
  · simp

/-- Four hexadecimal digits are read back. -/
theorem exists_paddedHex {p : CodePoint} (hp : p.val < 0x10000) :
    ∃ a b c d, paddedHex 4 p.val = [a, b, c, d] ∧ hexPoint? a b c d = some p := by
  -- the value is named so that `omega` sees one variable in place of the projection
  obtain ⟨n, hn⟩ : ∃ n, n = p.val := ⟨_, rfl⟩
  have hone : paddedHex 1 (n / 16 / 16 / 16) = [Nat.digitChar (n / 16 / 16 / 16)] := by
    have hlt : n / 16 / 16 / 16 < 16 := by omega
    rw [paddedHex, Nat.toDigits_of_lt_base hlt]
    rfl
  -- the four digits are read off by repeated division by 16
  refine ⟨Nat.digitChar (n / 16 / 16 / 16), Nat.digitChar (n / 16 / 16 % 16),
    Nat.digitChar (n / 16 % 16), Nat.digitChar (n % 16), ?_, ?_⟩
  · rw [← hn, paddedHex_succ, paddedHex_succ, paddedHex_succ, hone]
    rfl
  · -- reading them back is Horner's rule on the quotients
    have hvalue : ((n / 16 / 16 / 16 * 16 + n / 16 / 16 % 16) * 16 + n / 16 % 16) * 16 + n % 16 =
        p.val := by omega
    have hfirst := hexDigit?_digitChar (by omega : n / 16 / 16 / 16 < 16)
    have hsecond := hexDigit?_digitChar (by omega : n / 16 / 16 % 16 < 16)
    have hthird := hexDigit?_digitChar (by omega : n / 16 % 16 < 16)
    have hfourth := hexDigit?_digitChar (by omega : n % 16 < 16)
    simp [hexPoint?, hfirst, hsecond, hthird, hfourth, hvalue]

/-- The escape of a UTF-16 unit in front of a text that it does not join with. -/
theorem Text.IsSpelled.unitEscape {p : CodePoint} {t : Text} {cs : List Char} (hp : p.val < 0x10000)
    (hlone : p.IsHighSurrogate → ∀ q ∈ t.head?, ¬ q.IsLowSurrogate) (h : t.IsSpelled cs) :
    Text.IsSpelled (p :: t) (unitEscape p.val ++ cs) := by
  rcases exists_paddedHex hp with ⟨a, b, c, d, hdigits, hpoint⟩
  rw [ComponentMarkup.unitEscape, hdigits]
  exact .unicode hpoint hlone h

/-- The escapes of a surrogate pair. -/
theorem Text.IsSpelled.pairEscapes {p : CodePoint} {t : Text} {cs : List Char}
    (hp : 0x10000 ≤ p.val) (h : t.IsSpelled cs) :
    Text.IsSpelled (p :: t) (ComponentMarkup.unitEscape (0xD800 + (p.val - 0x10000) / 0x400) ++
      ComponentMarkup.unitEscape (0xDC00 + (p.val - 0x10000) % 0x400) ++ cs) := by
  have hrange := p.isLt
  -- the two halves are built from the offset above the plane of 16-bit values, as the printer does
  obtain ⟨high, hhigh⟩ : ∃ high : CodePoint, high.val = 0xD800 + (p.val - 0x10000) / 0x400 :=
    ⟨⟨_, by omega⟩, rfl⟩
  obtain ⟨low, hlow⟩ : ∃ low : CodePoint, low.val = 0xDC00 + (p.val - 0x10000) % 0x400 :=
    ⟨⟨_, by omega⟩, rfl⟩
  have hpair : CodePoint.ofPair high low = p := by
    apply Fin.ext
    simp only [CodePoint.ofPair, hhigh, hlow]
    omega
  rcases exists_paddedHex (p := high) (by omega) with ⟨a, b, c, d, hdigits, hpoint⟩
  rcases exists_paddedHex (p := low) (by omega) with ⟨a', b', c', d', hdigits', hpoint'⟩
  rw [← hhigh, ← hlow, ComponentMarkup.unitEscape, ComponentMarkup.unitEscape, hdigits, hdigits',
    ← hpair]
  -- what is left is that each half lies in its own surrogate range
  refine .pair hpoint hpoint' ?_ ?_ h
  · simp only [CodePoint.IsHighSurrogate]
    omega
  · simp only [CodePoint.IsLowSurrogate]
    omega

theorem toNat_ofNat_of_lt {n : Nat} (h : n < 0xD800) : (Char.ofNat n).toNat = n := by
  rw [Char.ofNat, dif_pos (.inl h)]
  rfl

/-- A printed code point spells it, in front of a text that it does not join with. -/
theorem Text.IsSpelled.printPoint {p : CodePoint} {t : Text} {cs : List Char}
    (hlone : p.IsHighSurrogate → ∀ q ∈ t.head?, ¬ q.IsLowSurrogate) (h : t.IsSpelled cs) :
    Text.IsSpelled (p :: t) (printPoint p ++ cs) := by
  -- the seven code points with a short escape share one argument; only the letter differs
  have hshort : ∀ c e : Char, shortEscape? c = some e → p.val = e.toNat →
      Text.IsSpelled (p :: t) ('\\' :: c :: cs) := by
    intro c e he hval
    obtain rfl : p = CodePoint.ofChar e := Fin.ext hval
    exact .short he h
  by_cases hmarked : p.val ∈ [0x22, 0x5C, 0x08, 0x0C, 0x0A, 0x0D, 0x09]
  · simp only [List.mem_cons, List.not_mem_nil, or_false] at hmarked
    rcases hmarked with hval | hval | hval | hval | hval | hval | hval
    · simpa [ComponentMarkup.printPoint, hval] using hshort '"' '"' rfl hval
    · simpa [ComponentMarkup.printPoint, hval] using hshort '\\' '\\' rfl hval
    · simpa [ComponentMarkup.printPoint, hval] using hshort 'b' '\x08' rfl hval
    · simpa [ComponentMarkup.printPoint, hval] using hshort 'f' '\x0c' rfl hval
    · simpa [ComponentMarkup.printPoint, hval] using hshort 'n' '\n' rfl hval
    · simpa [ComponentMarkup.printPoint, hval] using hshort 'r' '\r' rfl hval
    · simpa [ComponentMarkup.printPoint, hval] using hshort 't' '\t' rfl hval
  · -- behind the short escapes the printer tries printable ASCII, one unit, then a pair of units
    simp only [List.mem_cons, List.not_mem_nil, or_false, not_or] at hmarked
    rcases hmarked with ⟨hquote, hslash, hothers⟩
    rw [ComponentMarkup.printPoint]
    simp only [hquote, hslash, hothers, if_false]
    by_cases hplain : 0x20 ≤ p.val ∧ p.val ≤ 0x7E
    · -- printable ASCII stands for itself: its character is the code point
      have hnat : (Char.ofNat p.val).toNat = p.val := toNat_ofNat_of_lt (by omega)
      have hpoint : CodePoint.ofChar (Char.ofNat p.val) = p := Fin.ext hnat
      have hspelled := Text.IsSpelled.plain (c := Char.ofNat p.val) (by omega)
        (fun heq => hquote (hnat ▸ heq ▸ rfl)) (fun heq => hslash (hnat ▸ heq ▸ rfl)) h
      rw [hpoint] at hspelled
      rwa [if_pos hplain]
    · rw [if_neg hplain]
      by_cases hlt : p.val < 0x10000
      · rw [if_pos hlt]
        exact .unitEscape hlt hlone h
      · rw [if_neg hlt]
        exact .pairEscapes (Nat.not_lt.1 hlt) h

/-- A printed text spells it. -/
theorem Text.IsJoined.isSpelled {t : Text} (h : t.IsJoined) :
    t.IsSpelled (t.flatMap printPoint) := by
  induction t with
  | nil => exact .nil
  | cons p t ih =>
      rw [Text.IsJoined, List.isChain_cons] at h
      rw [List.flatMap_cons]
      refine .printPoint ?_ (ih h.2)
      intro hhigh q hq hlow
      exact h.1 q hq ⟨hhigh, hlow⟩

/-- Only a text in which all pairs are joined is spelled. -/
theorem Text.IsSpelled.isJoined {t : Text} {body : List Char} (h : t.IsSpelled body) :
    t.IsJoined := by
  induction h with
  | nil => exact .nil
  | plain _ _ _ _ ih | short _ _ ih =>
      exact .cons (fun hhigh => absurd hhigh (CodePoint.not_isHighSurrogate_ofChar _)) ih
  | unicode _ hlone _ ih => exact .cons hlone ih
  | pair _ _ _ _ _ ih =>
      refine .cons ?_ ih
      intro hhigh
      simp only [CodePoint.IsHighSurrogate, CodePoint.ofPair] at hhigh
      omega

/-! ## Strings that are read -/

/-- A string literal that is cut off a text has a text that is spelled. -/
theorem isJoined_of_scanToken {offset : Nat} {c : Char} {rest : List Char} {t : Text}
    (h : (scanToken offset c rest).1 = .literal (.string t)) : t.IsJoined := by
  have hwhole : (scanToken offset c rest).1.isBroken = false := by
    rw [h]
    rfl
  rcases exists_isSpelled_of_scanToken hwhole with ⟨s, more, hcs, -, hspelled⟩
  rw [h] at hspelled
  rcases exists_body_of_isSpelled hspelled with ⟨body, rfl, hbody⟩
  rcases hbody.exists_isSpelled with ⟨t', ht'⟩
  rw [List.cons_append, List.append_assoc, List.singleton_append, List.cons.injEq] at hcs
  rcases hcs with ⟨rfl, rfl⟩
  rw [scanToken, ht'.scanString_eq] at h
  obtain rfl : t' = t := by simpa using h
  exact ht'.isJoined

/-- All pairs are joined in a string that is read. -/
theorem isJoined_of_readSpelled {levels : Nat} {text : List Char} {tree : SpelledTree} {t : Text}
    (h : readSpelled levels text = .ok tree) (hleaf : tree.HasLeaf (.string t)) : t.IsJoined := by
  rcases hleaf with ⟨mark, hsub⟩
  have hspells := readSpelled_eq_ok_iff.1 h
  rcases hspells.exists_subtree (u := .leaf mark (.string t)) hsub with
    ⟨before, used, after, hlexemes, hused⟩
  cases hused
  rw [List.append_assoc] at hlexemes
  rcases exists_lexeme hlexemes with ⟨k, c, rest, -, -, -, htoken, -⟩
  exact isJoined_of_scanToken htoken.symm

/-- A scalar of a decoded tree is what a literal of the text means. -/
theorem exists_leaf_of_decodeJson {room : Nat} {text : List Char} {root : LocatedTree} {s : Scalar}
    (h : decodeJson room text = .ok root) (hleaf : root.HasLeaf s) :
    ∃ (tree : SpelledTree) (literal : Literal), readSpelled (levelLimit room) text = .ok tree ∧
      tree.HasLeaf literal ∧ literal.scalar? = some s := by
  rcases decodeJson_eq_ok_iff.1 h with ⟨tree, meaning, hspells, -, hmeans, rfl⟩
  rw [locate, Tree.hasLeaf_mapMark] at hleaf
  rcases Tree.exists_leaf_of_meaning? hmeans hleaf with ⟨literal, hliteral, hs⟩
  exact ⟨tree, literal, readSpelled_eq_ok_iff.2 hspells, hliteral, hs⟩

/-- All pairs are joined in a string of a decoded tree. -/
theorem isJoined_of_decodeJson {room : Nat} {text : List Char} {root : LocatedTree} {t : Text}
    (h : decodeJson room text = .ok root) (hleaf : root.HasLeaf (.string t)) : t.IsJoined := by
  rcases exists_leaf_of_decodeJson h hleaf with ⟨tree, literal, hread, hliteral, hs⟩
  cases literal with
  | string t' =>
      obtain rfl : t' = t := by simpa [Literal.scalar?] using hs
      exact isJoined_of_readSpelled hread hliteral
  | number n =>
      simp only [Literal.scalar?, Numeral.toScalar] at hs
      split at hs
      · cases hs
      · split at hs <;> cases hs
  | null | bool | infinity | nan => cases hs

/-! ## Scalars -/

/-- Is this a finite double, or none at all? -/
def Scalar.isFinite : Scalar → Bool
  | float d => d.isFinite
  | _ => true

/-- A scalar whose text is read back: surrogates in it do not join, and an integer does not have too
many digits. -/
def Scalar.IsPrintable : Scalar → Prop
  | string t => t.IsJoined
  | integer n => (Nat.toDigits 10 n.natAbs).length ≤ integerDigitLimit
  | null | bool _ | float _ => True

/-- A literal is what is printed for a scalar: it stands for it, and JSON lacks a word for it if the
scalar is not finite. -/
structure Literal.Prints (literal : Literal) (s : Scalar) : Prop where
  isSpelled : literal.IsSpelled (printScalar s)
  looseScalar : literal.looseScalar = s
  isForeign_eq : literal.isForeign = !s.isFinite

/-- JSON has the literals that are spelled, except for the foreign ones. -/
theorem Literal.IsSpelled.isJson {value : Literal} {cs : List Char} (h : value.IsSpelled cs)
    (hforeign : value.isForeign = false) : value.IsJson Numeral.IsWithinLimit := by
  cases h with
  | @word w hw =>
      revert w
      simp [literalWords, Literal.IsJson, Literal.isForeign]
  | string => exact trivial
  | number _ hlimit => exact hlimit

/-- The text of an integer is a numeral. -/
theorem exists_numeral_toString (n : Int) :
    ∃ m : Numeral, m.WellFormed ∧ m.spelling = (toString n).toList ∧ m.isInteger = true ∧
      m.whole = Nat.toDigits 10 n.natAbs ∧ m.toInt = n := by
  -- decimal digits never begin with zero unless the number is zero
  have hwhole : Nat.toDigits 10 n.natAbs = ['0'] ∨
      IsDigits (Nat.toDigits 10 n.natAbs) ∧ (Nat.toDigits 10 n.natAbs).head? ≠ some '0' := by
    rcases Nat.eq_zero_or_pos n.natAbs with hzero | hpos
    · left
      rw [hzero]
      rfl
    · exact .inr ⟨isDigits_toDigits _, head?_toDigits hpos⟩
  refine ⟨⟨decide (n < 0), Nat.toDigits 10 n.natAbs, none, none⟩, ?_, ?_, rfl, rfl, ?_⟩
  · exact ⟨hwhole, by simp, by simp⟩
  · -- the sign is split off: the digits are those of the absolute value
    rw [Int.toString_eq_repr, Int.repr_eq_if]
    by_cases hneg : n < 0
    · have hnat : (-n).toNat = n.natAbs := by omega
      rw [if_neg (by omega), hnat]
      simp [Numeral.spelling, Numeral.fractionSpelling, hneg, Nat.toList_repr]
    · have hnat : n.toNat = n.natAbs := by omega
      rw [if_pos (by omega), hnat]
      simp [Numeral.spelling, Numeral.fractionSpelling, hneg, Nat.toList_repr]
  · simp only [Numeral.toInt, digitsValue_toDigits, decide_eq_true_eq]
    split <;> omega

/-- For each scalar a literal is printed. -/
theorem Scalar.IsPrintable.exists_prints {s : Scalar} (h : s.IsPrintable) :
    ∃ literal : Literal, literal.Prints s := by
  -- the six words the reader knows, in the order of its table
  have hword : ∀ w ∈ literalWords, w.2.IsSpelled w.1 := fun w hw => .word hw
  simp only [literalWords, List.forall_mem_cons] at hword
  rcases hword with ⟨hnull, htrue, hfalse, hnan, hinfinity, hnegative, -⟩
  cases s with
  | null => exact ⟨.null, hnull, rfl, rfl⟩
  | bool b =>
      cases b with
      | true => exact ⟨.bool true, htrue, rfl, rfl⟩
      | false => exact ⟨.bool false, hfalse, rfl, rfl⟩
  | string t => exact ⟨.string t, .string (Text.IsJoined.isSpelled h), rfl, rfl⟩
  | integer n =>
      -- an integer is printed as its decimal digits; printability is the bound on their number
      rcases exists_numeral_toString n with ⟨m, hm, hspelling, hinteger, hwhole, hvalue⟩
      have hlimit : m.IsWithinLimit := fun _ => hwhole ▸ h
      refine ⟨.number m, ?_, ?_, rfl⟩
      · rw [printScalar, ← hspelling]
        exact .number hm hlimit
      · rw [Literal.looseScalar, Numeral.toScalar, if_pos hinteger, hvalue]
  | float d =>
      cases d with
      | finite negative rank =>
          -- a finite double is printed with a point or an exponent, so the digit limit does not
          -- bear on it
          rcases Double.exists_numeral_text negative rank with ⟨m, hm, hinteger, hspelling, hdouble⟩
          have hlimit : m.IsWithinLimit := by
            intro hinteger'
            rw [hinteger] at hinteger'
            cases hinteger'
          refine ⟨.number m, ?_, ?_, rfl⟩
          · rw [printScalar, printDouble, ← hspelling]
            exact .number hm hlimit
          · rw [Literal.looseScalar, Numeral.toScalar, hinteger, if_neg Bool.false_ne_true, hdouble]
      | infinity negative =>
          cases negative with
          | true => exact ⟨.infinity true, hnegative, rfl, rfl⟩
          | false => exact ⟨.infinity false, hinfinity, rfl, rfl⟩
      | nan => exact ⟨.nan, hnan, rfl, rfl⟩

/-! ## Values -/

/-- A value, with containers at most `room` deep, whose text is read back. -/
inductive Value.IsPrintable : Nat → Value → Prop where
  | leaf {room mark s} : s.IsPrintable → IsPrintable room (.leaf mark s)
  | array {room mark items} :
      (∀ v ∈ items, IsPrintable room v) → IsPrintable (room + 1) (.array mark items)
  | object {room mark members} :
      (members.map Prod.fst).Nodup → (∀ m ∈ members, m.1.IsJoined) →
      (∀ m ∈ members, IsPrintable room m.2) → IsPrintable (room + 1) (.object mark members)

/-- The value that a text spells, with containers nested at most `levels` deep, where the words for
infinity and for no number count too. -/
def readLoosely (levels : Nat) (text : List Char) : Except Fault Value :=
  (readSpelled levels text).map fun tree => tree.looseMeaning.plain

namespace Tree

theorem plain_looseMeaning_array (offset : Nat) (trees : List SpelledTree) :
    (looseMeaning (.array offset trees)).plain =
      .array () (trees.map fun t => t.looseMeaning.plain) := by
  rw [looseMeaning_array, plain, mapMark_array, List.map_map]
  rfl

theorem plain_looseMeaning_object {offset : Nat} {list : List (Text × SpelledTree)}
    (h : (list.map Prod.fst).Nodup) :
    (looseMeaning (.object offset list)).plain =
      .object () (list.map fun p => (p.1, p.2.looseMeaning.plain)) := by
  rw [looseMeaning_object, distinctMembers_of_nodup h, plain, mapMark_object, List.map_map]
  rfl

end Tree

@[simp] theorem printTree_array (mark : Unit) (items : List Value) (level : Nat) :
    printTree (.array mark items) level =
      printBlock level '[' ']' (items.map fun v => printTree v (level + 1)) := by
  simp [printTree, Function.comp_def]

@[simp] theorem printTree_object (mark : Unit) (members : List (Text × Value)) (level : Nat) :
    printTree (.object mark members) level =
      printBlock level '\x7b' '\x7d' (members.map fun m =>
        printString m.1 ++ [':', ' '] ++ printTree m.2 (level + 1)) := by
  simp [printTree, Function.comp_def]

theorem isBlankText_indentedLine (level : Nat) : IsBlankText (indentedLine level) := by
  intro c hc
  rcases List.mem_cons.1 hc with rfl | hc
  · rfl
  · rw [List.eq_of_mem_replicate hc]
    rfl

section

variable {literals : Literal → Prop} {room level : Nat}

/-- Wherever it stands, the text that is printed for a value at a level renders it. -/
def Value.IsRendered (literals : Literal → Prop) (room level : Nat) (v : Value) : Prop :=
  ∀ offset, ∃ tree : SpelledTree, tree.looseMeaning.plain = v ∧
    IsRendering literals room offset (.value tree) (printTree v level)

/-- Elements on lines of their own render an array. -/
theorem exists_elements {items : List Value} (hne : items ≠ [])
    (hitems : ∀ v ∈ items, v.IsRendered literals room (level + 1)) (offset : Nat) :
    ∃ trees : List SpelledTree, (trees.map fun t => t.looseMeaning.plain) = items ∧
      IsRendering literals room offset (.elements trees)
        ((List.intersperse [','] ((items.map fun v => printTree v (level + 1)).map
          (indentedLine (level + 1) ++ ·))).flatten ++ indentedLine level) := by
  have hline := isBlankText_indentedLine
  -- induction along the elements; the last one ends before the closing line, the others before a
  -- comma
  induction items generalizing offset with
  | nil => exact absurd rfl hne
  | cons v vs ih =>
      rw [List.forall_mem_cons] at hitems
      rcases hitems.1 (offset + (indentedLine (level + 1)).length) with ⟨tree, hv, htree⟩
      cases vs with
      | nil =>
          refine ⟨[tree], by rw [← hv]; rfl, ?_⟩
          -- the last element is followed by the line of the closing bracket
          have hlast := htree.padded (hline _) (hline level)
          simpa using hlast.lastElement
      | cons w ws =>
          -- behind any other element stands the comma at once
          have hfirst := htree.padded (hline _) isBlankText_nil
          rcases ih (by simp) hitems.2 _ with ⟨trees, hvs, htrees⟩
          refine ⟨tree :: trees, by rw [List.map_cons, hv, hvs], ?_⟩
          simpa using hfirst.nextElement htrees

/-- A printed name on a line of its own. -/
theorem Text.IsJoined.isName {name : Text} (h : name.IsJoined) (level : Nat) :
    name.IsName (indentedLine level ++ printString name) :=
  ⟨indentedLine level, name.flatMap printPoint, [], rfl, isBlankText_indentedLine level,
    h.isSpelled, isBlankText_nil⟩

/-- Members on lines of their own render an object. -/
theorem exists_members {members : List (Text × Value)} (hne : members ≠ [])
    (hnames : ∀ m ∈ members, m.1.IsJoined)
    (hvalues : ∀ m ∈ members, Value.IsRendered literals room (level + 1) m.2) (offset : Nat) :
    ∃ list : List (Text × SpelledTree),
      (list.map fun p => (p.1, p.2.looseMeaning.plain)) = members ∧
      IsRendering literals room offset (.members list)
        ((List.intersperse [','] ((members.map fun m =>
          printString m.1 ++ [':', ' '] ++ printTree m.2 (level + 1)).map
            (indentedLine (level + 1) ++ ·))).flatten ++ indentedLine level) := by
  have hline := isBlankText_indentedLine
  have hblank : IsBlankText [' '] := by simp [IsBlankText, isBlank]
  -- as for the elements; a member carries its name, the colon and one blank in front
  induction members generalizing offset with
  | nil => exact absurd rfl hne
  | cons m ms ih =>
      rcases m with ⟨name, v⟩
      rw [List.forall_mem_cons] at hnames hvalues
      have hname := hnames.1.isName (level + 1)
      rcases hvalues.1 (offset + (indentedLine (level + 1) ++ printString name).length + 1 +
        [' '].length) with ⟨tree, hv, htree⟩
      cases ms with
      | nil =>
          -- the last member is followed by the line of the closing brace
          refine ⟨[(name, tree)], congrArg (fun v => [(name, v)]) hv, ?_⟩
          have hlast := IsRendering.lastMember hname (htree.padded hblank (hline level))
          simpa using hlast
      | cons m' ms =>
          have hfirst := htree.padded hblank isBlankText_nil
          rcases ih (by simp) hnames.2 hvalues.2 _ with ⟨list, hms, hlist⟩
          refine ⟨(name, tree) :: list, by rw [List.map_cons, hv, hms], ?_⟩
          simpa using IsRendering.nextMember hname hfirst hlist

/-- What is printed for a value renders it. -/
theorem Value.IsPrintable.isRendered {v : Value} (h : v.IsPrintable room)
    (hleaves : ∀ s, v.HasLeaf s → ∀ literal : Literal, literal.Prints s → literals literal)
    (level : Nat) : v.IsRendered literals room level := by
  -- in a container there is less room, and its contents stand one level deeper
  induction h generalizing level with
  | @leaf room mark s hs =>
      intro offset
      rcases hs.exists_prints with ⟨literal, hliteral⟩
      refine ⟨.leaf offset literal, ?_, .leaf ?_ hliteral.isSpelled⟩
      · exact congrArg (Tree.leaf ()) hliteral.looseScalar
      · exact hleaves s (Tree.hasLeaf_leaf.2 rfl) literal hliteral
  | @array room mark items _ ih =>
      intro offset
      rw [printTree_array, printBlock]
      by_cases hne : items = []
      · rw [if_pos (by simp [hne])]
        exact ⟨.array offset [], by rw [hne]; rfl, .emptyArray isBlankText_nil⟩
      · have hitems : ∀ v ∈ items, Value.IsRendered literals room (level + 1) v := by
          intro v hv
          exact ih v hv (fun s hs => hleaves s (Tree.hasLeaf_array.2 ⟨v, hv, hs⟩)) _
        rcases exists_elements hne hitems (offset + 1) with ⟨trees, rfl, htrees⟩
        rw [if_neg (by simpa using hne)]
        exact ⟨.array offset trees, Tree.plain_looseMeaning_array .., .array htrees⟩
  | @object room mark members hnodup hnames _ ih =>
      intro offset
      rw [printTree_object, printBlock]
      by_cases hne : members = []
      · rw [if_pos (by simp [hne])]
        exact ⟨.object offset [], by rw [hne]; rfl, .emptyObject isBlankText_nil⟩
      · have hvalues : ∀ m ∈ members, Value.IsRendered literals room (level + 1) m.2 := by
          intro m hm
          exact ih m hm (fun s hs => hleaves s (Tree.hasLeaf_object.2 ⟨m, hm, hs⟩)) _
        rcases exists_members hne hnames hvalues (offset + 1) with ⟨list, rfl, hlist⟩
        -- as no name is repeated, all members count
        have hnodup' : (list.map Prod.fst).Nodup := by simpa [Function.comp_def] using hnodup
        rw [if_neg (by simpa using hne)]
        exact ⟨.object offset list, Tree.plain_looseMeaning_object hnodup', .object hlist⟩

end

/-! ## Documents -/

/-- A printed value with the end of its line is a rendering of literals that are printed for its
scalars. -/
theorem exists_isRendering_printJson {room : Nat} {v : Value} (h : v.IsPrintable room) :
    ∃ tree : SpelledTree, tree.looseMeaning.plain = v ∧
      IsRendering (fun literal => ∃ s, v.HasLeaf s ∧ literal.Prints s) room 0 (.padded tree)
        (printJson v ++ ['\n']) := by
  have hblank : IsBlankText ['\n'] := by simp [IsBlankText, isBlank]
  have hleaves : ∀ s, v.HasLeaf s → ∀ literal : Literal, literal.Prints s →
      ∃ s, v.HasLeaf s ∧ literal.Prints s :=
    fun s hs literal hliteral => ⟨s, hs, hliteral⟩
  rcases h.isRendered hleaves 0 0 with ⟨tree, hv, htree⟩
  exact ⟨tree, hv, htree.padded isBlankText_nil hblank⟩

/-- A printed value is read back. -/
theorem readLoosely_printJson {levels : Nat} {v : Value} (h : v.IsPrintable levels) :
    readLoosely levels (printJson v ++ ['\n']) = .ok v := by
  rcases exists_isRendering_printJson h with ⟨tree, hv, htree⟩
  rw [readLoosely, htree.readSpelled_eq, ← hv]
  rfl

/-- If a printed value is a document of JSON, with whatever limits, then all doubles in it are
finite. -/
theorem isFinite_of_isJson_printJson {numbers : Numeral → Prop} {room room' : Nat} {v : Value}
    {s : Scalar} (h : v.IsPrintable room)
    (hjson : IsJson IsStringBody numbers room' .padded (printJson v ++ ['\n']))
    (hs : v.HasLeaf s) : s.isFinite = true := by
  rcases exists_isRendering_printJson h with ⟨tree, hv, htree⟩
  rw [← hv, Tree.plain, Tree.hasLeaf_mapMark] at hs
  rcases Tree.exists_leaf_of_looseMeaning hs with ⟨literal, hleaf, rfl⟩
  rcases htree.of_hasLeaf hleaf with ⟨s, -, hprints⟩
  rw [hprints.looseScalar]
  -- otherwise the scalar would be printed as a word that JSON does not have
  by_contra hinfinite
  have hforeign : literal.isForeign = true := by simpa [hprints.isForeign_eq] using hinfinite
  exact hjson.not_isForeign htree ⟨literal, hleaf, hforeign⟩

/-- A printed value in which all doubles are finite is a document of JSON. -/
theorem isJson_printJson {room : Nat} {v : Value} (h : v.IsPrintable room)
    (hfinite : ∀ s, v.HasLeaf s → s.isFinite = true) :
    IsJson IsStringBody Numeral.IsWithinLimit room .padded (printJson v ++ ['\n']) := by
  rcases exists_isRendering_printJson h with ⟨tree, -, htree⟩
  have hliterals : ∀ literal : Literal, (∃ s, v.HasLeaf s ∧ literal.Prints s) →
      literal.IsJson Numeral.IsWithinLimit := by
    rintro literal ⟨s, hs, hprints⟩
    apply hprints.isSpelled.isJson
    rw [hprints.isForeign_eq, hfinite s hs]
    rfl
  exact (htree.mono hliterals).isJson

end ComponentMarkup
