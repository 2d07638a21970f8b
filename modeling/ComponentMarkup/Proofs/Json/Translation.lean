import ComponentMarkup.Proofs.Json.Decode
import ComponentMarkup.Proofs.Json.Spelling
import ComponentMarkup.Proofs.Text.Behind

/-!
# Decoding behind white space

White space in front of a text does not change what is decoded, but moves every node of it
(`decodeJson_blank_append`). We follow the offsets through all stages: cutting a text into lexemes,
the grammar, and the passes over a tree all carry marks along without a look at them.
-/

namespace ComponentMarkup

open ComponentMarkup.Tree (Subtree collapse distinctMembers mapLeaves? mapMark sequenceItems
  sequenceMembers setMember)

/-! ## Lexemes -/

/-- A lexeme with another offset. -/
def Lexeme.mapStart (f : Nat → Nat) (l : Lexeme) : Lexeme := ⟨f l.start, l.token⟩

/-- A token that is whole is the same at any offset. -/
theorem scanToken_move {offset : Nat} (offset' : Nat) {c : Char} {cs : List Char}
    (h : (scanToken offset c cs).1.isBroken = false) :
    scanToken offset' c cs = scanToken offset c cs := by
  -- only a string token depends on where it stands, through the offset of its stop; its length does
  -- not
  by_cases hc : c ∈ tokenMarks
  · rcases List.mem_cons.1 hc with rfl | hsingle
    · cases hscan : scanString offset (offset + 1) cs with
      | error fault => simp [scanToken, hscan, Token.isBroken] at h
      | ok r =>
          have hle : offset ≤ offset + 1 := Nat.le_succ _
          rcases exists_body_of_scanString hscan hle with ⟨body, rest, rfl, hbody, -⟩
          rcases hbody.exists_scanString with ⟨t, ht⟩
          -- the length is a difference of two offsets, and both moved
          have hlen : offset' + 1 + body.length - offset' = offset + 1 + body.length - offset := by
            omega
          simp only [scanToken, ht, hlen]
    · rcases exists_scanToken_single hsingle with ⟨token, htoken⟩
      rw [htoken, htoken]
  · rw [scanToken_word hc, scanToken_word hc]

/-- Lexemes that are whole are the same at another offset, where they start so much later. -/
theorem lexemesFrom_move {f : Nat → Nat} (skip : Nat) {offset offset' : Nat} {cs : List Char}
    (hf : ∀ i, f (offset + i) = offset' + i)
    (h : ∀ l ∈ lexemesFrom skip offset cs, l.token.isBroken = false) :
    lexemesFrom skip offset' cs = (lexemesFrom skip offset cs).map (Lexeme.mapStart f) := by
  -- induction along the text; the hypothesis on `f` is passed on for the next offset
  induction cs generalizing skip offset offset' with
  | nil => rfl
  | cons c cs ih =>
      have hnext : ∀ i, f (offset + 1 + i) = offset' + 1 + i := by
        intro i
        rw [Nat.add_assoc, hf, Nat.add_assoc]
      simp only [lexemesFrom] at h ⊢
      -- skipped and blank characters emit nothing on either side
      split at h
      · next hskip => rw [if_pos hskip, if_pos hskip, ih _ hnext h]
      · next hskip =>
        rw [if_neg hskip, if_neg hskip]
        split at h
        · next hblank => rw [if_pos hblank, if_pos hblank, ih _ hnext h]
        · next hblank =>
          rw [if_neg hblank, if_neg hblank]
          -- the lexeme is whole, so the scan does not stop, and it reads the same token at the new
          -- offset
          have hwhole := h _ (List.mem_cons_self ..)
          have hrest := fun l hl => h l (List.mem_cons_of_mem _ hl)
          have hstart : f offset = offset' := hf 0
          rw [if_neg (by simp [hwhole])] at hrest
          rw [scanToken_move offset' hwhole, List.map_cons, Lexeme.mapStart, hstart,
            if_neg (by simp [hwhole]), if_neg (by simp [hwhole]), ih _ hnext hrest]

/-! ## Grammar -/

/-- A phrase with other marks. -/
def Phrase.mapMark (f : Nat → Nat) : Phrase → Phrase
  | .value tree => .value (tree.mapMark f)
  | .items trees => .items (trees.map (Tree.mapMark f))
  | .members list => .members (list.map fun m => (m.1, m.2.mapMark f))

/-- Lexemes with other offsets spell the phrase with other marks. -/
theorem Spells.mapMark (f : Nat → Nat) {room : Nat} {ls : List Lexeme} {p : Phrase}
    (h : Spells room ls p) : Spells room (ls.map (Lexeme.mapStart f)) (p.mapMark f) := by
  -- one case per grammar rule; relabelling commutes with every way of putting phrases together
  induction h with
  | leaf => exact .leaf
  | emptyArray =>
      simp only [Phrase.mapMark, Tree.mapMark_array]
      exact .emptyArray
  | array _ ih =>
      simp only [Phrase.mapMark, Tree.mapMark_array]
      exact .array ih
  | emptyObject =>
      simp only [Phrase.mapMark, Tree.mapMark_object]
      exact .emptyObject
  | object _ ih =>
      simp only [Phrase.mapMark, Tree.mapMark_object]
      exact .object ih
  | lastItem _ ih =>
      rw [List.map_append]
      exact .lastItem ih
  | nextItem _ _ ih ihmore =>
      rw [List.map_append]
      exact .nextItem ih ihmore
  | lastMember _ ih =>
      rw [List.map_append]
      exact .lastMember ih
  | nextMember _ _ ih ihmore =>
      rw [List.map_append]
      exact .nextMember ih ihmore

/-! ## Passes over a tree -/

namespace Tree

variable {ι κ σ τ α β : Type}

theorem sequenceItems_map (f : α → β) (os : List (Option α)) :
    sequenceItems (os.map (Option.map f)) = (sequenceItems os).map (List.map f) := by
  induction os with
  | nil => rfl
  | cons o os ih =>
      cases o with
      | none => rfl
      | some v => cases hrest : sequenceItems os <;> simp [sequenceItems, ih, hrest]

theorem sequenceMembers_map (f : α → β) (os : List (Text × Option α)) :
    sequenceMembers (os.map fun p => (p.1, p.2.map f)) =
      (sequenceMembers os).map (List.map fun p => (p.1, f p.2)) := by
  induction os with
  | nil => rfl
  | cons o os ih =>
      rcases o with ⟨name, o⟩
      cases o with
      | none => rfl
      | some v => cases hrest : sequenceMembers os <;> simp [sequenceMembers, ih, hrest]

/-- Changing the leaves of a tree carries its marks along. -/
theorem mapLeaves?_mapMark (f : ι → κ) (g : σ → Option τ) (t : Tree ι σ) :
    mapLeaves? g (mapMark f t) = (mapLeaves? g t).map (mapMark f) := by
  -- induction on the tree: changing a child and relabelling it may be done in either order
  induction t using nodeInduction with
  | leaf m v => cases hv : g v <;> simp [mapLeaves?_leaf, hv]
  | array m items ih =>
      have hitems : items.map (mapLeaves? g ∘ mapMark f) =
          (items.map (mapLeaves? g)).map (Option.map (mapMark f)) := by
        rw [List.map_map]
        exact List.map_congr_left ih
      rw [mapMark_array, mapLeaves?_array, mapLeaves?_array, List.map_map, hitems,
        sequenceItems_map, Option.map_map, Option.map_map]
      congr 1
      funext vs
      exact (mapMark_array ..).symm
  | object m members ih =>
      have hmembers : members.map ((fun p => (p.1, mapLeaves? g p.2)) ∘
            fun p => (p.1, mapMark f p.2)) =
          (members.map fun p => (p.1, mapLeaves? g p.2)).map
            fun p => (p.1, p.2.map (mapMark f)) := by
        rw [List.map_map]
        exact List.map_congr_left fun p hp => congrArg (Prod.mk p.1) (ih p hp)
      rw [mapMark_object, mapLeaves?_object, mapLeaves?_object, List.map_map, hmembers,
        sequenceMembers_map, Option.map_map, Option.map_map]
      congr 1
      funext vs
      exact (mapMark_object ..).symm

theorem setMember_map (f : α → β) (name : Text) (value : α) (members : List (Text × α)) :
    setMember name (f value) (members.map fun p => (p.1, f p.2)) =
      (setMember name value members).map fun p => (p.1, f p.2) := by
  induction members with
  | nil => rfl
  | cons m ms ih =>
      simp only [List.map_cons, setMember]
      split
      · rfl
      · rw [ih, List.map_cons]

theorem distinctMembers_map (f : α → β) (members : List (Text × α)) :
    distinctMembers (members.map fun p => (p.1, f p.2)) =
      (distinctMembers members).map fun p => (p.1, f p.2) := by
  -- what is kept so far is carried along
  have hall : ∀ acc : List (Text × α),
      (members.map fun p => (p.1, f p.2)).foldl (fun acc m => setMember m.1 m.2 acc)
          (acc.map fun p => (p.1, f p.2)) =
        (members.foldl (fun acc m => setMember m.1 m.2 acc) acc).map fun p => (p.1, f p.2) := by
    induction members with
    | nil => exact fun acc => rfl
    | cons m ms ih =>
        intro acc
        have hset := setMember_map f m.1 m.2 acc
        rw [List.map_cons, List.foldl_cons, List.foldl_cons, ← ih, ← hset]
  exact hall []

/-- Leaving one member of each name carries the marks along. -/
theorem collapse_mapMark (f : ι → κ) (t : Tree ι σ) :
    collapse (mapMark f t) = mapMark f (collapse t) := by
  -- collapsing looks at names only, and relabelling leaves the names alone
  induction t using nodeInduction with
  | leaf m v => rfl
  | array m items ih =>
      simp only [mapMark_array, collapse_array, List.map_map, array.injEq, true_and]
      exact List.map_congr_left ih
  | object m members ih =>
      have hmembers : members.map ((fun p => (p.1, collapse p.2)) ∘
            fun p => (p.1, mapMark f p.2)) =
          (members.map fun p => (p.1, collapse p.2)).map fun p => (p.1, mapMark f p.2) := by
        rw [List.map_map]
        exact List.map_congr_left fun p hp => congrArg (Prod.mk p.1) (ih p hp)
      rw [mapMark_object, collapse_object, collapse_object, mapMark_object, List.map_map, hmembers,
        distinctMembers_map]

/-- What a tree means carries its marks along. -/
theorem meaning?_mapMark (f : Nat → Nat) (t : SpelledTree) :
    (t.mapMark f).meaning? = t.meaning?.map (mapMark f) := by
  rw [meaning?, meaning?, mapLeaves?_mapMark]
  cases mapLeaves? Literal.scalar? t with
  | none => rfl
  | some changed => exact congrArg some (collapse_mapMark f changed)

end Tree

/-! ## Decoding -/

/-- The nodes of what a text means stand within the text. -/
theorem mark_lt_of_meaning? {room : Nat} {text : List Char} {tree : SpelledTree}
    {meaning u : Tree Nat Scalar} (h : Spells room (lexemes text) (.value tree))
    (hmeans : tree.meaning? = some meaning) (hu : Subtree u meaning) : u.mark < text.length := by
  -- the node came from a phrase of the grammar, which begins with one of its own lexemes
  rcases Subtree.of_meaning? hmeans hu with ⟨w, hw, hmeans'⟩
  rcases h.exists_subtree hw with ⟨before, used, after, hlex, hused⟩
  rcases hused.head_start with ⟨token, more, rfl⟩
  rw [List.append_assoc, List.cons_append] at hlex
  rcases exists_lexeme hlex with ⟨k, c, rest, hstart, hdrop, -⟩
  -- that lexeme begins at a character of the text, so its offset lies inside
  have hk : k < text.length := by
    rcases Nat.lt_or_ge k text.length with hlt | hge
    · exact hlt
    · rw [List.drop_eq_nil_of_le hge] at hdrop
      cases hdrop
  rw [Tree.mark_of_meaning? hmeans']
  simp only at hstart
  omega

/-- A text that decodes behind white space also decodes alone. -/
theorem exists_decodeJson_of_blank_append {room : Nat} {blanks text : List Char}
    {root : LocatedTree} (hblanks : ∀ c ∈ blanks, isBlank c = true)
    (h : decodeJson room (blanks ++ text) = .ok root) :
    ∃ alone, decodeJson room text = .ok alone := by
  rcases decodeJson_eq_ok_iff.1 h with ⟨tree, meaning, hspells, hcalls, hmeans, rfl⟩
  -- dropping the blanks moves every offset back by their number
  have hmove : ∀ i, 0 + blanks.length + i - blanks.length = 0 + i := by
    intro i
    omega
  have hbehind : lexemes (blanks ++ text) = lexemesFrom 0 (0 + blanks.length) text :=
    lexemesFrom_blank hblanks 0 text
  rw [hbehind] at hspells
  have hlex : lexemes text =
      (lexemesFrom 0 (0 + blanks.length) text).map (Lexeme.mapStart (· - blanks.length)) :=
    lexemesFrom_move 0 hmove hspells.isBroken_eq_false
  -- grammar, recursion room and meaning do not look at offsets, so all three carry over
  refine ⟨_, decodeJson_eq_ok_iff.2 ⟨tree.mapMark (· - blanks.length),
    meaning.mapMark (· - blanks.length), ?_, ?_, ?_, rfl⟩⟩
  · rw [hlex]
    exact hspells.mapMark _
  · rw [Tree.calls_mapMark]
    exact hcalls
  · rw [Tree.meaning?_mapMark, hmeans]
    rfl

/-- Behind white space a text decodes to the same tree, every node of which stands behind the white
space. -/
theorem decodeJson_blank_append {room : Nat} {blanks text : List Char} {root : LocatedTree}
    (hblanks : ∀ c ∈ blanks, isBlank c = true) (hhead : text.head? ≠ some '\n')
    (h : decodeJson room text = .ok root) :
    decodeJson room (blanks ++ text) = .ok (root.mapMark (Place.behind blanks)) := by
  rcases decodeJson_eq_ok_iff.1 h with ⟨tree, meaning, hspells, hcalls, hmeans, rfl⟩
  -- putting blanks in front moves every offset on by their number
  have hmove : ∀ i, blanks.length + (0 + i) = 0 + blanks.length + i := by
    intro i
    omega
  have hlex : lexemes (blanks ++ text) =
      (lexemes text).map (Lexeme.mapStart (blanks.length + ·)) := by
    rw [lexemes, lexemesFrom_blank hblanks,
      lexemesFrom_move 0 hmove hspells.isBroken_eq_false]
    rfl
  refine decodeJson_eq_ok_iff.2 ⟨tree.mapMark (blanks.length + ·),
    meaning.mapMark (blanks.length + ·), ?_, ?_, ?_, ?_⟩
  · rw [hlex]
    exact hspells.mapMark _
  · rw [Tree.calls_mapMark]
    exact hcalls
  · rw [Tree.meaning?_mapMark, hmeans]
    rfl
  · -- the places are computed from the offsets; the blanks move each place as `Place.behind` says
    rw [locate_eq_mapMark, locate_eq_mapMark, Tree.mapMark_mapMark, Tree.mapMark_mapMark]
    apply Tree.mapMark_congr
    intro u hu
    -- `placeAt_append` needs the offset inside the text, which a node of a document always is
    have hlt := mark_lt_of_meaning? hspells hmeans hu
    exact (placeAt_append hhead (Nat.le_of_lt hlt)).symm

end ComponentMarkup
