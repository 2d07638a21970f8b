import ComponentMarkup.Proofs.Json.Denotation
import ComponentMarkup.Proofs.Json.ValueAt

/-!
# The positions of a decoded value

The place of every node of a decoded value points at the text of this node: it names a character of
the text by line and column, and reading one value from this character on gives the value of the
node (`PointsAt`), also where the node has replaced an earlier member of its name. In a text that
repeats no name nothing is replaced, so the nodes come in the order in which they are written
(`decodeJson_positions`). The order is that of the lexemes, which each stage carries along: a value
has the offset of its first lexeme, its members and elements follow one another, and a later
character has a later place.
-/

namespace ComponentMarkup

open ComponentMarkup.Tree (Subtree fold fold_array fold_leaf fold_object looseMeaning_array
  looseMeaning_object mapMark_array mapMark_object nodeInduction)

/-! ## The order of places -/

/-- This place comes before that one: it is in an earlier line, or further left in the same line. -/
def Place.Before (p q : Place) : Prop := p.line < q.line ∨ p.line = q.line ∧ p.column < q.column

section

variable {ends : LineEnd} {line column : Nat} {text : List Char}

/-- No character of a text stands further left in the first line than the first one. -/
theorem of_mem_placesFrom {p : Place} (h : p ∈ placesFrom ends line column text) :
    (line : Int) < p.line ∨ p.line = line ∧ (column : Int) ≤ p.column := by
  -- induction on the text behind the current place; a character either ends the line or moves one
  -- column
  induction text generalizing column with
  | nil =>
      obtain rfl := List.mem_singleton.1 h
      exact .inr ⟨rfl, Int.le_refl _⟩
  | cons c cs ih =>
      rw [placesFrom] at h
      rcases List.mem_cons.1 h with rfl | h
      · exact .inr ⟨rfl, Int.le_refl _⟩
      · split at h
        · -- a new line: all later places are further down, whatever their column
          have hle := le_line_of_mem_placesFrom h
          left
          omega
        · have hnext := ih h
          omega

/-- The characters of a text are placed one after the other. -/
theorem pairwise_placesFrom : (placesFrom ends line column text).Pairwise Place.Before := by
  induction text generalizing line column with
  | nil => exact List.pairwise_singleton ..
  | cons c cs ih =>
      rw [placesFrom]
      refine List.pairwise_cons.2 ⟨?_, ?_⟩
      · -- the current place lies before every later one; the later ones are ordered by induction
        intro p hp
        split at hp
        · have hle := le_line_of_mem_placesFrom hp
          left
          show (line : Int) < p.line
          omega
        · rcases of_mem_placesFrom hp with hbelow | ⟨hsame, hle⟩
          · exact .inl hbelow
          · refine .inr ⟨hsame.symm, ?_⟩
            show (column : Int) < p.column
            omega
      · split
        · exact ih
        · exact ih

/-- Of two characters of a text the one in front is placed before the other. -/
theorem placeAt_before {i j : Nat} (hij : i < j) (hj : j < text.length) :
    (placeAt ends text i).Before (placeAt ends text j) := by
  have hlen : (places ends text).length = text.length + 1 := length_places ..
  have hi' : i < (places ends text).length := by omega
  have hj' : j < (places ends text).length := by omega
  have hordered : (places ends text).Pairwise Place.Before := pairwise_placesFrom
  have hbefore := List.pairwise_iff_getElem.1 hordered i j hi' hj' hij
  rw [placeAt, placeAt, List.getElem?_eq_getElem hi', List.getElem?_eq_getElem hj']
  exact hbefore

end

/-- What stands at a column of a line stands so far behind the lines above it. -/
theorem getElem?_flatten_of_line {lines : List (List Char)} {cs : List Char} {row col : Nat}
    (hline : lines[row]? = some cs) (hcol : col < cs.length) :
    lines.flatten[(lines.take row).flatten.length + col]? = cs[col]? := by
  rcases List.getElem?_eq_some_iff.1 hline with ⟨hrow, rfl⟩
  have hsplit : lines.flatten = (lines.take row).flatten ++
      (lines[row] ++ (lines.drop (row + 1)).flatten) := by
    rw [← List.flatten_cons, ← List.drop_eq_getElem_cons hrow, ← List.flatten_append,
      List.take_append_drop]
  rw [hsplit, List.getElem?_append_right (Nat.le_add_right ..), Nat.add_sub_cancel_left,
    List.getElem?_append_left hcol]

/-- The character that a place names stands in the line and at the column that it gives. -/
theorem Place.getElem?_of_offset? {text : List Char} {p : Place} {offset : Nat}
    (h : p.offset? text = some offset) :
    ∃ cs, (cutLines text)[(p.line - 1).toNat]? = some cs ∧
      cs[(p.column - 1).toNat]? = text[offset]? := by
  simp only [offset?] at h
  split at h
  · next hin =>
    obtain rfl := Option.some.inj h
    -- a missing line counts as empty, and then the check of the column would have failed
    rcases hin with ⟨-, -, hcolumn⟩
    cases hline : (cutLines text)[(p.line - 1).toNat]? with
    | none =>
        rw [List.getD_eq_getElem?_getD, hline] at hcolumn
        exact absurd hcolumn (Nat.not_lt_zero _)
    | some cs =>
        rw [List.getD_eq_getElem?_getD, hline, Option.getD_some] at hcolumn
        have hsame := getElem?_flatten_of_line hline hcolumn
        rw [flatten_cutLines] at hsame
        exact ⟨cs, rfl, hsame.symm⟩
  · cases h

/-! ## The order of lexemes -/

/-- No lexeme starts in front of the text that it is cut from. -/
theorem le_start_of_mem_lexemesFrom {skip offset : Nat} {cs : List Char} {l : Lexeme}
    (h : l ∈ lexemesFrom skip offset cs) : offset ≤ l.start := by
  induction cs generalizing skip offset with
  | nil => cases h
  | cons c cs ih =>
      rw [lexemesFrom] at h
      split at h
      · -- inside a lexeme or at a blank nothing is emitted, and the offset has moved on by one
        exact Nat.le_of_succ_le (ih h)
      · split at h
        · exact Nat.le_of_succ_le (ih h)
        · rcases hscan : scanToken offset c cs with ⟨token, length⟩
          rw [hscan] at h
          -- the lexeme found here starts at the offset itself; all others come from behind it
          rcases List.mem_cons.1 h with rfl | h
          · exact Nat.le_refl _
          · split at h
            · cases h
            · exact Nat.le_of_succ_le (ih h)

/-- The lexemes of a text start one after the other. -/
theorem pairwise_lexemesFrom (skip offset : Nat) (cs : List Char) :
    ((lexemesFrom skip offset cs).map Lexeme.start).Pairwise (· < ·) := by
  induction cs generalizing skip offset with
  | nil => exact .nil
  | cons c cs ih =>
      rw [lexemesFrom]
      split
      · exact ih ..
      · split
        · exact ih ..
        · rcases scanToken offset c cs with ⟨token, length⟩
          refine List.pairwise_cons.2 ⟨?_, ?_⟩
          · intro start hstart
            -- every lexeme behind this one starts at a greater offset
            rcases List.mem_map.1 hstart with ⟨l, hl, rfl⟩
            split at hl
            · cases hl
            · exact le_start_of_mem_lexemesFrom hl
          · split
            · exact .nil
            · exact ih ..

/-! ## Nodes in order -/

namespace Tree

variable {ι κ σ : Type}

/-- The marks of all nodes of a tree: that of a node comes first, then those of its elements or
members, one after the other. -/
def marks : Tree ι σ → List ι :=
  fold (fun m _ => [m]) (fun m items => m :: items.flatten)
    fun m members => m :: members.flatMap Prod.snd

@[simp] theorem marks_leaf (m : ι) (v : σ) : marks (.leaf m v) = [m] := rfl

@[simp] theorem marks_array (m : ι) (items : List (Tree ι σ)) :
    marks (.array m items) = m :: items.flatMap marks := by
  simp [marks, List.flatMap]

@[simp] theorem marks_object (m : ι) (members : List (Text × Tree ι σ)) :
    marks (.object m members) = m :: members.flatMap fun p => p.2.marks := by
  simp [marks, List.flatMap_map]

/-- These are the marks of the nodes. -/
theorem exists_subtree_of_mem_marks {t : Tree ι σ} {m : ι} (h : m ∈ t.marks) :
    ∃ u, Subtree u t ∧ u.mark = m := by
  induction t using nodeInduction with
  -- the marks of a node are its own and those below it, as its subtrees are itself and those below
  | leaf mark value =>
      obtain rfl := List.mem_singleton.1 h
      exact ⟨_, .self, rfl⟩
  | array mark items ih =>
      rw [marks_array] at h
      rcases List.mem_cons.1 h with rfl | h
      · exact ⟨_, .self, rfl⟩
      · rcases List.mem_flatMap.1 h with ⟨t, ht, hm⟩
        rcases ih t ht hm with ⟨u, hu, hmark⟩
        exact ⟨u, .item ht hu, hmark⟩
  | object mark members ih =>
      rw [marks_object] at h
      rcases List.mem_cons.1 h with rfl | h
      · exact ⟨_, .self, rfl⟩
      · rcases List.mem_flatMap.1 h with ⟨p, hp, hm⟩
        rcases ih p hp hm with ⟨u, hu, hmark⟩
        exact ⟨u, .member hp hu, hmark⟩

theorem marks_mapMark (f : ι → κ) (t : Tree ι σ) : (t.mapMark f).marks = t.marks.map f := by
  induction t using nodeInduction with
  | leaf m v => rfl
  | array m items ih =>
      rw [mapMark_array, marks_array, marks_array, List.map_cons, List.flatMap_map,
        List.map_flatMap, List.flatMap_congr ih]
  | object m members ih =>
      rw [mapMark_object, marks_object, marks_object, List.map_cons, List.flatMap_map,
        List.map_flatMap, List.flatMap_congr ih]

/-- No object of a tree repeats a name. -/
def RepeatsNoName (t : Tree ι σ) : Prop :=
  ∀ mark members, Subtree (.object mark members) t → (members.map Prod.fst).Nodup

@[simp] theorem repeatsNoName_leaf (m : ι) (v : σ) : RepeatsNoName (.leaf m v) := by
  intro mark members hsub
  cases hsub

@[simp] theorem repeatsNoName_array {m : ι} {items : List (Tree ι σ)} :
    RepeatsNoName (.array m items) ↔ ∀ t ∈ items, RepeatsNoName t := by
  constructor
  · intro h t ht mark members hsub
    exact h mark members (.item ht hsub)
  · intro h mark members hsub
    cases hsub with
    | item ht hsub => exact h _ ht mark members hsub

@[simp] theorem repeatsNoName_object {m : ι} {members : List (Text × Tree ι σ)} :
    RepeatsNoName (.object m members) ↔
      (members.map Prod.fst).Nodup ∧ ∀ p ∈ members, RepeatsNoName p.2 := by
  constructor
  · intro h
    refine ⟨h m members .self, ?_⟩
    intro p hp mark list hsub
    exact h mark list (.member hp hsub)
  · rintro ⟨hnames, h⟩ mark list hsub
    cases hsub with
    | self => exact hnames
    | member hp hsub => exact h _ hp mark list hsub

/-- Whether a name is repeated can be found out from the leaves up. -/
theorem fold_eq_true_iff_repeatsNoName {t : Tree ι σ} :
    t.fold (fun _ _ => true) (fun _ items => items.all id)
        (fun _ members => decide (members.map Prod.fst).Nodup && members.all Prod.snd) = true ↔
      t.RepeatsNoName := by
  induction t using nodeInduction with
  | leaf m v => simp
  | array m items ih =>
      rw [fold_array, repeatsNoName_array, List.all_map, List.all_eq_true]
      exact forall₂_congr ih
  | object m members ih =>
      rw [fold_object, repeatsNoName_object, Bool.and_eq_true, decide_eq_true_iff, List.map_map,
        List.all_map, List.all_eq_true]
      exact and_congr_right' (forall₂_congr ih)

instance (t : Tree ι σ) : Decidable t.RepeatsNoName :=
  decidable_of_iff _ fold_eq_true_iff_repeatsNoName

/-- If no name is repeated, what a tree means has all nodes of the tree, in the same order. -/
theorem marks_looseMeaning {t : SpelledTree} (h : t.RepeatsNoName) :
    t.looseMeaning.marks = t.marks := by
  induction t using nodeInduction with
  | leaf m v => rfl
  | array m items ih =>
      rw [repeatsNoName_array] at h
      -- no child loses a node, and with different names no child is dropped either
      have hitems : ∀ t ∈ items, t.looseMeaning.marks = t.marks := fun t ht => ih t ht (h t ht)
      rw [looseMeaning_array, marks_array, marks_array, List.flatMap_map,
        List.flatMap_congr hitems]
  | object m members ih =>
      rw [repeatsNoName_object] at h
      rcases h with ⟨hnames, h⟩
      have hmembers : ∀ p ∈ members, p.2.looseMeaning.marks = p.2.marks :=
        fun p hp => ih p hp (h p hp)
      -- this is the only place where the names matter: repeated ones would be collapsed
      rw [looseMeaning_object, distinctMembers_of_nodup hnames, marks_object, marks_object,
        List.flatMap_map, List.flatMap_congr hmembers]

/-- The nodes of what a tree means are those of the tree, if no name is repeated. -/
theorem marks_of_meaning? {t : SpelledTree} {v : Tree Nat Scalar} (h : t.meaning? = some v)
    (hnames : t.RepeatsNoName) : v.marks = t.marks := by
  rcases Option.map_eq_some_iff.1 h with ⟨changed, hchanged, -⟩
  have hloose : t.meaning? = some t.looseMeaning := by
    apply meaning?_eq_looseMeaning
    rw [hchanged]
    rfl
  obtain rfl : t.looseMeaning = v := Option.some.inj (hloose.symm.trans h)
  exact marks_looseMeaning hnames

end Tree

/-- The marks of the values of a phrase. -/
def Phrase.marks : Phrase → List Nat
  | .value tree => tree.marks
  | .items trees => trees.flatMap Tree.marks
  | .members list => list.flatMap fun p => p.2.marks

/-- The values of a phrase are marked with offsets of its lexemes, in their order. -/
theorem Spells.marks_sublist {room : Nat} {ls : List Lexeme} {p : Phrase}
    (h : Spells room ls p) : p.marks.Sublist (ls.map Lexeme.start) := by
  induction h with
  | leaf => exact .refl _
  | emptyArray => simp [Phrase.marks]
  | array _ ih =>
      simp only [Phrase.marks, Tree.marks_array, List.map_cons]
      exact ih.cons_cons _
  | emptyObject => simp [Phrase.marks]
  | object _ ih =>
      -- the name and the colon are no values
      simp only [Phrase.marks, Tree.marks_object, List.map_cons]
      exact ((ih.cons _).cons _).cons_cons _
  | lastItem _ ih =>
      simp only [Phrase.marks, List.flatMap_singleton, List.map_append]
      exact ih.trans (List.sublist_append_left ..)
  | nextItem _ _ ih ihmore =>
      simp only [Phrase.marks, List.flatMap_cons, List.map_append, List.map_cons]
      exact ih.append (ihmore.cons _)
  | lastMember _ ih =>
      simp only [Phrase.marks, List.flatMap_singleton, List.map_append]
      exact ih.trans (List.sublist_append_left ..)
  | nextMember _ _ ih ihmore =>
      simp only [Phrase.marks, List.flatMap_cons, List.map_append, List.map_cons] at ihmore ⊢
      exact ih.append (((ihmore.cons _).cons _).cons _)

/-! ## Decoded values -/

/-- No object of a text that is read as a value, with containers nested at most `levels` deep,
repeats a name. -/
def RepeatsNoName (levels : Nat) (text : List Char) : Prop :=
  ∀ tree, readSpelled levels text = .ok tree → tree.RepeatsNoName

instance (levels : Nat) : DecidablePred (RepeatsNoName levels) := fun text =>
  match hread : readSpelled levels text with
  | .ok tree => decidable_of_iff tree.RepeatsNoName <| by
      simp only [RepeatsNoName, hread, Except.ok.injEq, forall_eq']
  | .error _ => isTrue fun tree htree => by
      rw [hread] at htree
      cases htree

/-- The place of a node points at its text: line and column count from one, the line exists, the
character at this column of the line is that of the text at the offset, and no blank, and reading
one value from there gives the value of the node. -/
structure PointsAt (levels : Nat) (text : List Char) (node : LocatedTree) (offset : Nat) :
    Prop where
  counts : 1 ≤ node.mark.line ∧ 1 ≤ node.mark.column
  named : node.mark.offset? text = some offset
  inLine : ∃ cs c, (cutLines text)[(node.mark.line - 1).toNat]? = some cs ∧
    cs[(node.mark.column - 1).toNat]? = some c ∧ text[offset]? = some c ∧ isBlank c = false
  reads : ∃ value stop, valueAt? levels text offset = some (value, stop) ∧ value.mark = offset ∧
    value.plain = node.plain

section

variable {room : Nat} {text : List Char} {root : LocatedTree}

theorem exists_pointsAt {node : LocatedTree} (h : decodeJson room text = .ok root)
    (hnode : Subtree node root) : ∃ offset, PointsAt (levelLimit room) text node offset := by
  rcases decodeJson_eq_ok_iff.1 h with ⟨tree, meaning, hspells, -, hmeans, rfl⟩
  rw [locate_eq_mapMark] at hnode
  rcases Subtree.of_mapMark hnode with ⟨value, hvalue, rfl⟩
  -- the node is what a node of the tree as spelled means, so it can be read alone
  rcases Subtree.of_meaning? hmeans hvalue with ⟨u, hu, hmeans'⟩
  have hlex : lexemesFrom 0 0 (text.drop 0) = lexemes text ++ [] := (List.append_nil _).symm
  rcases exists_valueAt?_of_subtree hlex hspells (Nat.le_refl _) hu hmeans' with ⟨stop, hread⟩
  rw [← Tree.mark_of_meaning? hmeans'] at hread
  rcases getElem?_of_valueAt? hread with ⟨-, c, hc, hblank⟩
  have hlt : value.mark < text.length := mark_lt_of_meaning? hspells hmeans hvalue
  rcases offset?_placeAt hlt with ⟨hnamed, hline, hcolumn⟩
  have hmark : (value.mapMark (placeAt .anyBreak text)).mark = placeAt .anyBreak text value.mark :=
    Tree.mark_mapMark ..
  rw [← hmark] at hnamed hline hcolumn
  rcases Place.getElem?_of_offset? hnamed with ⟨cs, hin, hglyph⟩
  exact ⟨value.mark, ⟨hline, hcolumn⟩, hnamed, ⟨cs, c, hin, hglyph.trans hc, hc, hblank⟩,
    ⟨value, stop, hread, rfl, (Tree.plain_mapMark ..).symm⟩⟩

theorem pairwise_marks (h : decodeJson room text = .ok root)
    (hnames : RepeatsNoName (levelLimit room) text) : root.marks.Pairwise Place.Before := by
  rcases decodeJson_eq_ok_iff.1 h with ⟨tree, meaning, hspells, -, hmeans, rfl⟩
  have hread : readSpelled (levelLimit room) text = .ok tree := readSpelled_eq_ok_iff.2 hspells
  have hoffsets : meaning.marks.Pairwise (· < ·) := by
    rw [Tree.marks_of_meaning? hmeans (hnames tree hread)]
    exact (pairwise_lexemesFrom 0 0 text).sublist hspells.marks_sublist
  rw [locate_eq_mapMark, Tree.marks_mapMark, List.pairwise_map]
  refine hoffsets.imp_of_mem ?_
  intro i j _ hj hij
  rcases Tree.exists_subtree_of_mem_marks hj with ⟨u, hu, rfl⟩
  exact placeAt_before hij (mark_lt_of_meaning? hspells hmeans hu)

/-- The place of each node of a decoded value points at the text of the node, and in a text that
repeats no name the nodes are placed in the order in which the tree lists them. -/
theorem decodeJson_positions (h : decodeJson room text = .ok root) :
    (∀ node, Subtree node root → ∃ offset, PointsAt (levelLimit room) text node offset) ∧
      (RepeatsNoName (levelLimit room) text → root.marks.Pairwise Place.Before) :=
  ⟨fun _ hnode => exists_pointsAt h hnode, pairwise_marks h⟩

end

/-- Lines that end at CR, CR LF and LF, and a separator that ends none. -/
theorem decodeJson_positions_three_line_ends :
    let text := "\r\x7b\"\u2028\":\r\n[1,\n\x7b\x7d],\"ä\":2\x7d".toList
    ∃ root, decodeJson 900 text = .ok root ∧ RepeatsNoName (levelLimit 900) text ∧
      root.marks = [⟨2, 1⟩, ⟨3, 1⟩, ⟨3, 2⟩, ⟨4, 1⟩, ⟨4, 9⟩] ∧
      (∀ node, Subtree node root → ∃ offset, PointsAt (levelLimit 900) text node offset) ∧
      root.marks.Pairwise Place.Before := by
  intro text
  have hlisted : (decodeJson 900 text).toOption.map Tree.marks =
      some [⟨2, 1⟩, ⟨3, 1⟩, ⟨3, 2⟩, ⟨4, 1⟩, ⟨4, 9⟩] := by decide +kernel
  rcases Option.map_eq_some_iff.1 hlisted with ⟨root, hroot, hmarks⟩
  have h : decodeJson 900 text = .ok root := Except.eq_ok_of_toOption hroot
  have hnames : RepeatsNoName (levelLimit 900) text := by decide +kernel
  rcases decodeJson_positions h with ⟨hpoints, hordered⟩
  exact ⟨root, h, hnames, hmarks, hpoints, hordered hnames⟩

/-- A value that replaces an earlier one of its name is placed where it was written. -/
example : ((decodeJson 900 "\x7b\"a\":1,\"b\":2,\"a\":3\x7d".toList).toOption.map Tree.marks) =
    some [⟨1, 1⟩, ⟨1, 18⟩, ⟨1, 12⟩] := by decide +kernel

end ComponentMarkup
