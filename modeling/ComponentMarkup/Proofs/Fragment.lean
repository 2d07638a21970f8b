import ComponentMarkup.Fragment
import ComponentMarkup.Proofs.Json.Decode
import ComponentMarkup.Proofs.Json.ValueAt
import ComponentMarkup.Proofs.Text.Lines

/-!
# Fragments and the objects in them

A fragment is cut by counting braces, those in string literals too, while reading a value takes
strings for what they are. We show that this does no harm: if a fragment can be decoded at all, the
text itself has the same object there (`decode_fragment_eq_valueAt?`). So a brace within a string
can spoil an occurrence, but never change what is read.
-/

namespace ComponentMarkup

open ComponentMarkup.Tree (Subtree)

/-! ## What a fragment consists of -/

/-- An offset is that of the first opening brace of a text at or after `start`. -/
structure IsFirstBrace (text : List Char) (start : Int) (offset : Nat) : Prop where
  brace : text[offset]? = some '{'
  behind : start ≤ offset
  first : ∀ i < offset, start ≤ i → text[i]? ≠ some '{'

theorem captureBraces_isPrefix (depth : Nat) (cs : List Char) : captureBraces depth cs <+: cs := by
  fun_induction captureBraces depth cs with
  | case1 => exact List.prefix_refl _
  | case2 depth cs ih => exact (List.prefix_cons_inj _).2 ih
  | case3 depth cs ih =>
      split
      · exact (List.prefix_cons_inj _).2 (List.nil_prefix ..)
      · exact (List.prefix_cons_inj _).2 ih
  | case4 depth c cs hopen hclose ih => exact (List.prefix_cons_inj _).2 ih

/-- Behind `skip` characters a text is blanked as a whole, if no opening brace follows, or else up
to the first one that does. -/
theorem cutFragment_eq (skip : Nat) (cs : List Char) :
    (∀ i, skip ≤ i → cs[i]? ≠ some '{') ∧ cutFragment skip cs = cs.map blankOut ∨
      ∃ b, cs[b]? = some '{' ∧ skip ≤ b ∧ (∀ i < b, skip ≤ i → cs[i]? ≠ some '{') ∧
        cutFragment skip cs = (cs.take b).map blankOut ++ captureBraces 0 (cs.drop b) := by
  fun_induction cutFragment skip cs with
  | case1 => exact .inl ⟨by simp, rfl⟩
  | case2 cs => exact .inr ⟨0, rfl, Nat.le_refl 0, fun i hi => absurd hi (Nat.not_lt_zero i), rfl⟩
  | case3 skip c cs hskip ih =>
      -- the first character is no opening brace, or it is one of those that are skipped
      have hhead : skip ≤ 0 → (c :: cs)[0]? ≠ some '{' := by
        intro hzero hc
        obtain rfl : c = '{' := by simpa using hc
        obtain rfl : skip = 0 := by omega
        exact hskip rfl rfl
      rcases ih with ⟨hnone, hall⟩ | ⟨b, hb, hle, hfirst, heq⟩
      · refine .inl ⟨?_, by rw [hall]; rfl⟩
        intro i hi
        cases i with
        | zero => exact hhead hi
        | succ i => exact hnone i (by omega)
      · refine .inr ⟨b + 1, hb, by omega, ?_, by rw [heq]; rfl⟩
        intro i hi hlei
        cases i with
        | zero => exact hhead hlei
        | succ i => exact hfirst i (by omega) (by omega)

/-- A fragment is all blank, if there is no opening brace, or else blank up to the first one and a
part of the text from there. -/
theorem fragmentAt_eq (text : List Char) (start : Int) :
    (∀ i : Nat, start ≤ i → text[i]? ≠ some '{') ∧ fragmentAt text start = text.map blankOut ∨
      ∃ b, IsFirstBrace text start b ∧
        fragmentAt text start = (text.take b).map blankOut ++ captureBraces 0 (text.drop b) := by
  rcases cutFragment_eq (min start.toNat text.length) text with
    ⟨hnone, hall⟩ | ⟨b, hb, hle, hfirst, heq⟩
  · refine .inl ⟨?_, hall⟩
    intro i hi
    exact hnone i (by omega)
  · rcases List.getElem?_eq_some_iff.1 hb with ⟨hlt, -⟩
    exact .inr ⟨b, ⟨hb, by omega, fun i hi hstart => hfirst i hi (by omega)⟩, heq⟩

theorem isBlank_blankOut (c : Char) : isBlank (blankOut c) = true := by
  unfold blankOut
  split
  · next h =>
    simp only [isNewline, Bool.or_eq_true, decide_eq_true_eq] at h
    rcases h with rfl | rfl <;> rfl
  · rfl

theorem isBlank_of_mem_map_blankOut {text : List Char} :
    ∀ c ∈ text.map blankOut, isBlank c = true :=
  List.forall_mem_map.2 fun c _ => isBlank_blankOut c

/-- The characters of a fragment stand where they stand in the text, if blanked they are. -/
theorem fragmentAt_isPrefix_blankOut (text : List Char) (start : Int) :
    (fragmentAt text start).map blankOut <+: text.map blankOut := by
  have hblank : (blankOut ∘ blankOut) = blankOut := funext blankOut_blankOut
  rcases fragmentAt_eq text start with ⟨-, hall⟩ | ⟨b, -, heq⟩
  · have hsame : (fragmentAt text start).map blankOut = text.map blankOut := by
      rw [hall, List.map_map, hblank]
    exact hsame ▸ List.prefix_refl _
  · rcases captureBraces_isPrefix 0 (text.drop b) with ⟨more, hmore⟩
    refine ⟨more.map blankOut, ?_⟩
    rw [heq, List.map_append, List.map_map, hblank, List.append_assoc, ← List.map_append, hmore,
      ← List.map_append, List.take_append_drop]

theorem length_fragmentAt_le (text : List Char) (start : Int) :
    (fragmentAt text start).length ≤ text.length := by
  simpa using (fragmentAt_isPrefix_blankOut text start).length_le

/-- Places in a fragment are those in the text. -/
theorem placeAt_fragmentAt {text : List Char} {start : Int} {i : Nat}
    (h : i < (fragmentAt text start).length) :
    placeAt .anyBreak (fragmentAt text start) i = placeAt .anyBreak text i := by
  have hle := length_fragmentAt_le text start
  refine placeAt_congr h (by omega) ?_
  rcases fragmentAt_isPrefix_blankOut text start with ⟨more, hmore⟩
  rw [← hmore, List.take_append_of_le_length (by simpa using Nat.succ_le_of_lt h)]

/-! ## Objects in fragments -/

theorem isObject_of_head {room start : Nat} {ls more : List Lexeme} {tree : SpelledTree}
    (h : Spells room ls (.value tree)) (hls : ls = ⟨start, .openObject⟩ :: more) :
    tree.isObject = true ∧ tree.mark = start := by
  cases h with
  | leaf | emptyArray | array => cases hls
  | emptyObject | object =>
      cases hls
      exact ⟨rfl, rfl⟩

/-- What a text holds, and where, if one of its fragments can be decoded to `root`, with containers
nested at most `levels` deep. -/
structure ObjectAt (levels : Nat) (text fragment : List Char) (root : LocatedTree)
    (offset : Nat) where
  /-- The lexemes of the object, which are all that the fragment has. -/
  used : List Lexeme
  /-- The lexemes behind the object in the whole text. -/
  left : List Lexeme
  /-- The object as spelled. -/
  tree : SpelledTree
  /-- What the object means, every node with its offset. -/
  meaning : Tree Nat Scalar
  inFragment : lexemes fragment = used
  inText : lexemesFrom 0 offset (text.drop offset) = used ++ left
  spells : Spells levels used (.value tree)
  isObject : tree.isObject = true
  mark : tree.mark = offset
  means : tree.meaning? = some meaning
  located : root = locate fragment meaning

/-- The whole text holds the object that can be decoded from one of its fragments. -/
theorem exists_objectAt {room : Nat} {text : List Char} {start : Int} {root : LocatedTree}
    (h : decodeJson room (fragmentAt text start) = .ok root) :
    ∃ b, IsFirstBrace text start b ∧
      Nonempty (ObjectAt (levelLimit room) text (fragmentAt text start) root b) := by
  rcases decodeJson_eq_ok_iff.1 h with ⟨tree, meaning, hspells, -, hmeans, hroot⟩
  rcases fragmentAt_eq text start with ⟨-, hall⟩ | ⟨b, hb, heq⟩
  · -- a blank text has no lexemes, but a value has some
    exfalso
    have hblank : ∀ c ∈ text.map blankOut, isBlank c = true := isBlank_of_mem_map_blankOut
    have hnone := lexemesFrom_blank hblank 0 []
    rw [List.append_nil] at hnone
    rw [hall, lexemes, hnone] at hspells
    rcases hspells.exists_head with ⟨l, more, hl, -⟩
    cases hl
  · refine ⟨b, hb, ?_⟩
    rcases List.getElem?_eq_some_iff.1 hb.brace with ⟨hlt, hbrace⟩
    have hdrop : text.drop b = '{' :: text.drop (b + 1) := by
      rw [List.drop_eq_getElem_cons hlt, hbrace]
    have hlen : ((text.take b).map blankOut).length = b := by simp; omega
    have hlex : lexemes (fragmentAt text start) =
        lexemesFrom 0 b (captureBraces 0 (text.drop b)) := by
      rw [heq, lexemes, lexemesFrom_blank isBlank_of_mem_map_blankOut, hlen, Nat.zero_add]
    rcases captureBraces_isPrefix 0 (text.drop b) with ⟨more, hmore⟩
    have hhead : ∃ ls, lexemes (fragmentAt text start) = ⟨b, .openObject⟩ :: ls := by
      rw [hlex, hdrop, captureBraces, lexemesFrom_cons rfl]
      exact ⟨_, rfl⟩
    rcases hhead with ⟨ls, hls⟩
    have hobject : tree.isObject = true ∧ tree.mark = b := isObject_of_head hspells hls
    have hclosed : (Phrase.value tree).isClosed = true := by
      cases tree with
      | leaf => cases hobject.1
      | array | object => rfl
    -- an object closes what it holds, so its lexemes do not depend on where the fragment was cut
    have henclosed : Enclosed (lexemes (fragmentAt text start)) := by
      have hnone : Enclosed [] := trivial
      simpa using hspells.enclosed hnone (.inl hclosed)
    rcases lexemesFrom_append more (hlex.symm.trans (List.append_nil _).symm) henclosed with
      ⟨left, hleft⟩
    rw [hmore] at hleft
    exact ⟨⟨_, left, tree, meaning, rfl, hleft, hspells, hobject.1, hobject.2, hmeans, hroot⟩⟩

/-- An offset is the one behind the last character of a text that is not blank. -/
def IsBehindLast (text : List Char) (offset : Nat) : Prop :=
  ∃ last c, offset = last + 1 ∧ text[last]? = some c ∧ isBlank c = false ∧
    ∀ d ∈ text.drop offset, isBlank d = true

namespace ObjectAt

variable {levels : Nat} {text fragment : List Char} {root : LocatedTree} {b : Nat}

theorem isObject_root (o : ObjectAt levels text fragment root b) : root.isObject = true := by
  have hmeaning := Tree.isObject_of_meaning? o.means o.isObject
  rwa [o.located, locate_eq_mapMark, Tree.isObject_mapMark]

/-- The object ends with a brace, behind which the fragment is blank. -/
theorem exists_last (o : ObjectAt levels text fragment root b) :
    ∃ l, o.used.getLast? = some l ∧ IsBehindLast fragment (l.stop text) := by
  rcases o.spells.getLast?_object o.isObject with ⟨last, hlast⟩
  rcases List.getLast?_eq_some_iff.1 hlast with ⟨before, hused⟩
  -- the brace and what is behind it, first in the fragment and then in the text
  have hinFragment : lexemesFrom 0 0 fragment = before ++ ⟨last, .closeObject⟩ :: [] := by
    rw [← hused, ← o.inFragment, lexemes]
  have hinText : lexemesFrom 0 b (text.drop b) = before ++ ⟨last, .closeObject⟩ :: o.left := by
    rw [o.inText, hused, List.append_assoc, List.singleton_append]
  rcases exists_closeObject hinFragment with ⟨k, rest, hk, hdrop, -, hnone⟩
  rcases exists_closeObject hinText with ⟨k', rest', hk', hdrop', hlen, -⟩
  rw [Nat.zero_add] at hk
  subst hk
  have hstop : (⟨last, .closeObject⟩ : Lexeme).stop text = last + 1 := by
    rw [List.drop_drop, ← hk'] at hdrop'
    simp only [Lexeme.stop, hdrop', hlen]
  refine ⟨⟨last, .closeObject⟩, hlast, ?_⟩
  rw [hstop]
  refine ⟨last, '\x7d', rfl, ?_, rfl, ?_⟩
  · rw [← List.head?_drop, hdrop]
    rfl
  · rw [← List.drop_drop, hdrop, List.drop_succ_cons, List.drop_zero]
    exact isBlank_of_lexemesFrom_nil hnone

/-- A node of the object stands within the fragment. -/
theorem mark_lt (o : ObjectAt levels text fragment root b) {u : Tree Nat Scalar}
    (hu : Subtree u o.meaning) : u.mark < fragment.length := by
  rcases Subtree.of_meaning? o.means hu with ⟨w, hw, hmeans⟩
  have hlex : lexemesFrom 0 0 (fragment.drop 0) = o.used ++ [] := by
    rw [List.append_nil, ← o.inFragment]
    rfl
  rcases exists_valueAt?_of_subtree hlex o.spells (Nat.le_refl _) hw hmeans with ⟨stop, hread⟩
  rcases getElem?_of_valueAt? hread with ⟨hmark, c, hc, -⟩
  rw [hmark]
  exact (List.getElem?_eq_some_iff.1 hc).1

/-- Each node of the object is read alone from where it stands in the text. -/
theorem exists_valueAt? (o : ObjectAt levels text fragment root b) {u : Tree Nat Scalar}
    (hu : Subtree u o.meaning) : ∃ stop, valueAt? levels text u.mark = some (u, stop) := by
  rcases Subtree.of_meaning? o.means hu with ⟨w, hw, hmeans⟩
  rw [Tree.mark_of_meaning? hmeans]
  exact exists_valueAt?_of_subtree o.inText o.spells (Nat.le_refl _) hw hmeans

end ObjectAt

/-- If a fragment can be decoded with some room, then reading one value of the whole text from the
first opening brace, with containers no deeper, gives the same object, with the same values, members
and places, and stops behind the last character of the fragment that is not blank. -/
theorem decode_fragment_eq_valueAt? {room : Nat} {text : List Char} {start : Int}
    {root : LocatedTree} (h : decodeJson room (fragmentAt text start) = .ok root) :
    ∃ b stop value, IsFirstBrace text start b ∧
      valueAt? (levelLimit room) text b = some (value, stop) ∧
      root.isObject = true ∧ root = locate text value ∧
      IsBehindLast (fragmentAt text start) stop := by
  rcases exists_objectAt h with ⟨b, hb, ⟨o⟩⟩
  rcases o.exists_last with ⟨l, hlast, hstop⟩
  have hread : valueAt? (levelLimit room) text b = some (o.meaning, l.stop text) :=
    valueAt?_of_spells o.inText o.spells (Nat.le_refl _) o.mark o.means hlast
  have hplaces : locate (fragmentAt text start) o.meaning = locate text o.meaning := by
    rw [locate_eq_mapMark, locate_eq_mapMark]
    exact Tree.mapMark_congr fun u hu => placeAt_fragmentAt (o.mark_lt hu)
  exact ⟨b, l.stop text, o.meaning, hb, hread, o.isObject_root, o.located.trans hplaces, hstop⟩

/-- Braces in a name and in a string that happen to balance, and one more behind the object. -/
theorem decode_fragment_braces_in_strings :
    ∃ text root, text = "#M \x7b\"\x7b\": \"\x7d\"\x7d \x7d".toList ∧
      decodeJson 900 (fragmentAt text 2) = .ok root ∧
      ∃ b stop value, IsFirstBrace text 2 b ∧
        valueAt? (levelLimit 900) text b = some (value, stop) ∧
        root.isObject = true ∧ root = locate text value ∧
        IsBehindLast (fragmentAt text 2) stop := by
  have h : decodeJson 900 (fragmentAt "#M \x7b\"\x7b\": \"\x7d\"\x7d \x7d".toList 2) =
      .ok (.object ⟨1, 4⟩
        [(Text.ofString "\x7b", .leaf ⟨1, 10⟩ (.string (Text.ofString "\x7d")))]) := rfl
  exact ⟨_, _, rfl, h, decode_fragment_eq_valueAt? h⟩

end ComponentMarkup
