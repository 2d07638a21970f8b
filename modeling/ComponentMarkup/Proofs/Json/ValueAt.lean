import ComponentMarkup.Proofs.Json.Lexeme
import ComponentMarkup.Proofs.Json.Subtree

/-!
# One value within a text

Reading may start at any offset of a text and stop behind one value, whatever follows it. Every
node of a value that is read can be read alone from where it stands
(`exists_valueAt?_of_subtree`).
-/

namespace ComponentMarkup

open ComponentMarkup.Tree (Subtree)

/-- The offset behind a lexeme of a text. -/
def Lexeme.stop (text : List Char) (l : Lexeme) : Nat :=
  match text.drop l.start with
  | c :: rest => l.start + (scanToken l.start c rest).2
  | [] => l.start

/-- Reads one value of a text, in which containers may be nested `levels` deep and whose first
character has the given offset; what follows it does not matter. The result is what the value means,
every node with its offset, and the offset behind the value. -/
def valueAt? (levels : Nat) (text : List Char) (offset : Nat) : Option (Tree Nat Scalar × Nat) :=
  let ls := lexemesFrom 0 offset (text.drop offset)
  match readValue levels text.length [] ls with
  | .ok (tree, left) =>
      if tree.mark = offset then
        let used := ls.take (ls.length - left.length)
        tree.meaning?.map fun value => (value, ((used.getLast?).map (·.stop text)).getD offset)
      else none
  | .error _ => none

section

variable {text : List Char} {levels offset stop : Nat} {value : Tree Nat Scalar}

/-- A value that is spelled at an offset is read there. -/
theorem valueAt?_of_spells {room : Nat} {tree : SpelledTree} {used left : List Lexeme} {l : Lexeme}
    (hlex : lexemesFrom 0 offset (text.drop offset) = used ++ left)
    (hspells : Spells room used (.value tree)) (hroom : room ≤ levels)
    (hmark : tree.mark = offset) (hvalue : tree.meaning? = some value)
    (hlast : used.getLast? = some l) : valueAt? levels text offset = some (value, l.stop text) := by
  have hread : readValue levels text.length [] (used ++ left) = .ok (tree, left) :=
    readValue_eq_ok_iff.2 ⟨used, rfl, hspells.mono hroom⟩
  have htake : (used ++ left).take ((used ++ left).length - left.length) = used := by
    rw [List.length_append, Nat.add_sub_cancel, List.take_left]
  simp only [valueAt?, hlex, hread, htake, if_pos hmark, hvalue, hlast, Option.map_some,
    Option.getD_some]

/-- Where a value is read, its first character stands. -/
theorem getElem?_of_valueAt? (h : valueAt? levels text offset = some (value, stop)) :
    value.mark = offset ∧ ∃ c, text[offset]? = some c ∧ isBlank c = false := by
  simp only [valueAt?] at h
  split at h
  · next tree left hread =>
    split at h
    · next hmark =>
      rcases Option.map_eq_some_iff.1 h with ⟨v, hv, heq⟩
      rcases Prod.mk.inj heq with ⟨rfl, -⟩
      rcases readValue_eq_ok_iff.1 hread with ⟨used, hlex, hspells⟩
      rcases hspells.head_start with ⟨token, more, rfl⟩
      have hfirst : lexemesFrom 0 offset (text.drop offset) =
          [] ++ ⟨tree.mark, token⟩ :: (more ++ left) := hlex
      rcases exists_lexeme hfirst with ⟨k, c, rest, hstart, hdrop, hblank, -⟩
      refine ⟨(Tree.mark_of_meaning? hv).trans hmark, c, ?_, hblank⟩
      -- the first lexeme has the mark of the value, so no blank stands in front of it
      obtain rfl : k = 0 := by
        simp only at hstart
        omega
      rw [List.drop_zero] at hdrop
      rw [← List.head?_drop, hdrop]
      rfl
    · cases h
  · cases h

/-- Each node of a value that stands in a text is read alone from where it stands. -/
theorem exists_valueAt?_of_subtree {room : Nat} {tree u : SpelledTree} {used left : List Lexeme}
    (hlex : lexemesFrom 0 offset (text.drop offset) = used ++ left)
    (hspells : Spells room used (.value tree)) (hroom : room ≤ levels)
    (hu : Subtree u tree) (hvalue : u.meaning? = some value) :
    ∃ stop, valueAt? levels text u.mark = some (value, stop) := by
  rcases hspells.exists_subtree hu with ⟨before, own, after, rfl, hown⟩
  rcases hown.head_start with ⟨token, more, rfl⟩
  rw [List.append_assoc, List.append_assoc] at hlex
  rcases exists_lexeme hlex with ⟨k, c, rest, hstart, hdrop, -, -, hlex'⟩
  -- cutting the text anew from the first lexeme of the node gives the same lexemes
  have hmark : text.drop u.mark = c :: rest := by
    rw [List.drop_drop] at hdrop
    rw [← hdrop, ← hstart]
  obtain ⟨l, hl⟩ : ∃ l, (⟨u.mark, token⟩ :: more).getLast? = some l :=
    ⟨_, List.getLast?_cons⟩
  have hown' : lexemesFrom 0 u.mark (text.drop u.mark) =
      (⟨u.mark, token⟩ :: more) ++ (after ++ left) := by
    rw [hmark, hlex']
    rfl
  exact ⟨l.stop text, valueAt?_of_spells hown' hown hroom rfl hvalue hl⟩

end

end ComponentMarkup
