import ComponentMarkup.Comments
import ComponentMarkup.Proofs.Text.Lines

/-!
# What is left of a script

Reading the comments of a script moves no character: what is left is, at every offset, the script's
own character or a blank in its place. So the newline characters are those of the script
(`map_blankOut_keepComments`), and a character that is left and is no blank is the script's
(`getElem?_of_keepComments`).
-/

namespace ComponentMarkup

/-- What a reading leaves at an offset is the script's character or a blank for it. -/
theorem getElem?_text_readComments {mode : CommentMode} {script : List Char} {i : Nat} {c : Char}
    (h : (readComments mode script).text[i]? = some c) :
    ∃ d, script[i]? = some d ∧ (c = d ∨ c = blankOut d) := by
  fun_induction readComments mode script generalizing i with
  | case1 => simp at h
  | case2 cs ih | case3 cs ih | case5 cs ih =>
      -- a delimiter is two characters, and both are blanked
      rw [CommentReading.pushDelimiter] at h
      rcases i with _ | _ | j
      · obtain rfl : ' ' = c := by simpa [CommentReading.push] using h
        exact ⟨_, rfl, .inr rfl⟩
      · obtain rfl : ' ' = c := by simpa [CommentReading.push] using h
        exact ⟨_, rfl, .inr rfl⟩
      · exact ih (i := j) (by simpa [CommentReading.push] using h)
  | case4 d cs hblock hline ih =>
      cases i with
      | zero =>
          obtain rfl : blankOut d = c := by simpa [CommentReading.push] using h
          exact ⟨d, rfl, .inr rfl⟩
      | succ j => exact ih (i := j) (by simpa [CommentReading.push] using h)
  | case6 d cs hclose ih | case7 d cs ih =>
      cases i with
      | zero =>
          obtain rfl : d = c := by simpa [CommentReading.push] using h
          exact ⟨d, rfl, .inl rfl⟩
      | succ j => exact ih (i := j) (by simpa [CommentReading.push] using h)

/-- A script and its comments have the same newline characters at the same offsets. -/
theorem map_blankOut_keepComments (script : List Char) :
    (keepComments script).map blankOut = script.map blankOut := by
  apply List.ext_getElem?
  intro i
  rw [List.getElem?_map, List.getElem?_map]
  cases hc : (keepComments script)[i]? with
  | none =>
      have hlen := List.getElem?_eq_none_iff.1 hc
      rw [length_keepComments] at hlen
      rw [List.getElem?_eq_none hlen]
  | some c =>
      rcases getElem?_text_readComments hc with ⟨d, hd, rfl | rfl⟩
      · rw [hd]
      · rw [hd, Option.map_some, Option.map_some, blankOut_blankOut]

/-- What is left of a script and would be blanked in code is a character of the script. -/
theorem getElem?_of_keepComments {script : List Char} {i : Nat} {c : Char}
    (h : (keepComments script)[i]? = some c) (hc : blankOut c ≠ c) : script[i]? = some c := by
  rcases getElem?_text_readComments h with ⟨d, hd, rfl | rfl⟩
  · exact hd
  · exact absurd (blankOut_blankOut d) hc

end ComponentMarkup
