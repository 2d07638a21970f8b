import ComponentMarkup.Text.Place

/-!
# Lines

A text is cut into lines at CR LF, CR and LF, so that a line and a column name a character of the
text. The place of a character names this character (`offset?_placeAt`), and it depends on nothing
but the newline characters of the text up to there (`placeAt_congr`).
-/

namespace ComponentMarkup

/-- The lines of a text, each with the characters that end it. -/
def cutLines : List Char → List (List Char)
  | [] => [[]]
  | '\r' :: '\n' :: cs => ['\r', '\n'] :: cutLines cs
  | '\r' :: cs => ['\r'] :: cutLines cs
  | '\n' :: cs => ['\n'] :: cutLines cs
  | c :: cs =>
      match cutLines cs with
      | [] => [[c]]
      | line :: lines => (c :: line) :: lines

/-- The offset of the character that a place names: so many lines into the text, and so many
characters into this line. -/
def Place.offset? (text : List Char) (p : Place) : Option Nat :=
  let lines := cutLines text
  let row := (p.line - 1).toNat
  let column := (p.column - 1).toNat
  if 1 ≤ p.line ∧ 1 ≤ p.column ∧ column < (lines.getD row []).length then
    some ((lines.take row).flatten.length + column)
  else none

theorem forall_getLast?_of_cons {p : Char → Prop} {c : Char} {cs : List Char}
    (h : ∀ d ∈ (c :: cs).getLast?, p d) : ∀ d ∈ cs.getLast?, p d := by
  intro d hd
  apply h d
  cases cs with
  | nil => cases hd
  | cons e es => rwa [List.getLast?_cons_cons]

theorem cutLines_ne_nil (text : List Char) : cutLines text ≠ [] := by
  fun_cases cutLines text <;> simp

/-- The lines of a text make up the text. -/
theorem flatten_cutLines (text : List Char) : (cutLines text).flatten = text := by
  fun_induction cutLines text <;> simp_all

theorem getElem?_placesFrom_zero (ends : LineEnd) (line column : Nat) (text : List Char) :
    (placesFrom ends line column text)[0]? = some ⟨line, column⟩ := by
  cases text <;> rfl

theorem getElem?_placesFrom_succ (ends : LineEnd) (line column : Nat) (c : Char)
    (cs : List Char) (i : Nat) :
    (placesFrom ends line column (c :: cs))[i + 1]? =
      if ends c cs then (placesFrom ends (line + 1) 1 cs)[i]?
      else (placesFrom ends line (column + 1) cs)[i]? := by
  rw [placesFrom, List.getElem?_cons_succ]
  split <;> rfl

/-- A carriage return ends its line unless a line feed follows. -/
theorem anyBreak_return {cs : List Char} (h : ∀ ds, cs = '\n' :: ds → False) :
    LineEnd.anyBreak '\r' cs = true := by
  cases cs with
  | nil => rfl
  | cons d ds =>
      have hd : d ≠ '\n' := fun heq => h ds (by rw [heq])
      simp [LineEnd.anyBreak, hd]

/-! ## Places name characters -/

/-- The character at an offset stands in a line of the text, at a column of this line, and its place
tells so, whatever line and column the first character of the text is given. -/
structure StandsInLine (line column : Nat) (text : List Char) (offset row col : Nat) : Prop where
  place : (placesFrom .anyBreak line column text)[offset]? =
    some ⟨↑(line + row), ↑((if row = 0 then column else 1) + col)⟩
  within : col < ((cutLines text).getD row []).length
  split : offset = ((cutLines text).take row).flatten.length + col

namespace StandsInLine

variable {line column offset row col : Nat} {cs : List Char}

/-- The first character of a text stands in its first line. -/
theorem first (line column : Nat) (c : Char) (cs : List Char) :
    StandsInLine line column (c :: cs) 0 0 0 where
  place := getElem?_placesFrom_zero ..
  within := by
    generalize htext : c :: cs = text
    fun_cases cutLines text with
    | case1 => cases htext
    | case2 | case3 | case4 | case5 | case6 => exact Nat.zero_lt_succ _
  split := rfl

/-- A character behind a whole line stands one line further down. -/
theorem behind (ended : List Char) (hcut : cutLines (ended ++ cs) = ended :: cutLines cs)
    (hplace : (placesFrom .anyBreak line column (ended ++ cs))[offset + ended.length]? =
      (placesFrom .anyBreak (line + 1) 1 cs)[offset]?)
    (h : StandsInLine (line + 1) 1 cs offset row col) :
    StandsInLine line column (ended ++ cs) (offset + ended.length) (row + 1) col where
  place := by
    rw [hplace, h.place, Nat.add_assoc, Nat.add_comm 1, if_neg (Nat.succ_ne_zero row), ite_self]
  within := by
    rw [hcut]
    exact h.within
  split := by
    -- the line that ended comes in front of the lines before the offset
    have hsplit := h.split
    rw [hcut, List.take_succ_cons, List.flatten_cons, List.length_append]
    omega

/-- A character in front of a line moves those in this line by one column. -/
theorem after {c : Char} {line₁ : List Char} {lines : List (List Char)}
    (hlines : cutLines cs = line₁ :: lines)
    (hcut : cutLines (c :: cs) = (c :: line₁) :: lines) (hstay : LineEnd.anyBreak c cs = false)
    (h : StandsInLine line (column + 1) cs offset row col) :
    ∃ col', StandsInLine line column (c :: cs) (offset + 1) row col' := by
  have hplace : (placesFrom .anyBreak line column (c :: cs))[offset + 1]? =
      (placesFrom .anyBreak line (column + 1) cs)[offset]? := by
    rw [getElem?_placesFrom_succ, hstay, if_neg Bool.false_ne_true]
  obtain ⟨hat, hwithin, hsplit⟩ := h
  rw [hlines] at hwithin hsplit
  -- within the first line the column is one further, in later lines it stays
  cases row with
  | zero =>
      refine ⟨col + 1, ?_, ?_, ?_⟩
      · rw [hplace, hat, if_pos rfl, if_pos rfl, Nat.add_assoc, Nat.add_comm 1]
      · rw [hcut]
        exact Nat.succ_lt_succ hwithin
      · rw [List.take_zero, List.flatten_nil, List.length_nil] at hsplit ⊢
        omega
  | succ row =>
      refine ⟨col, ?_, ?_, ?_⟩
      · rw [hplace, hat, if_neg (Nat.succ_ne_zero row), if_neg (Nat.succ_ne_zero row)]
      · rw [hcut]
        exact hwithin
      · rw [hcut]
        rw [List.take_succ_cons, List.flatten_cons, List.length_append] at hsplit ⊢
        rw [List.length_cons]
        omega

end StandsInLine

/-- Every character of a text stands in a line. -/
theorem exists_standsInLine (line column : Nat) {text : List Char} {i : Nat}
    (h : i < text.length) : ∃ row col, StandsInLine line column text i row col := by
  induction text using cutLines.induct generalizing line column i with
  | case1 => exact absurd h (Nat.not_lt_zero i)
  | case2 cs ih =>
      -- the two characters of a line end stand in the line that they end
      match i with
      | 0 => exact ⟨0, 0, .first ..⟩
      | 1 =>
          refine ⟨0, 1, ?_, Nat.lt_succ_self 1, rfl⟩
          rw [getElem?_placesFrom_succ]
          exact getElem?_placesFrom_zero ..
      | j + 2 =>
          have hj : j < cs.length := by simpa using h
          rcases ih (line + 1) 1 hj with ⟨row, col, hstands⟩
          exact ⟨row + 1, col, hstands.behind ['\r', '\n'] rfl rfl⟩
  | case3 cs hne ih =>
      match i with
      | 0 => exact ⟨0, 0, .first ..⟩
      | j + 1 =>
          have hj : j < cs.length := by simpa using h
          rcases ih (line + 1) 1 hj with ⟨row, col, hstands⟩
          have hcut : cutLines ('\r' :: cs) = ['\r'] :: cutLines cs := by
            rw [cutLines]
            exact hne
          refine ⟨row + 1, col, hstands.behind ['\r'] hcut ?_⟩
          exact (getElem?_placesFrom_succ ..).trans (if_pos (anyBreak_return hne))
  | case4 cs ih =>
      match i with
      | 0 => exact ⟨0, 0, .first ..⟩
      | j + 1 =>
          have hj : j < cs.length := by simpa using h
          rcases ih (line + 1) 1 hj with ⟨row, col, hstands⟩
          exact ⟨row + 1, col, hstands.behind ['\n'] rfl rfl⟩
  | case5 c cs hpair hreturn hfeed hnil ih => exact absurd hnil (cutLines_ne_nil cs)
  | case6 c cs hpair hreturn hfeed line₁ lines hlines ih =>
      match i with
      | 0 => exact ⟨0, 0, .first ..⟩
      | j + 1 =>
          have hj : j < cs.length := by simpa using h
          rcases ih line (column + 1) hj with ⟨row, col, hstands⟩
          have hcut : cutLines (c :: cs) = (c :: line₁) :: lines := by
            rw [cutLines, hlines]
            · exact hpair
            · exact hreturn
            · exact hfeed
          have hstay : LineEnd.anyBreak c cs = false := by
            simp only [LineEnd.anyBreak, Bool.or_eq_false_iff, Bool.and_eq_false_iff,
              decide_eq_false_iff_not]
            exact ⟨hfeed, .inl hreturn⟩
          exact ⟨row, hstands.after hlines hcut hstay⟩

/-- The place of a character names this character, and counts from one. -/
theorem offset?_placeAt {text : List Char} {i : Nat} (h : i < text.length) :
    (placeAt .anyBreak text i).offset? text = some i ∧ 1 ≤ (placeAt .anyBreak text i).line ∧
      1 ≤ (placeAt .anyBreak text i).column := by
  rcases exists_standsInLine 1 1 h with ⟨row, col, hplace, hcol, hi⟩
  have hat : placeAt .anyBreak text i = ⟨↑(1 + row), ↑(1 + col)⟩ := by
    rw [placeAt, places, hplace, ite_self]
    rfl
  rw [hat]
  refine ⟨?_, by dsimp only; omega, by dsimp only; omega⟩
  have hrow : ((↑(1 + row) : Int) - 1).toNat = row := by omega
  have hcolumn : ((↑(1 + col) : Int) - 1).toNat = col := by omega
  simp only [Place.offset?, hrow, hcolumn]
  rw [if_pos ⟨by omega, by omega, hcol⟩, ← hi]

/-! ## Texts with the same newline characters -/

theorem blankOut_blankOut (c : Char) : blankOut (blankOut c) = blankOut c := by
  cases h : isNewline c with
  | true => simp [blankOut, h]
  | false =>
      have hblank : blankOut c = ' ' := by simp [blankOut, h]
      rw [hblank]
      rfl

/-- Blanking a character keeps whether it is a certain newline character. -/
theorem blankOut_eq_iff {c d : Char} (hd : isNewline d = true) : blankOut c = d ↔ c = d := by
  unfold blankOut
  split
  · rfl
  · next hc =>
    constructor
    · rintro rfl
      exact absurd hd (by decide)
    · rintro rfl
      exact absurd hd hc

theorem eq_newline_iff_of_blankOut_eq {c d e : Char} (h : blankOut c = blankOut d)
    (he : isNewline e = true) : c = e ↔ d = e := by
  rw [← blankOut_eq_iff he, h, blankOut_eq_iff he]

theorem anyBreak_congr {c d : Char} {cs ds : List Char} (hc : blankOut c = blankOut d)
    (hcs : (cs.map blankOut).head? = (ds.map blankOut).head?) :
    LineEnd.anyBreak c cs = LineEnd.anyBreak d ds := by
  have hfeed := eq_newline_iff_of_blankOut_eq (e := '\n') hc rfl
  have hreturn := eq_newline_iff_of_blankOut_eq (e := '\r') hc rfl
  -- a blank is no line feed, so the next characters are line feeds together
  have hhead : cs.head? = some '\n' ↔ ds.head? = some '\n' := by
    cases cs with
    | nil =>
        cases ds with
        | nil => rfl
        | cons y ys => simp at hcs
    | cons x xs =>
        cases ds with
        | nil => simp at hcs
        | cons y ys =>
            have hxy : blankOut x = blankOut y := by simpa using hcs
            simpa using eq_newline_iff_of_blankOut_eq (e := '\n') hxy rfl
  simp [LineEnd.anyBreak, hfeed, hreturn, hhead]

theorem getElem?_placesFrom_congr (line column : Nat) {a b : List Char} {i : Nat}
    (ha : i < a.length) (hb : i < b.length)
    (h : (a.map blankOut).take (i + 1) = (b.map blankOut).take (i + 1)) :
    (placesFrom .anyBreak line column a)[i]? = (placesFrom .anyBreak line column b)[i]? := by
  induction i generalizing line column a b with
  | zero => rw [getElem?_placesFrom_zero, getElem?_placesFrom_zero]
  -- whether a line ends depends on this character and the next one, which are blanked alike
  | succ i ih =>
      rcases List.exists_cons_of_length_pos (by omega : 0 < a.length) with ⟨c, cs, rfl⟩
      rcases List.exists_cons_of_length_pos (by omega : 0 < b.length) with ⟨d, ds, rfl⟩
      rw [List.map_cons, List.map_cons, List.take_succ_cons, List.take_succ_cons,
        List.cons.injEq] at h
      rcases h with ⟨hc, hcs⟩
      have hlen : i < cs.length := by simpa using ha
      have hlen' : i < ds.length := by simpa using hb
      have hhead : (cs.map blankOut).head? = (ds.map blankOut).head? := by
        have htake := congrArg List.head? hcs
        rwa [List.head?_take, if_neg (Nat.succ_ne_zero i), List.head?_take,
          if_neg (Nat.succ_ne_zero i)] at htake
      rw [getElem?_placesFrom_succ, getElem?_placesFrom_succ, anyBreak_congr hc hhead,
        ih _ _ hlen hlen' hcs, ih _ _ hlen hlen' hcs]

/-- A place in front of the end of a text depends on the newline characters up to there only. -/
theorem placeAt_congr {a b : List Char} {i : Nat} (ha : i < a.length) (hb : i < b.length)
    (h : (a.map blankOut).take (i + 1) = (b.map blankOut).take (i + 1)) :
    placeAt .anyBreak a i = placeAt .anyBreak b i := by
  rw [placeAt, placeAt, places, places, getElem?_placesFrom_congr 1 1 ha hb h]

end ComponentMarkup
