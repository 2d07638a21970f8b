import ComponentMarkup.Proofs.Text.Behind

/-!
# Indented texts

An indented text has spaces in front of its lines, one number of them in front of the first line and
another one in front of each other line, and it may have spaces at its end. Each character of the
text has an offset there (`Indent.offset`), and a place: in the same line, and as many columns to
the right as the line has spaces in front of it (`Indent.Applies.placeAt_eq`).
-/

namespace ComponentMarkup

/-- The second text is the first one with a gap behind each line end and any number of spaces at the
end. Behind a line end that is the last character of the text the gap may be missing. -/
inductive Indents (gap : List Char) : List Char → List Char → Prop where
  | nil (n : Nat) : Indents gap [] (List.replicate n ' ')
  | stay {c cs cs'} (hstay : LineEnd.anyBreak c cs = false) :
      Indents gap cs cs' → Indents gap (c :: cs) (c :: cs')
  | lineEnd {c cs cs'} (hend : LineEnd.anyBreak c cs = true) :
      Indents gap cs cs' → Indents gap (c :: cs) (c :: (gap ++ cs'))
  | lastEnd {c} (hend : LineEnd.anyBreak c [] = true) : Indents gap [c] [c]

/-- The offset that a character has if there are so many more ones behind each line end. -/
def indentedOffset (next : Nat) : List Char → Nat → Nat
  | _, 0 => 0
  | [], i + 1 => i + 1
  | c :: cs, i + 1 => 1 + (if LineEnd.anyBreak c cs then next else 0) + indentedOffset next cs i

/-- How far lines are indented. -/
structure Indent where
  /-- The spaces in front of the first line. -/
  first : Nat
  /-- The spaces in front of each other line. -/
  next : Nat

namespace Indent

/-- The second text is the first one, indented. -/
def Applies (m : Indent) (text text' : List Char) : Prop :=
  ∃ body, Indents (List.replicate m.next ' ') text body ∧ text' = List.replicate m.first ' ' ++ body

/-- The offset that a character of a text has in the indented one. -/
def offset (m : Indent) (text : List Char) (i : Nat) : Nat := m.first + indentedOffset m.next text i

/-- The place that a character of a text has in the indented one. -/
def place (m : Indent) (p : Place) : Place :=
  ⟨p.line, p.column + if p.line = 1 then m.first else m.next⟩

end Indent

/-! ## Line ends -/

section

variable {gap : List Char} {next : Nat} {c : Char} {cs cs' : List Char}

theorem isNewline_of_anyBreak (h : LineEnd.anyBreak c cs = true) : isNewline c = true := by
  simp only [LineEnd.anyBreak, Bool.or_eq_true, Bool.and_eq_true, decide_eq_true_eq] at h
  rcases h with rfl | ⟨rfl, -⟩
  · rfl
  · rfl

theorem anyBreak_eq_false (hc : isNewline c = false) (cs : List Char) :
    LineEnd.anyBreak c cs = false := by
  cases h : LineEnd.anyBreak c cs with
  | false => rfl
  | true =>
      rw [isNewline_of_anyBreak h] at hc
      cases hc

/-- A newline character that ends no line has a line feed behind it. -/
theorem head?_of_anyBreak_eq_false (hc : isNewline c = true)
    (h : LineEnd.anyBreak c cs = false) : cs.head? = some '\n' := by
  simp only [isNewline, Bool.or_eq_true, decide_eq_true_eq] at hc
  simp only [LineEnd.anyBreak, Bool.or_eq_false_iff, Bool.and_eq_false_iff,
    decide_eq_false_iff_not, ne_eq, Decidable.not_not] at h
  rcases h.2 with hreturn | hhead
  · rcases hc with hfeed | hreturn'
    · exact absurd hfeed h.1
    · exact absurd hreturn' hreturn
  · exact hhead

theorem head?_replicate_space (n : Nat) (cs : List Char) (h : cs.head? ≠ some '\n') :
    (List.replicate n ' ' ++ cs).head? ≠ some '\n' := by
  cases n with
  | zero => exact h
  | succ n => simp [List.replicate_succ]

namespace Indents

/-- An indented text starts with a line feed just if the text does. -/
theorem head?_eq_iff (h : Indents gap cs cs') : cs'.head? = some '\n' ↔ cs.head? = some '\n' := by
  cases h with
  | nil n =>
      have hspaces := head?_replicate_space n [] (by simp)
      rw [List.append_nil] at hspaces
      simpa using hspaces
  | stay | lineEnd | lastEnd => rfl

/-- A character ends its line in an indented text just if it does in the text. -/
theorem anyBreak_eq (h : Indents gap cs cs') (c : Char) :
    LineEnd.anyBreak c cs' = LineEnd.anyBreak c cs := by
  simp only [LineEnd.anyBreak, ne_eq, h.head?_eq_iff]

theorem anyBreak_spaces_eq (h : Indents gap cs cs') (hend : LineEnd.anyBreak c cs = true) :
    LineEnd.anyBreak c (List.replicate next ' ' ++ cs') = true := by
  simp only [LineEnd.anyBreak, Bool.or_eq_true, Bool.and_eq_true, decide_eq_true_eq] at hend ⊢
  rcases hend with hfeed | ⟨hreturn, hhead⟩
  · exact .inl hfeed
  · exact .inr ⟨hreturn, head?_replicate_space _ _ (mt h.head?_eq_iff.1 hhead)⟩

/-- A character that is no newline character stays in front of an indented text. -/
theorem of_cons_left {d : Char} (hd : isNewline d = false) (h : Indents gap (d :: cs) cs') :
    ∃ rest, cs' = d :: rest ∧ Indents gap cs rest := by
  cases h with
  | stay _ h => exact ⟨_, rfl, h⟩
  | lineEnd hend | lastEnd hend =>
      rw [anyBreak_eq_false hd] at hend
      cases hend

/-- A character in front of an indented text that is no newline character stands in front of the
text, unless nothing but spaces follows. -/
theorem of_cons_right {d : Char} (hd : isNewline d = false) (h : Indents gap cs (d :: cs')) :
    (∀ e ∈ d :: cs', e = ' ') ∨ ∃ rest, cs = d :: rest ∧ Indents gap rest cs' := by
  generalize htext : d :: cs' = text at h
  cases h with
  | nil n => exact .inl fun e he => List.eq_of_mem_replicate he
  | stay _ h =>
      obtain ⟨rfl, rfl⟩ := List.cons.inj htext
      exact .inr ⟨_, rfl, h⟩
  | lineEnd hend | lastEnd hend =>
      obtain ⟨rfl, -⟩ := List.cons.inj htext
      rw [anyBreak_eq_false hd] at hend
      cases hend

/-- What stands in one line of a text stands in one line of the indented text. -/
theorem of_append_left {front : List Char} (hfront : ∀ d ∈ front, isNewline d = false)
    (h : Indents gap (front ++ cs) cs') : ∃ rest, cs' = front ++ rest ∧ Indents gap cs rest := by
  induction front generalizing cs' with
  | nil => exact ⟨cs', rfl, h⟩
  | cons d front ih =>
      rcases h.of_cons_left (hfront d (List.mem_cons_self ..)) with ⟨tail, rfl, htail⟩
      rcases ih (fun e he => hfront e (.tail d he)) htail with ⟨rest, rfl, hrest⟩
      exact ⟨rest, rfl, hrest⟩

/-- What stands in one line of an indented text, and ends with a character that is no space, stands
in one line of the text. -/
theorem of_append_right {front : List Char} {d : Char} (hfront : ∀ e ∈ front, isNewline e = false)
    (hd : isNewline d = false) (hspace : d ≠ ' ') (h : Indents gap cs (front ++ d :: cs')) :
    ∃ rest, cs = front ++ d :: rest ∧ Indents gap rest cs' := by
  induction front generalizing cs with
  | nil =>
      rcases h.of_cons_right hd with hspaces | ⟨rest, rfl, hrest⟩
      · exact absurd (hspaces d (List.mem_cons_self ..)) hspace
      · exact ⟨rest, rfl, hrest⟩
  | cons e front ih =>
      rcases h.of_cons_right (hfront e (List.mem_cons_self ..)) with hspaces | ⟨tail, rfl, htail⟩
      · exact absurd (hspaces d (by simp)) hspace
      · rcases ih (fun e' he' => hfront e' (.tail e he')) htail with ⟨rest, rfl, hrest⟩
        exact ⟨rest, rfl, hrest⟩

end Indents

/-! ## Offsets -/

@[simp] theorem indentedOffset_zero (next : Nat) (cs : List Char) :
    indentedOffset next cs 0 = 0 := by
  cases cs <;> rfl

@[simp] theorem indentedOffset_nil (next i : Nat) : indentedOffset next [] i = i := by
  cases i <;> rfl

/-- Within a line nothing is inserted. -/
theorem indentedOffset_append (next : Nat) {front : List Char}
    (hfront : ∀ d ∈ front, isNewline d = false) (cs : List Char) (i : Nat) :
    indentedOffset next (front ++ cs) (front.length + i) =
      front.length + indentedOffset next cs i := by
  induction front with
  | nil => simp
  | cons d front ih =>
      have hd : isNewline d = false := hfront d (List.mem_cons_self ..)
      have hnext := ih fun e he => hfront e (.tail d he)
      rw [List.cons_append, List.length_cons, Nat.add_right_comm, indentedOffset,
        anyBreak_eq_false hd, if_neg Bool.false_ne_true, hnext]
      omega

/-- Behind a part of one line at an offset so many more characters have passed. -/
theorem indentedOffset_add {front : List Char} {i : Nat}
    (hfront : ∀ d ∈ front, isNewline d = false) (h : front <+: cs.drop i) :
    indentedOffset next cs (i + front.length) = indentedOffset next cs i + front.length := by
  induction cs generalizing i with
  | nil => simp
  | cons c cs ih =>
      cases i with
      | zero =>
          -- the front starts at the first character
          rcases h with ⟨rest, hrest⟩
          have happend := indentedOffset_append next hfront rest 0
          rw [Nat.add_zero, hrest, List.drop_zero] at happend
          simpa using happend
      | succ i =>
          rw [Nat.add_right_comm, indentedOffset, indentedOffset, ih h, ← Nat.add_assoc]

theorem indentedOffset_injective (next : Nat) (cs : List Char) {i j : Nat}
    (h : indentedOffset next cs i = indentedOffset next cs j) : i = j := by
  induction cs generalizing i j with
  | nil => simpa using h
  | cons c cs ih =>
      match i, j with
      | 0, 0 => rfl
      -- an offset behind a character lies behind that of the character
      | 0, j + 1 | i + 1, 0 =>
          simp only [indentedOffset] at h
          omega
      | i + 1, j + 1 =>
          simp only [indentedOffset] at h
          have hrest : indentedOffset next cs i = indentedOffset next cs j := by omega
          rw [ih hrest]

/-! ## Places -/

/-- Spaces in front of a text move the characters of its first line to the right. -/
theorem getElem?_placesFrom_spaces (line column n : Nat) (cs : List Char) (i : Nat) :
    (placesFrom .anyBreak line column (List.replicate n ' ' ++ cs))[n + i]? =
      (placesFrom .anyBreak line (column + n) cs)[i]? := by
  induction n generalizing column with
  | zero => simp
  | succ n ih =>
      rw [List.replicate_succ, List.cons_append, Nat.add_right_comm, getElem?_placesFrom_succ,
        anyBreak_eq_false (by decide), if_neg Bool.false_ne_true, ih]
      congr 2
      omega

theorem Indent.place_mk (m : Indent) (line column : Nat) :
    m.place ⟨line, column⟩ = ⟨line, ↑(column + if line = 1 then m.first else m.next)⟩ := by
  by_cases hone : line = 1
  · simp [Indent.place, hone]
  · have hone' : (line : Int) ≠ 1 := by omega
    simp [Indent.place, hone, hone']

/-- The places of characters in an indented text, the first line of which has its spaces already. -/
theorem Indents.getElem?_placesFrom {m : Indent} (line column : Nat)
    (h : Indents (List.replicate m.next ' ') cs cs')
    (hline : 1 ≤ line) {i : Nat} (hi : i < cs.length) :
    (placesFrom .anyBreak line (column + if line = 1 then m.first else m.next)
        cs')[indentedOffset m.next cs i]? =
      ((placesFrom .anyBreak line column cs)[i]?).map m.place := by
  -- the induction is on the indentation: the place is general, since line ends change it
  induction h generalizing line column i with
  | nil => cases hi
  | @stay c cs cs' hstay hrest ih =>
      cases i with
      | zero =>
          rw [indentedOffset_zero, getElem?_placesFrom_zero, getElem?_placesFrom_zero,
            Option.map_some, m.place_mk]
      | succ i =>
          have hi' : i < cs.length := Nat.lt_of_succ_lt_succ hi
          rw [indentedOffset, hstay, if_neg Bool.false_ne_true, Nat.add_zero, Nat.add_comm 1,
            getElem?_placesFrom_succ, getElem?_placesFrom_succ, hrest.anyBreak_eq, hstay,
            if_neg Bool.false_ne_true, if_neg Bool.false_ne_true, ← ih line (column + 1) hline hi',
            Nat.add_right_comm]
  | @lineEnd c cs cs' hend hrest ih =>
      cases i with
      -- behind a line end the columns start anew, with the indentation of later lines
      | zero =>
          rw [indentedOffset_zero, getElem?_placesFrom_zero, getElem?_placesFrom_zero,
            Option.map_some, m.place_mk]
      | succ i =>
          have hi' : i < cs.length := Nat.lt_of_succ_lt_succ hi
          have hbelow := ih (line + 1) 1 (Nat.le_add_left ..) hi'
          have hline' : line + 1 ≠ 1 := by omega
          rw [if_neg hline'] at hbelow
          rw [indentedOffset, if_pos hend, Nat.add_assoc, Nat.add_comm 1,
            getElem?_placesFrom_succ, getElem?_placesFrom_succ,
            if_pos (hrest.anyBreak_spaces_eq hend), if_pos hend, getElem?_placesFrom_spaces, hbelow]
  | lastEnd hend =>
      obtain rfl : i = 0 := Nat.lt_one_iff.1 hi
      rw [indentedOffset_zero, getElem?_placesFrom_zero, getElem?_placesFrom_zero,
        Option.map_some, m.place_mk]

end

namespace Indent

variable {m : Indent} {text text' : List Char}

theorem offset_injective (m : Indent) (text : List Char) {i j : Nat}
    (h : m.offset text i = m.offset text j) : i = j :=
  indentedOffset_injective m.next text (Nat.add_left_cancel h)

/-- A character of an indented text stands in the same line as in the text, so many columns to the
right as the line has got spaces in front of it. -/
theorem Applies.placeAt_eq (h : m.Applies text text') {i : Nat} (hi : i < text.length) :
    placeAt .anyBreak text' (m.offset text i) = m.place (placeAt .anyBreak text i) := by
  rcases h with ⟨body, hbody, rfl⟩
  have hplaces := hbody.getElem?_placesFrom 1 1 (Nat.le_refl 1) hi
  have hi' : i < (placesFrom .anyBreak 1 1 text).length := by
    rw [length_placesFrom]
    omega
  rw [if_pos rfl] at hplaces
  rw [placeAt, placeAt, places, places, offset, getElem?_placesFrom_spaces, hplaces,
    List.getElem?_eq_getElem hi']
  rfl

end Indent

end ComponentMarkup
