import ComponentMarkup.Proofs.Text.Lines

/-!
# Places behind a text

Where the characters of a text stand if another text is put in front of it: as many lines further
down as the other text has line breaks, and in its first line also as many columns further right as
the last line of the other text has characters (`placeAt_append`).
-/

namespace ComponentMarkup

/-- How many line breaks a text has. -/
def lineBreaks (text : List Char) : Nat := (cutLines text).length - 1

/-- The line of a text behind its last line break. -/
def lastLine (text : List Char) : List Char := (cutLines text).getLastD []

/-- The place that a place of a text has if another text is put in front of it. -/
def Place.behind (before : List Char) (p : Place) : Place :=
  ⟨p.line + lineBreaks before, if p.line = 1 then p.column + (lastLine before).length else p.column⟩

/-! ## Line breaks -/

/-- The column behind a text whose first character has the given column. -/
def columnBehind (column : Nat) (text : List Char) : Nat :=
  (if lineBreaks text = 0 then column else 1) + (lastLine text).length

section

variable {c : Char} {cs ended line₁ text : List Char} {lines : List (List Char)}

/-- A line that is ended adds a line break, and nothing of it counts for the column. -/
theorem lineBreaks_of_ended (hcut : cutLines (ended ++ cs) = ended :: cutLines cs) :
    lineBreaks (ended ++ cs) = lineBreaks cs + 1 ∧ lastLine (ended ++ cs) = lastLine cs := by
  rcases List.exists_cons_of_ne_nil (cutLines_ne_nil cs) with ⟨line₁, lines, heq⟩
  simp [lineBreaks, lastLine, hcut, heq]

theorem columnBehind_of_ended (column : Nat)
    (hcut : cutLines (ended ++ cs) = ended :: cutLines cs) :
    columnBehind column (ended ++ cs) = columnBehind 1 cs := by
  rcases lineBreaks_of_ended hcut with ⟨hbreaks, hlast⟩
  rw [columnBehind, columnBehind, hbreaks, hlast, if_neg (Nat.succ_ne_zero _), ite_self]

/-- A character that ends no line adds a column, if there is no line break behind it. -/
theorem columnBehind_of_inner (column : Nat) (hlines : cutLines cs = line₁ :: lines)
    (hcut : cutLines (c :: cs) = (c :: line₁) :: lines) :
    lineBreaks (c :: cs) = lineBreaks cs ∧
      columnBehind column (c :: cs) = columnBehind (column + 1) cs := by
  have hbreaks : lineBreaks (c :: cs) = lineBreaks cs := by
    simp [lineBreaks, hcut, hlines]
  refine ⟨hbreaks, ?_⟩
  rw [columnBehind, columnBehind, hbreaks]
  -- no line ends in either text, or the last line is the same one
  cases lines with
  | nil =>
      have hnone : lineBreaks cs = 0 := by simp [lineBreaks, hlines]
      simp only [hnone, if_true, lastLine, hcut, hlines, List.getLastD_cons, List.getLastD_nil,
        List.length_cons]
      omega
  | cons line₂ lines =>
      have hsome : lineBreaks cs ≠ 0 := by simp [lineBreaks, hlines]
      simp [hsome, lastLine, hcut, hlines]

theorem drop_placesFrom_cons (ends : LineEnd) (line column n : Nat) :
    (placesFrom ends line column (c :: cs)).drop (n + 1) =
      (if ends c cs then placesFrom ends (line + 1) 1 cs
        else placesFrom ends line (column + 1) cs).drop n := rfl

/-- The places behind a text go on from the line and the column in which it ends. -/
theorem drop_placesFrom (line column : Nat) (before : List Char) (h : text.head? ≠ some '\n') :
    (placesFrom .anyBreak line column (before ++ text)).drop before.length =
      placesFrom .anyBreak (line + lineBreaks before) (columnBehind column before) text := by
  induction before using cutLines.induct generalizing line column with
  | case1 => rfl
  | case2 cs ih =>
      have hcut : cutLines (['\r', '\n'] ++ cs) = ['\r', '\n'] :: cutLines cs := rfl
      have hcolumn := columnBehind_of_ended column hcut
      have hbreaks := (lineBreaks_of_ended hcut).1
      simp only [List.cons_append, List.nil_append] at hcolumn hbreaks
      rw [hcolumn, hbreaks, Nat.add_comm (lineBreaks cs), ← Nat.add_assoc, ← ih]
      rfl
  | case3 cs hne ih =>
      have hcut : cutLines (['\r'] ++ cs) = ['\r'] :: cutLines cs := by
        rw [List.singleton_append, cutLines]
        exact hne
      have hcolumn := columnBehind_of_ended column hcut
      have hlines := (lineBreaks_of_ended hcut).1
      simp only [List.cons_append, List.nil_append] at hcolumn hlines
      -- the carriage return is the last character or has no line feed behind it
      have hbreak : LineEnd.anyBreak '\r' (cs ++ text) = true := by
        cases cs with
        | nil => simp [LineEnd.anyBreak, h]
        | cons d ds =>
            have hd : d ≠ '\n' := fun heq => hne ds (by rw [heq])
            simp [LineEnd.anyBreak, hd]
      rw [hcolumn, hlines, Nat.add_comm (lineBreaks cs), ← Nat.add_assoc, ← ih, List.cons_append,
        List.length_cons, drop_placesFrom_cons, if_pos hbreak]
  | case4 cs ih =>
      have hcut : cutLines (['\n'] ++ cs) = ['\n'] :: cutLines cs := rfl
      have hcolumn := columnBehind_of_ended column hcut
      have hbreaks := (lineBreaks_of_ended hcut).1
      simp only [List.cons_append, List.nil_append] at hcolumn hbreaks
      rw [hcolumn, hbreaks, Nat.add_comm (lineBreaks cs), ← Nat.add_assoc, ← ih]
      rfl
  | case5 c cs hpair hreturn hfeed hnil ih => exact absurd hnil (cutLines_ne_nil cs)
  | case6 c cs hpair hreturn hfeed line₁ lines hlines ih =>
      have hcut : cutLines (c :: cs) = (c :: line₁) :: lines := by
        rw [cutLines, hlines]
        · exact hpair
        · exact hreturn
        · exact hfeed
      have hstay : ¬ LineEnd.anyBreak c (cs ++ text) = true := by
        have hc : c ≠ '\r' := hreturn
        have hc' : c ≠ '\n' := hfeed
        simp [LineEnd.anyBreak, hc, hc']
      rcases columnBehind_of_inner column hlines hcut with ⟨hbreaks, hcolumn⟩
      rw [hbreaks, hcolumn, ← ih, List.cons_append, List.length_cons, drop_placesFrom_cons,
        if_neg hstay]

end

/-! ## Translation -/

theorem le_line_of_mem_placesFrom {ends : LineEnd} {line column : Nat} {text : List Char}
    {p : Place} (h : p ∈ placesFrom ends line column text) : (line : Int) ≤ p.line := by
  -- line numbers only grow along a text, so the induction is general in the line it starts from
  induction text generalizing line column with
  | nil =>
      obtain rfl := List.mem_singleton.1 h
      exact Int.le_refl _
  | cons c cs ih =>
      rw [placesFrom] at h
      rcases List.mem_cons.1 h with rfl | h
      · exact Int.le_refl _
      · split at h
        · have hle := ih h
          omega
        · exact ih h

/-- More lines in front of a text move its characters down. -/
theorem placesFrom_add_line (ends : LineEnd) (line column more : Nat) (text : List Char) :
    placesFrom ends (line + more) column text =
      (placesFrom ends line column text).map fun p => ⟨p.line + more, p.column⟩ := by
  induction text generalizing line column with
  | nil => rfl
  | cons c cs ih =>
      have hnext := ih (line + 1) 1
      rw [Nat.add_right_comm] at hnext
      rw [placesFrom, placesFrom, hnext, ih, List.map_cons]
      split <;> rfl

/-- More columns in front of a text move the characters of its first line to the right. -/
theorem placesFrom_add_column (ends : LineEnd) (line column more : Nat) (text : List Char) :
    placesFrom ends line (column + more) text =
      (placesFrom ends line column text).map fun p =>
        ⟨p.line, if p.line = (line : Int) then p.column + more else p.column⟩ := by
  induction text generalizing column with
  | nil => simp [placesFrom]
  | cons c cs ih =>
      have hsame := ih (column + 1)
      rw [Nat.add_right_comm] at hsame
      -- the other lines stay as they are
      have hbelow : (placesFrom ends (line + 1) 1 cs).map
          (fun p => ⟨p.line, if p.line = (line : Int) then p.column + more else p.column⟩) =
            placesFrom ends (line + 1) 1 cs := by
        rw [List.map_congr_left (g := id), List.map_id]
        intro p hp
        have hle := le_line_of_mem_placesFrom hp
        have hne : p.line ≠ line := by omega
        rw [if_neg hne]
        rfl
      rw [placesFrom, placesFrom, hsame, List.map_cons]
      split
      · simp [hbelow]
      · simp

/-- The place of a character of a text behind another one. -/
theorem placeAt_append {before text : List Char} (h : text.head? ≠ some '\n') {i : Nat}
    (hi : i ≤ text.length) :
    placeAt .anyBreak (before ++ text) (before.length + i) =
      (placeAt .anyBreak text i).behind before := by
  have hcolumn : columnBehind 1 before = 1 + (lastLine before).length := by
    rw [columnBehind, ite_self]
  have hi' : i < (placesFrom .anyBreak 1 1 text).length := by
    rw [length_placesFrom]
    omega
  rw [placeAt, placeAt, places, places, ← List.getElem?_drop, drop_placesFrom 1 1 before h,
    hcolumn, placesFrom_add_line, placesFrom_add_column, List.map_map, List.getElem?_map,
    List.getElem?_eq_getElem hi']
  rfl

/-! ## Blanked texts -/

/-- Blanking keeps the lines of a text, and their lengths. -/
theorem cutLines_map_blankOut (text : List Char) :
    cutLines (text.map blankOut) = (cutLines text).map (List.map blankOut) := by
  induction text using cutLines.induct with
  | case1 => rfl
  | case2 cs ih => exact congrArg (['\r', '\n'] :: ·) ih
  | case3 cs hne ih =>
      -- blanking makes no line feed, so the break stays a lone carriage return
      have hblank : ∀ ds, cs.map blankOut = '\n' :: ds → False := by
        intro ds heq
        rcases List.map_eq_cons_iff.1 heq with ⟨d, ds', rfl, hd, -⟩
        obtain rfl : d = '\n' := (blankOut_eq_iff rfl).1 hd
        exact hne ds' rfl
      have hcut : cutLines ('\r' :: cs) = ['\r'] :: cutLines cs := by
        rw [cutLines]
        exact hne
      have hcut' : cutLines ('\r' :: cs.map blankOut) = ['\r'] :: cutLines (cs.map blankOut) := by
        rw [cutLines]
        exact hblank
      rw [hcut, List.map_cons, List.map_cons, ← ih]
      exact hcut'
  | case4 cs ih => exact congrArg (['\n'] :: ·) ih
  | case5 c cs hpair hreturn hfeed hnil ih => exact absurd hnil (cutLines_ne_nil cs)
  | case6 c cs hpair hreturn hfeed line₁ lines hlines ih =>
      -- neither a carriage return nor a line feed: a blank takes its place within the line
      have hinner : blankOut c = ' ' := by
        have hc : c ≠ '\r' := hreturn
        have hc' : c ≠ '\n' := hfeed
        simp [blankOut, isNewline, hc, hc']
      have hcut : cutLines (c :: cs) = (c :: line₁) :: lines := by
        rw [cutLines, hlines]
        · exact hpair
        · exact hreturn
        · exact hfeed
      rw [hlines] at ih
      rw [hcut, List.map_cons, List.map_cons, List.map_cons, hinner, cutLines, ih]
      · rfl
      all_goals simp

theorem Place.behind_map_blankOut (before : List Char) :
    Place.behind (before.map blankOut) = Place.behind before := by
  have hbreaks : lineBreaks (before.map blankOut) = lineBreaks before := by
    rw [lineBreaks, lineBreaks, cutLines_map_blankOut, List.length_map]
  have hlast : (lastLine (before.map blankOut)).length = (lastLine before).length := by
    rw [lastLine, lastLine, cutLines_map_blankOut, List.getLastD_eq_getLast?, List.getLast?_map,
      List.getLastD_eq_getLast?]
    cases (cutLines before).getLast? with
    | none => rfl
    | some line => simp
  funext p
  rw [Place.behind, Place.behind, hbreaks, hlast]

/-! ## Ended lines -/

/-- Up to the end of a line the lines of a text do not depend on what follows. -/
theorem cutLines_append {front : List Char} (hlast : ∀ c ∈ front.getLast?, c = '\n')
    (text : List Char) : cutLines (front ++ text) = (cutLines front).dropLast ++ cutLines text := by
  have hdrop : ∀ (line : List Char) (cs : List Char),
      (line :: cutLines cs).dropLast = line :: (cutLines cs).dropLast :=
    fun line cs => List.dropLast_cons_of_ne_nil (cutLines_ne_nil cs)
  induction front using cutLines.induct with
  | case1 => rfl
  | case2 cs ih =>
      have hcs := ih (forall_getLast?_of_cons (forall_getLast?_of_cons hlast))
      rw [List.cons_append, List.cons_append, cutLines, cutLines, hdrop, hcs]
      rfl
  | case3 cs hne ih =>
      have hcut : ∀ ds, (∀ es, ds = '\n' :: es → False) →
          cutLines ('\r' :: ds) = ['\r'] :: cutLines ds := by
        intro ds hds
        rw [cutLines]
        exact hds
      have hnext : ∀ ds, cs ++ text = '\n' :: ds → False := by
        intro ds heq
        cases cs with
        | nil => cases hlast '\r' rfl
        | cons e es => exact hne es (by rw [(List.cons.inj heq).1])
      rw [List.cons_append, hcut _ hnext, hcut _ hne, hdrop, ih (forall_getLast?_of_cons hlast)]
      rfl
  | case4 cs ih =>
      have hcs := ih (forall_getLast?_of_cons hlast)
      rw [List.cons_append, cutLines, cutLines, hdrop, hcs]
      rfl
  | case5 c cs hpair hreturn hfeed hnil ih => exact absurd hnil (cutLines_ne_nil cs)
  | case6 c cs hpair hreturn hfeed line₁ lines hlines ih =>
      have hcut : ∀ {ds line others}, cutLines ds = line :: others →
          cutLines (c :: ds) = (c :: line) :: others := by
        intro ds line others hds
        have hc : c ≠ '\r' := hreturn
        have hc' : c ≠ '\n' := hfeed
        rw [cutLines, hds] <;> simp [hc, hc']
      have hcs := ih (forall_getLast?_of_cons hlast)
      rw [hlines] at hcs
      cases lines with
      | nil =>
          -- the line is not ended, so there is nothing in it
          have hflat := congrArg List.flatten hcs
          rw [List.dropLast_singleton, List.nil_append, flatten_cutLines, flatten_cutLines] at hflat
          obtain rfl : cs = [] := by simpa using hflat
          exact absurd (hlast c rfl) hfeed
      | cons line₂ lines =>
          rw [List.dropLast_cons_cons, List.cons_append] at hcs
          rw [List.cons_append, hcut hcs, hcut hlines, List.dropLast_cons_cons, List.cons_append]

/-- The same place so many lines further down; what stands nowhere stays there. -/
def Place.below (lines : Nat) (p : Place) : Place :=
  if 1 ≤ p.line then ⟨p.line + lines, p.column⟩ else p

/-- Behind ended lines a text moves down, and not to the right. -/
theorem Place.behind_append {front : List Char} (hlast : ∀ c ∈ front.getLast?, c = '\n')
    (more : List Char) {p : Place} (hp : 1 ≤ p.line) :
    p.behind (front ++ more) = (p.behind more).below (lineBreaks front) := by
  have hcut := cutLines_append hlast more
  -- the front gives its line ends, and nothing to the last line
  have hbreaks : lineBreaks (front ++ more) = lineBreaks more + lineBreaks front := by
    have hpos : 0 < (cutLines more).length := List.length_pos_iff.2 (cutLines_ne_nil more)
    unfold lineBreaks
    rw [hcut, List.length_append, List.length_dropLast]
    omega
  have hlastLine : lastLine (front ++ more) = lastLine more := by
    unfold lastLine
    rw [hcut, List.getLastD_eq_getLast?, List.getLastD_eq_getLast?, List.getLast?_append,
      List.getLast?_eq_some_getLast (cutLines_ne_nil more), Option.some_or]
  -- places behind a text still have known lines, so `below` moves them
  have hline : 1 ≤ (p.behind more).line := by
    unfold Place.behind
    dsimp only
    omega
  unfold below
  rw [if_pos hline]
  unfold behind
  rw [hbreaks, hlastLine]
  simp only [Place.mk.injEq, and_true]
  omega

end ComponentMarkup
