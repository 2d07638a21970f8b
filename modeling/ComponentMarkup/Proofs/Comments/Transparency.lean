import ComponentMarkup.Proofs.Comments.Cut
import ComponentMarkup.Proofs.Indentation

/-!
# Comments are transparent

Markup means the same in the comments of a script as in a source of its own. A block comment leaves
its contents behind two blanks and in front of two (`Source.parse_blockComment`); line comments
leave two blanks in front of each line (`Source.parse_lineComments`). In both cases what is left is
the markup, indented.
-/

namespace ComponentMarkup

/-! ## Block comments -/

/-- A text with spaces behind it is indented by nothing. -/
theorem Indents.append_spaces (text : List Char) (n : Nat) :
    Indents [] text (text ++ List.replicate n ' ') := by
  induction text with
  | nil => exact .nil n
  | cons c cs ih =>
      cases h : LineEnd.anyBreak c cs with
      | false => exact .stay h ih
      | true => exact .lineEnd h ih

theorem keepComments_blockComment {text : List Char} (hclose : ¬ ['*', '/'] <:+: text) :
    keepComments ('/' :: '*' :: (text ++ ['*', '/'])) = ' ' :: ' ' :: (text ++ [' ', ' ']) := by
  rw [← (IsCut.block hclose .nil).flatMap_left]
  simp [Piece.left]

theorem indentedOffset_of_zero (cs : List Char) (i : Nat) : indentedOffset 0 cs i = i := by
  induction cs generalizing i with
  | nil => exact indentedOffset_nil 0 i
  | cons c cs ih =>
      cases i with
      | zero => rfl
      | succ i => rw [indentedOffset, ih, ite_self, Nat.add_comm, Nat.add_zero]

namespace Source

variable {scope : Scope} {path importAs text : List Char}

/-- Markup in a block comment: the occurrences stand two characters further, there are the same
problems, and the markups are the same, in the same order, but for columns in the first line, which
are greater by two, and for an import path behind the members of an object that names no file. -/
theorem parse_blockComment (hclose : ¬ ['*', '/'] <:+: text) (hmarker : scope.marker ≠ [])
    (hgap : HasNoGap scope.marker)
    (himport : importPath scope.workingDirectory path scope.root = .ok importAs) :
    let bare : Source := { path, kind := .markupOnly, text }
    let script : Source := { path, kind := .script, text := '/' :: '*' :: (text ++ ['*', '/']) }
    script.offsets scope = (bare.offsets scope).map (· + 2) ∧
      ∃ parsed, bare.parse scope = .ok parsed ∧ script.parse scope = .ok
        { markups := parsed.markups.map fun markup =>
            { root := withImportFile importAs <| markup.root.mapMark fun p =>
                ⟨p.line, if p.line = 1 then p.column + 2 else p.column⟩
              path
              kind := .script }
          problems := parsed.problems } := by
  intro bare script
  -- the filtered script is the bare text behind two blanks: an indentation of the first line alone
  have happlies : Indent.Applies ⟨2, 0⟩ bare.text script.scannedText :=
    ⟨_, Indents.append_spaces text 2, keepComments_blockComment hclose⟩
  have hoffset : Indent.offset ⟨2, 0⟩ bare.text = (· + 2) := by
    funext i
    rw [Indent.offset, indentedOffset_of_zero, Nat.add_comm]
  have hplace : Indent.place ⟨2, 0⟩ =
      fun p => ⟨p.line, if p.line = 1 then p.column + 2 else p.column⟩ := by
    funext p
    rw [Indent.place]
    split <;> simp
  rw [← hplace, ← hoffset]
  exact parse_indent rfl rfl rfl himport hmarker hgap happlies

/-- The comment starts with a slash, and its last fragment runs into the closing delimiter, as the
brace in the string is never closed. -/
theorem parse_blockComment_unclosed_brace :
    let scope : Scope :=
      { marker := "#M".toList, root := none, workingDirectory := [], room := 981 }
    let path := "a".toList
    let text := "/#M\x7b\x7d *#M[\x7b]\n#M\x7b\"b\":\"\x7b\"\x7d".toList
    let bare : Source := { path, kind := .markupOnly, text }
    let script : Source := { path, kind := .script, text := '/' :: '*' :: (text ++ ['*', '/']) }
    ¬ ['*', '/'] <:+: text ∧ scope.marker ≠ [] ∧ HasNoGap scope.marker ∧
      importPath scope.workingDirectory path scope.root = .ok "a".toList ∧
      (bare.outcomes scope).map Outcome.isInvalid = [false, true, false] ∧
      script.offsets scope = (bare.offsets scope).map (· + 2) ∧
      ∃ parsed, bare.parse scope = .ok parsed ∧ script.parse scope = .ok
        { markups := parsed.markups.map fun markup =>
            { root := withImportFile "a".toList <| markup.root.mapMark fun p =>
                ⟨p.line, if p.line = 1 then p.column + 2 else p.column⟩
              path
              kind := .script }
          problems := parsed.problems } := by
  intro scope path text bare script
  have hclose : ¬ ['*', '/'] <:+: text := by simp [text, List.infix_cons_iff]
  have hmarker : scope.marker ≠ [] := by decide
  have hgap : HasNoGap scope.marker := by decide
  have himport : importPath scope.workingDirectory path scope.root = .ok "a".toList := rfl
  have houtcomes : (bare.outcomes scope).map Outcome.isInvalid = [false, true, false] := by
    decide +kernel
  exact ⟨hclose, hmarker, hgap, himport, houtcomes,
    parse_blockComment hclose hmarker hgap himport⟩

end Source

/-! ## Line comments -/

/-- These are the lines of a text, each with the characters that end it. Whether there is an empty
line behind a last line end is left open. -/
def AreLines (lines : List (List Char)) (text : List Char) : Prop :=
  lines = cutLines text ∨ lines ++ [[]] = cutLines text

theorem eq_nil_of_cutLines {cs : List Char} (h : cutLines cs = [[]]) : cs = [] := by
  rw [← flatten_cutLines cs, h]
  rfl

namespace AreLines

variable {lines : List (List Char)} {gap ended cs : List Char}

/-- Behind a line that is ended stand the lines of the rest, unless this is empty and counts for
none. -/
theorem of_ended (hcut : cutLines (ended ++ cs) = ended :: cutLines cs) (hended : ended ≠ [])
    (h : AreLines lines (ended ++ cs)) (hlines : lines ≠ []) :
    (cs = [] ∧ lines = [ended]) ∨ ∃ rest, rest ≠ [] ∧ lines = ended :: rest ∧ AreLines rest cs := by
  unfold AreLines at h
  rw [hcut] at h
  rcases h with rfl | h
  · exact .inr ⟨cutLines cs, cutLines_ne_nil cs, rfl, .inl rfl⟩
  · rcases List.exists_cons_of_ne_nil hlines with ⟨line, rest, rfl⟩
    obtain ⟨rfl, hrest⟩ := List.cons.inj h
    cases rest with
    | nil => exact .inl ⟨eq_nil_of_cutLines hrest.symm, rfl⟩
    | cons line rest => exact .inr ⟨_, List.cons_ne_nil _ _, rfl, .inr hrest⟩

/-- A gap in front of a line that is ended, and in front of each line behind it. -/
theorem exists_indents_of_ended (hcut : cutLines (ended ++ cs) = ended :: cutLines cs)
    (hended : ended ≠ []) (hlast : Indents gap (ended ++ []) ended)
    (hmore : ∀ body, Indents gap cs body → Indents gap (ended ++ cs) (ended ++ (gap ++ body)))
    (ih : ∀ {rest}, AreLines rest cs → rest ≠ [] →
      ∃ body, rest.flatMap (gap ++ ·) = gap ++ body ∧ Indents gap cs body)
    (h : AreLines lines (ended ++ cs)) (hlines : lines ≠ []) :
    ∃ body, lines.flatMap (gap ++ ·) = gap ++ body ∧ Indents gap (ended ++ cs) body := by
  rcases h.of_ended hcut hended hlines with ⟨rfl, rfl⟩ | ⟨rest, hrest, rfl, hare⟩
  · exact ⟨ended, by simp, hlast⟩
  · rcases ih hare hrest with ⟨body, hflat, hbody⟩
    refine ⟨ended ++ (gap ++ body), ?_, hmore body hbody⟩
    rw [List.flatMap_cons, hflat, List.append_assoc]

/-- With a gap in front of each of its lines a text is indented behind the first one. -/
theorem exists_indents {text : List Char} (h : AreLines lines text) (hlines : lines ≠ []) :
    ∃ body, lines.flatMap (gap ++ ·) = gap ++ body ∧ Indents gap text body := by
  induction text using cutLines.induct generalizing lines with
  | case1 =>
      rcases h with rfl | h
      · exact ⟨[], by simp [cutLines], .nil 0⟩
      · rcases List.exists_cons_of_ne_nil hlines with ⟨line, rest, rfl⟩
        simp [cutLines] at h
  | case2 cs ih =>
      have hcut : cutLines (['\r', '\n'] ++ cs) = ['\r', '\n'] :: cutLines cs := rfl
      refine exists_indents_of_ended hcut (by simp) ?_ ?_ ih h hlines
      · exact .stay rfl (.lastEnd rfl)
      · exact fun body hbody => .stay rfl (.lineEnd rfl hbody)
  | case3 cs hne ih =>
      have hcut : cutLines (['\r'] ++ cs) = ['\r'] :: cutLines cs := by
        rw [List.singleton_append, cutLines]
        exact hne
      refine exists_indents_of_ended hcut (by simp) ?_ ?_ ih h hlines
      · exact .lastEnd rfl
      · exact fun body hbody => .lineEnd (anyBreak_return hne) hbody
  | case4 cs ih =>
      have hcut : cutLines (['\n'] ++ cs) = ['\n'] :: cutLines cs := rfl
      refine exists_indents_of_ended hcut (by simp) ?_ ?_ ih h hlines
      · exact .lastEnd rfl
      · exact fun body hbody => .lineEnd rfl hbody
  | case5 c cs hpair hreturn hfeed hnil ih => exact absurd hnil (cutLines_ne_nil cs)
  | case6 c cs hpair hreturn hfeed line₁ others hothers ih =>
      have hcut : cutLines (c :: cs) = (c :: line₁) :: others := by
        rw [cutLines, hothers]
        · exact hpair
        · exact hreturn
        · exact hfeed
      have hc : isNewline c = false := by
        have hreturn' : c ≠ '\r' := hreturn
        have hfeed' : c ≠ '\n' := hfeed
        simp [isNewline, hreturn', hfeed']
      -- the character goes to the first line of the others
      have hfirst : ∃ rest, lines = (c :: line₁) :: rest ∧ AreLines (line₁ :: rest) cs := by
        unfold AreLines at h ⊢
        rw [hcut] at h
        rw [hothers]
        rcases h with rfl | h
        · exact ⟨others, rfl, .inl rfl⟩
        · rcases List.exists_cons_of_ne_nil hlines with ⟨line, rest, rfl⟩
          obtain ⟨rfl, hrest⟩ := List.cons.inj h
          exact ⟨rest, rfl, .inr (congrArg (line₁ :: ·) hrest)⟩
      rcases hfirst with ⟨rest, rfl, hare⟩
      rcases ih hare (List.cons_ne_nil _ _) with ⟨body, hflat, hbody⟩
      refine ⟨c :: body, ?_, .stay (anyBreak_eq_false hc cs) hbody⟩
      rw [List.flatMap_cons, List.append_assoc] at hflat ⊢
      rw [List.cons_append, List.append_cancel_left hflat]

end AreLines

/-- Behind the first delimiter the line comments of a text leave it with two blanks behind each line
end. -/
theorem Indents.readComments_lines {cs cs' : List Char} (h : Indents ['/', '/'] cs cs') :
    Indents [' ', ' '] cs (readComments .lineComment cs').text := by
  induction h with
  | nil n =>
      have hline : ∀ c ∈ List.replicate n ' ', isNewline c = false := by
        intro c hc
        rw [List.eq_of_mem_replicate hc]
        rfl
      have hread : readComments .lineComment (List.replicate n ' ' ++ []) =
          (readComments .lineComment []).behind (List.replicate n ' ') := readComments_line hline
      rw [List.append_nil] at hread
      rw [hread, CommentReading.text_behind, readComments, List.append_nil]
      exact .nil n
  | @stay c cs cs' hstay hrest ih =>
      cases hc : isNewline c with
      | false =>
          rw [readComments, hc, if_neg Bool.false_ne_true]
          exact .stay hstay ih
      | true =>
          -- a carriage return; the line comment goes on in front of the line feed, as nothing
          -- stands between the two
          have hhead := hrest.head?_eq_iff.2 (head?_of_anyBreak_eq_false hc hstay)
          have hend : ∀ d ∈ cs'.head?, isNewline d = true := by
            rw [hhead]
            rintro d hd
            obtain rfl := Option.some.inj hd
            rfl
          rw [readComments, if_pos hc]
          rw [text_readComments_line_end hend] at ih
          exact .stay hstay ih
  | @lineEnd c cs cs' hend _ ih =>
      rw [readComments, if_pos (isNewline_of_anyBreak hend), List.cons_append, List.cons_append,
        List.nil_append, readComments]
      exact .lineEnd hend ih
  | @lastEnd c hend =>
      rw [readComments, if_pos (isNewline_of_anyBreak hend), readComments]
      exact .lastEnd hend

namespace Source

variable {scope : Scope} {path importAs text : List Char} {lines : List (List Char)}

theorem parse_nil (scope : Scope) (path : List Char) (kind : SourceKind) :
    ({ path, kind, text := [] } : Source).offsets scope = [] ∧
      ({ path, kind, text := [] } : Source).parse scope = .ok ⟨[], []⟩ := by
  have hoffsets : ({ path, kind, text := [] } : Source).offsets scope = [] := by
    cases kind <;> simp [offsets, scannedText, keepComments, readComments]
  refine ⟨hoffsets, ?_⟩
  unfold parse outcomes
  rw [hoffsets]
  rfl

/-- Markup in line comments: there are as many occurrences, each where the character stands that it
starts with, the same problems, and the same markups in the same order, but for columns, which are
greater by two, and for an import path behind the members of an object that names no file. -/
theorem parse_lineComments (hlines : AreLines lines text) (hmarker : scope.marker ≠ [])
    (hgap : HasNoGap scope.marker)
    (himport : importPath scope.workingDirectory path scope.root = .ok importAs) :
    let bare : Source := { path, kind := .markupOnly, text }
    let script : Source := { path, kind := .script, text := lines.flatMap (['/', '/'] ++ ·) }
    script.offsets scope = (bare.offsets scope).map (Indent.offset ⟨2, 2⟩ text) ∧
      ∃ parsed, bare.parse scope = .ok parsed ∧ script.parse scope = .ok
        { markups := parsed.markups.map fun markup =>
            { root := withImportFile importAs <| markup.root.mapMark fun p =>
                ⟨p.line, p.column + 2⟩
              path
              kind := .script }
          problems := parsed.problems } := by
  intro bare script
  by_cases hnil : lines = []
  · -- no lines, no text
    subst hnil
    obtain rfl : text = [] := by
      rcases hlines with hnone | hempty
      · exact absurd hnone.symm (cutLines_ne_nil text)
      · exact eq_nil_of_cutLines hempty.symm
    rcases parse_nil scope path .markupOnly with ⟨hoffsets, hparse⟩
    rcases parse_nil scope path .script with ⟨hoffsets', hparse'⟩
    exact ⟨by rw [hoffsets]; exact hoffsets', _, hparse, hparse'⟩
  · rcases hlines.exists_indents hnil with ⟨body, hflat, hbody⟩
    have hscanned : script.scannedText =
        List.replicate 2 ' ' ++ (readComments .lineComment body).text := by
      have hkeep : script.scannedText = keepComments (lines.flatMap (['/', '/'] ++ ·)) := rfl
      rw [hkeep, hflat, keepComments, List.cons_append, List.cons_append, List.nil_append,
        readComments]
      rfl
    have happlies : Indent.Applies ⟨2, 2⟩ bare.text script.scannedText :=
      ⟨_, hbody.readComments_lines, hscanned⟩
    have hplace : Indent.place ⟨2, 2⟩ = fun p => ⟨p.line, p.column + 2⟩ := by
      funext p
      rw [Indent.place, ite_self]
      rfl
    have hbare : bare.kind = .markupOnly := rfl
    rw [← hplace]
    exact parse_indent hbare rfl rfl himport hmarker hgap happlies

/-- Lines end in all three ways, once within a string, and the empty last line is no comment. -/
theorem parse_lineComments_three_line_ends :
    let scope : Scope :=
      { marker := "#M".toList, root := none, workingDirectory := [], room := 981 }
    let path := "a".toList
    let text := "#M\x7b\r\n\"b\":\r[1\n]\x7d #M\x7b\"\n\"\x7d\n".toList
    let lines := ["#M\x7b\r\n".toList, "\"b\":\r".toList, "[1\n".toList, "]\x7d #M\x7b\"\n".toList,
      "\"\x7d\n".toList]
    let bare : Source := { path, kind := .markupOnly, text }
    let script : Source := { path, kind := .script, text := lines.flatMap (['/', '/'] ++ ·) }
    AreLines lines text ∧ scope.marker ≠ [] ∧ HasNoGap scope.marker ∧
      importPath scope.workingDirectory path scope.root = .ok "a".toList ∧
      (bare.outcomes scope).map Outcome.isInvalid = [false, true] ∧
      script.offsets scope = (bare.offsets scope).map (Indent.offset ⟨2, 2⟩ text) ∧
      ∃ parsed, bare.parse scope = .ok parsed ∧ script.parse scope = .ok
        { markups := parsed.markups.map fun markup =>
            { root := withImportFile "a".toList <| markup.root.mapMark fun p =>
                ⟨p.line, p.column + 2⟩
              path
              kind := .script }
          problems := parsed.problems } := by
  intro scope path text lines bare script
  have hlines : AreLines lines text := .inr rfl
  have hmarker : scope.marker ≠ [] := by decide
  have hgap : HasNoGap scope.marker := by decide
  have himport : importPath scope.workingDirectory path scope.root = .ok "a".toList := rfl
  have houtcomes : (bare.outcomes scope).map Outcome.isInvalid = [false, true] := by
    decide +kernel
  exact ⟨hlines, hmarker, hgap, himport, houtcomes,
    parse_lineComments hlines hmarker hgap himport⟩

end Source

end ComponentMarkup
