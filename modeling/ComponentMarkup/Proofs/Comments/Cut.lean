import ComponentMarkup.Proofs.Comments

/-!
# The pieces of a script

From left to right a script is cut into characters of its code, line comments and block comments.
The cut is a relation that knows no modes: a comment opens where code is read and a delimiter
stands, a line comment ends in front of a newline character, a block comment behind the first
closing delimiter, and both at the end of the script. We show:

* `exists_isCut` and `IsCut.unique`: every script is cut in exactly one way;
* `IsCut.flatMap_left`: reading a script leaves of each piece what `Piece.left` says;
* `IsCut.mode_readComments`: it ends in the mode of the last piece.

So a reading is what the cut says it is (`exists_cut_of_reading`).
-/

namespace ComponentMarkup

/-! ## Pieces -/

/-- A piece of a script. -/
inductive Piece where
  /-- A character of the code. -/
  | code (c : Char)
  /-- A line comment, without the newline character behind it. -/
  | line (body : List Char)
  /-- A block comment; it is not closed if the script ends within it. -/
  | block (body : List Char) (closed : Bool)

namespace Piece

/-- The characters of a piece. -/
def spelling : Piece → List Char
  | code c => [c]
  | line body => '/' :: '/' :: body
  | block body closed => '/' :: '*' :: (body ++ if closed then ['*', '/'] else [])

/-- What is left of a piece: the contents of a comment, and blanks for all else. -/
def left : Piece → List Char
  | code c => [blankOut c]
  | line body => ' ' :: ' ' :: body
  | block body closed => ' ' :: ' ' :: (body ++ if closed then [' ', ' '] else [])

@[simp] theorem length_left (p : Piece) : p.left.length = p.spelling.length := by
  cases p with
  | code | line => rfl
  | block body closed => cases closed <;> simp [left, spelling]

end Piece

/-- A text is cut from left to right into these pieces. -/
inductive IsCut : List Char → List Piece → Prop where
  | nil : IsCut [] []
  | code {c cs pieces} (hblock : ¬ ['/', '*'] <+: c :: cs) (hline : ¬ ['/', '/'] <+: c :: cs) :
      IsCut cs pieces → IsCut (c :: cs) (.code c :: pieces)
  | line {body cs pieces} (hbody : ∀ c ∈ body, isNewline c = false)
      (hend : ∀ c ∈ cs.head?, isNewline c = true) :
      IsCut cs pieces → IsCut ('/' :: '/' :: (body ++ cs)) (.line body :: pieces)
  | block {body cs pieces} (hbody : ¬ ['*', '/'] <:+: body) :
      IsCut cs pieces →
      IsCut ('/' :: '*' :: (body ++ '*' :: '/' :: cs)) (.block body true :: pieces)
  | unclosed {body} (hbody : ¬ ['*', '/'] <:+: body) :
      IsCut ('/' :: '*' :: body) [.block body false]

/-! ## Every script is cut in one way -/

/-- A text has no closing delimiter, or a first one. -/
theorem exists_first_close (cs : List Char) :
    (¬ ['*', '/'] <:+: cs) ∨
      ∃ body rest, cs = body ++ '*' :: '/' :: rest ∧ ¬ ['*', '/'] <:+: body := by
  induction cs with
  | nil => exact .inl (by simp)
  | cons c cs ih =>
      -- either the mark stands here, and nothing precedes it, or the first one of the rest is the
      -- first
      by_cases hhere : ['*', '/'] <+: c :: cs
      · rcases hhere with ⟨rest, hrest⟩
        exact .inr ⟨[], rest, hrest.symm, by simp⟩
      · rcases ih with hnone | ⟨body, rest, rfl, hbody⟩
        · refine .inl ?_
          rw [List.infix_cons_iff, not_or]
          exact ⟨hhere, hnone⟩
        · refine .inr ⟨c :: body, rest, rfl, ?_⟩
          rw [List.infix_cons_iff, not_or]
          -- with this character in front there is still no mark before the close: it would stand
          -- here
          refine ⟨fun hbefore => hhere (hbefore.trans ?_), hbody⟩
          exact ⟨'*' :: '/' :: rest, rfl⟩

/-- What stands in front of the first closing delimiter is determined. -/
theorem eq_of_first_close {body body' rest rest' : List Char}
    (h : body ++ '*' :: '/' :: rest = body' ++ '*' :: '/' :: rest')
    (hbody : ¬ ['*', '/'] <:+: body) (hbody' : ¬ ['*', '/'] <:+: body') :
    body = body' ∧ rest = rest' := by
  -- the longer body would go on with the delimiter, or with its star
  have hlonger : ∀ {a b l r r' : List Char}, b = a ++ l → '*' :: '/' :: r = l ++ '*' :: '/' :: r' →
      ¬ ['*', '/'] <:+: b → l = [] := by
    intro a b l r r' hb hl hnone
    match l with
    | [] => rfl
    | [x] => simp at hl
    | x :: y :: l =>
        simp only [List.cons_append, List.cons.injEq] at hl
        refine absurd ⟨a, l, ?_⟩ hnone
        simp [hb, ← hl.1, ← hl.2.1]
  rcases List.append_eq_append_iff.1 h with ⟨l, hb, hl⟩ | ⟨l, hb, hl⟩
  · obtain rfl := hlonger hb hl hbody'
    rw [List.append_nil] at hb
    rw [List.nil_append, List.cons.injEq, List.cons.injEq] at hl
    exact ⟨hb.symm, hl.2.2⟩
  · obtain rfl := hlonger hb hl hbody
    rw [List.append_nil] at hb
    rw [List.nil_append, List.cons.injEq, List.cons.injEq] at hl
    exact ⟨hb, hl.2.2.symm⟩

/-- The rest of a line, and what follows it. -/
theorem exists_line_end (cs : List Char) :
    ∃ body rest, cs = body ++ rest ∧ (∀ c ∈ body, isNewline c = false) ∧
      ∀ c ∈ rest.head?, isNewline c = true := by
  refine ⟨cs.takeWhile fun c => !isNewline c, cs.dropWhile fun c => !isNewline c,
    List.takeWhile_append_dropWhile.symm, ?_, ?_⟩
  · intro c hc
    simpa using List.all_eq_true.1 List.all_takeWhile c hc
  · intro c hc
    have hstop := List.head?_dropWhile_not (fun c => !isNewline c) cs
    rw [Option.mem_def.1 hc] at hstop
    simpa using hstop

/-- Every script can be cut. -/
theorem exists_isCut (text : List Char) : ∃ pieces, IsCut text pieces := by
  -- a piece has a character, so what is behind it is cut by induction
  induction hn : text.length using Nat.strongRecOn generalizing text with
  | _ n ih =>
      subst hn
      cases text with
      | nil => exact ⟨[], .nil⟩
      | cons c cs =>
          by_cases hblock : ['/', '*'] <+: c :: cs
          · rcases hblock with ⟨inner, hinner⟩
            rcases exists_first_close inner with hnone | ⟨body, rest, rfl, hbody⟩
            · rw [← hinner]
              exact ⟨_, .unclosed hnone⟩
            · have hshorter : rest.length < (c :: cs).length := by
                rw [← hinner]
                simp only [List.length_append, List.length_cons]
                omega
              rcases ih _ hshorter rest rfl with ⟨pieces, hrest⟩
              rw [← hinner]
              exact ⟨.block body true :: pieces, .block hbody hrest⟩
          · by_cases hline : ['/', '/'] <+: c :: cs
            · rcases hline with ⟨inner, hinner⟩
              rcases exists_line_end inner with ⟨body, rest, rfl, hbody, hend⟩
              have hshorter : rest.length < (c :: cs).length := by
                rw [← hinner]
                simp only [List.length_append, List.length_cons]
                omega
              rcases ih _ hshorter rest rfl with ⟨pieces, hrest⟩
              rw [← hinner]
              exact ⟨.line body :: pieces, .line hbody hend hrest⟩
            · rcases ih cs.length (Nat.lt_succ_self _) cs rfl with ⟨pieces, hrest⟩
              exact ⟨_, .code hblock hline hrest⟩

/-- The rest of a line is determined. -/
theorem eq_of_line_end {body body' rest rest' : List Char} (h : body ++ rest = body' ++ rest')
    (hbody : ∀ c ∈ body, isNewline c = false) (hbody' : ∀ c ∈ body', isNewline c = false)
    (hend : ∀ c ∈ rest.head?, isNewline c = true) (hend' : ∀ c ∈ rest'.head?, isNewline c = true) :
    body = body' ∧ rest = rest' := by
  -- the longer body would have the newline character behind the shorter one
  have hlonger : ∀ {a b l r : List Char}, b = a ++ l → (∀ c ∈ b, isNewline c = false) →
      (∀ c ∈ (l ++ r).head?, isNewline c = true) → l = [] := by
    intro a b l r hb hnone hnewline
    cases l with
    | nil => rfl
    | cons x l =>
        have hx : isNewline x = true := hnewline x rfl
        rw [hnone x (by simp [hb])] at hx
        cases hx
  rcases List.append_eq_append_iff.1 h with ⟨l, hb, rfl⟩ | ⟨l, hb, rfl⟩
  · obtain rfl := hlonger hb hbody' hend
    rw [List.append_nil] at hb
    exact ⟨hb.symm, rfl⟩
  · obtain rfl := hlonger hb hbody hend'
    rw [List.append_nil] at hb
    exact ⟨hb, rfl⟩

/-- No script can be cut in two ways. -/
theorem IsCut.unique {text : List Char} {pieces pieces' : List Piece} (h : IsCut text pieces)
    (h' : IsCut text pieces') : pieces = pieces' := by
  -- induction on the first cut; the text decides which rule the second cut begins with, and the
  -- lemmas on line ends and first closes decide how long its comment is
  induction h generalizing pieces' with
  | nil =>
      cases h'
      rfl
  | code hblock hline _ ih =>
      cases h' with
      | code _ _ hrest => rw [ih hrest]
      | line => exact absurd ⟨_, rfl⟩ hline
      | block | unclosed => exact absurd ⟨_, rfl⟩ hblock
  | @line body cs pieces hbody hend _ ih =>
      generalize htext : '/' :: '/' :: (body ++ cs) = text at h'
      cases h' with
      | nil => cases htext
      | code _ hline =>
          rw [← htext] at hline
          exact absurd ⟨_, rfl⟩ hline
      | line hbody' hend' hrest =>
          simp only [List.cons.injEq, true_and] at htext
          rcases eq_of_line_end htext hbody hbody' hend hend' with ⟨rfl, rfl⟩
          rw [ih hrest]
      | block | unclosed => simp at htext
  | @block body cs pieces hbody _ ih =>
      generalize htext : '/' :: '*' :: (body ++ '*' :: '/' :: cs) = text at h'
      cases h' with
      | nil => cases htext
      | code hblock =>
          rw [← htext] at hblock
          exact absurd ⟨_, rfl⟩ hblock
      | line => simp at htext
      | block hbody' hrest =>
          simp only [List.cons.injEq, true_and] at htext
          rcases eq_of_first_close htext hbody hbody' with ⟨rfl, rfl⟩
          rw [ih hrest]
      -- an unclosed comment would contain the mark that closed the first one
      | unclosed hnone =>
          simp only [List.cons.injEq, true_and] at htext
          exact absurd ⟨_, _, by simpa using htext⟩ hnone
  | @unclosed body hbody =>
      generalize htext : '/' :: '*' :: body = text at h'
      cases h' with
      | nil => cases htext
      | code hblock =>
          rw [← htext] at hblock
          exact absurd ⟨_, rfl⟩ hblock
      | line => simp at htext
      -- the other way round: the first cut says that there is no such mark
      | block =>
          simp only [List.cons.injEq, true_and] at htext
          exact absurd ⟨_, _, by simpa using htext.symm⟩ hbody
      | unclosed =>
          simp only [List.cons.injEq, true_and] at htext
          rw [htext]

/-! ## What reading leaves -/

/-- A reading that starts with these characters left. -/
def CommentReading.behind (front : List Char) (r : CommentReading) : CommentReading :=
  front.foldr CommentReading.push r

@[simp] theorem CommentReading.text_behind (front : List Char) (r : CommentReading) :
    (r.behind front).text = front ++ r.text := by
  induction front with
  | nil => rfl
  | cons c cs ih => exact congrArg (c :: ·) ih

@[simp] theorem CommentReading.mode_behind (front : List Char) (r : CommentReading) :
    (r.behind front).mode = r.mode := by
  induction front with
  | nil => rfl
  | cons c cs ih => exact ih

section

variable {c : Char} {body cs : List Char}

theorem readComments_code (hblock : ¬ ['/', '*'] <+: c :: cs) (hline : ¬ ['/', '/'] <+: c :: cs) :
    readComments .code (c :: cs) = (readComments .code cs).push (blankOut c) := by
  rw [readComments]
  · rintro rest rfl rfl
    exact hblock ⟨rest, rfl⟩
  · rintro rest rfl rfl
    exact hline ⟨rest, rfl⟩

/-- At a newline character it does not matter whether a line comment ends there. -/
theorem readComments_newline (hc : isNewline c = true) (mode : CommentMode)
    (hmode : mode ≠ .blockComment) :
    readComments mode (c :: cs) = (readComments .code cs).push c := by
  have hslash : c ≠ '/' := by
    rintro rfl
    cases hc
  cases mode with
  | code =>
      rw [readComments_code (by simp [Ne.symm hslash]) (by simp [Ne.symm hslash]), blankOut,
        if_pos hc]
  | blockComment => exact absurd rfl hmode
  | lineComment => rw [readComments, if_pos hc]

theorem readComments_line (hbody : ∀ c ∈ body, isNewline c = false) :
    readComments .lineComment (body ++ cs) = (readComments .lineComment cs).behind body := by
  induction body with
  | nil => rfl
  | cons c body ih =>
      have hc : isNewline c = false := hbody c (List.mem_cons_self ..)
      have hrest : ∀ d ∈ body, isNewline d = false := fun d hd => hbody d (.tail c hd)
      rw [List.cons_append, readComments, hc, if_neg Bool.false_ne_true, ih hrest]
      rfl

/-- Behind a line comment code is read, if there is anything. -/
theorem readComments_line_end (hend : ∀ c ∈ cs.head?, isNewline c = true) (hne : cs ≠ []) :
    readComments .lineComment cs = readComments .code cs := by
  cases cs with
  | nil => exact absurd rfl hne
  | cons c cs =>
      have hc : isNewline c = true := hend c rfl
      rw [readComments_newline hc .lineComment (by decide),
        readComments_newline hc .code (by decide)]

theorem text_readComments_line_end (hend : ∀ c ∈ cs.head?, isNewline c = true) :
    (readComments .lineComment cs).text = (readComments .code cs).text := by
  cases cs with
  | nil => rfl
  | cons c cs => rw [readComments_line_end hend (List.cons_ne_nil c cs)]

/-- A block comment goes on in front of a text that does not close it. -/
theorem readComments_block_cons (h : ¬ ['*', '/'] <+: c :: cs) :
    readComments .blockComment (c :: cs) = (readComments .blockComment cs).push c := by
  rw [readComments]
  rintro rest rfl rfl
  exact h ⟨rest, rfl⟩

theorem readComments_unclosed (hbody : ¬ ['*', '/'] <:+: body) :
    readComments .blockComment body = (CommentReading.mk [] 0 .blockComment).behind body := by
  induction body with
  | nil => rfl
  | cons c body ih =>
      rw [List.infix_cons_iff, not_or] at hbody
      rw [readComments_block_cons hbody.1, ih hbody.2]
      rfl

theorem readComments_block (hbody : ¬ ['*', '/'] <:+: body) :
    readComments .blockComment (body ++ '*' :: '/' :: cs) =
      (readComments .code cs).pushDelimiter.behind body := by
  induction body with
  | nil => rfl
  | cons c body ih =>
      rw [List.infix_cons_iff, not_or] at hbody
      have hopen : ¬ ['*', '/'] <+: c :: (body ++ '*' :: '/' :: cs) := by
        intro hclose
        cases body with
        | nil => simp at hclose
        | cons d body => exact hbody.1 (by simpa using hclose)
      rw [List.cons_append, readComments_block_cons hopen, ih hbody.2]
      rfl

end

namespace IsCut

variable {text : List Char} {pieces : List Piece}

/-- The pieces of a text make up the text. -/
theorem flatMap_spelling (h : IsCut text pieces) : pieces.flatMap Piece.spelling = text := by
  induction h with
  | nil => rfl
  | code _ _ _ ih | line _ _ _ ih | block _ _ ih => simp [Piece.spelling, ih]
  | unclosed => simp [Piece.spelling]

/-- Reading a script leaves the contents of its comments. -/
theorem flatMap_left (h : IsCut text pieces) : pieces.flatMap Piece.left = keepComments text := by
  unfold keepComments
  -- induction on the cut: each piece is what one run of the reader pushes
  induction h with
  | nil => rfl
  | code hblock hline _ ih =>
      rw [readComments_code hblock hline, List.flatMap_cons, ih]
      rfl
  | line hbody hend _ ih =>
      rw [readComments, readComments_line hbody, List.flatMap_cons, ih,
        ← text_readComments_line_end hend]
      simp [Piece.left, CommentReading.pushDelimiter, CommentReading.push]
  | block hbody _ ih =>
      rw [readComments, readComments_block hbody, List.flatMap_cons, ih]
      simp [Piece.left, CommentReading.pushDelimiter, CommentReading.push]
  | unclosed hbody =>
      rw [readComments, readComments_unclosed hbody]
      simp [Piece.left, CommentReading.pushDelimiter, CommentReading.push]

end IsCut

/-! ## Where reading ends -/

/-- The mode in which pieces leave a reading: that of the last one. -/
def modeBehind (pieces : List Piece) : CommentMode :=
  match pieces.getLast? with
  | some (.line _) => .lineComment
  | some (.block _ false) => .blockComment
  | _ => .code

theorem modeBehind_cons {pieces : List Piece} (p : Piece) (hne : pieces ≠ []) :
    modeBehind (p :: pieces) = modeBehind pieces := by
  unfold modeBehind
  rw [List.getLast?_cons_of_ne_nil hne]

/-- A piece that code follows leaves the mode to the pieces behind it, if there are any. -/
theorem modeBehind_cons_of_code {p : Piece} (hp : modeBehind [p] = .code) (pieces : List Piece) :
    modeBehind (p :: pieces) = modeBehind pieces := by
  cases pieces with
  | nil => exact hp
  | cons q pieces => exact modeBehind_cons p (List.cons_ne_nil q pieces)

theorem modeBehind_eq_lineComment_iff {pieces : List Piece} :
    modeBehind pieces = .lineComment ↔ ∃ body, pieces.getLast? = some (.line body) := by
  unfold modeBehind
  split <;> simp_all

theorem modeBehind_eq_blockComment_iff {pieces : List Piece} :
    modeBehind pieces = .blockComment ↔ ∃ body, pieces.getLast? = some (.block body false) := by
  unfold modeBehind
  split <;> simp_all

/-- Reading a script ends in the mode of its last piece. -/
theorem IsCut.mode_readComments {text : List Char} {pieces : List Piece} (h : IsCut text pieces) :
    (readComments .code text).mode = modeBehind pieces := by
  induction h with
  | nil => rfl
  | code hblock hline _ ih =>
      rw [readComments_code hblock hline, modeBehind_cons_of_code rfl]
      exact ih
  | @line body cs pieces hbody hend hrest ih =>
      rw [readComments, readComments_line hbody]
      -- a line comment leaves the reader in its mode only when it is the last piece
      cases hrest with
      | nil => simp [CommentReading.pushDelimiter, CommentReading.push, readComments, modeBehind]
      | code | line | block | unclosed =>
          rw [modeBehind_cons _ (List.cons_ne_nil _ _), ← ih,
            ← readComments_line_end hend (List.cons_ne_nil _ _)]
          simp [CommentReading.pushDelimiter, CommentReading.push]
  | block hbody _ ih =>
      rw [readComments, readComments_block hbody, modeBehind_cons_of_code rfl, ← ih]
      simp [CommentReading.pushDelimiter, CommentReading.push]
  | unclosed hbody =>
      rw [readComments, readComments_unclosed hbody]
      simp [CommentReading.pushDelimiter, CommentReading.push, modeBehind]

/-- A script is cut in exactly one way, and reading it is told by the cut: the contents of comments
are left, and blanks for all else but the newline characters; nothing is skipped; and the reading
ends within a block comment, or within a line comment, just if the last piece is one that is not
closed. -/
theorem exists_cut_of_reading (script : List Char) :
    ∃ pieces, IsCut script pieces ∧ (∀ pieces', IsCut script pieces' → pieces' = pieces) ∧
      pieces.flatMap Piece.spelling = script ∧
      let reading := readComments .code script
      reading.text = pieces.flatMap Piece.left ∧ reading.text.length = script.length ∧
      (∀ (i : Nat) (c : Char), isNewline c = true →
        (reading.text[i]? = some c ↔ script[i]? = some c)) ∧
      reading.position = script.length ∧
      (reading.mode = .blockComment ↔ ∃ body, pieces.getLast? = some (.block body false)) ∧
      (reading.mode = .lineComment ↔ ∃ body, pieces.getLast? = some (.line body)) ∧
      (reading.mode = .code ↔ (∀ body, pieces.getLast? ≠ some (.block body false)) ∧
        ∀ body, pieces.getLast? ≠ some (.line body)) := by
  rcases exists_isCut script with ⟨pieces, hcut⟩
  have hblock : (readComments .code script).mode = .blockComment ↔ _ :=
    hcut.mode_readComments ▸ modeBehind_eq_blockComment_iff
  have hline : (readComments .code script).mode = .lineComment ↔ _ :=
    hcut.mode_readComments ▸ modeBehind_eq_lineComment_iff
  refine ⟨pieces, hcut, fun pieces' hcut' => hcut'.unique hcut, hcut.flatMap_spelling,
    hcut.flatMap_left.symm, length_text_readComments .., ?_, position_readComments ..,
    hblock, hline, ?_⟩
  · intro i c hc
    -- a newline character is one of the blanked text, which a reading shares with its script
    have hblanked (text : List Char) : text[i]? = some c ↔ (text.map blankOut)[i]? = some c := by
      rw [List.getElem?_map]
      cases text[i]? with
      | none => simp
      | some d => simp [blankOut_eq_iff hc]
    rw [hblanked, hblanked script, ← map_blankOut_keepComments script]
    rfl
  · rw [← not_exists, ← not_exists, ← hblock, ← hline]
    cases (readComments .code script).mode <;> simp

/-! ## Comments -/

/-- A comment of a script: the offset of its opening delimiter, its contents, and the offset behind
it. -/
structure Comment where
  start : Nat
  body : List Char
  stop : Nat
  deriving DecidableEq

namespace Comment

/-- The offset of the first character behind the opening delimiter. -/
def bodyStart (c : Comment) : Nat := c.start + 2

/-- The offset behind the contents. -/
def bodyStop (c : Comment) : Nat := c.bodyStart + c.body.length

end Comment

/-- The comment that a piece at an offset is, if it is one. -/
def Piece.comment? (start : Nat) : Piece → Option Comment
  | code _ => none
  | line body => some ⟨start, body, start + (line body).spelling.length⟩
  | block body closed => some ⟨start, body, start + (block body closed).spelling.length⟩

/-- The comments among pieces the first of which has the given offset. -/
def commentsFrom (start : Nat) : List Piece → List Comment
  | [] => []
  | p :: ps => (p.comment? start).toList ++ commentsFrom (start + p.spelling.length) ps

/-- A text has this comment if it is read from left to right. -/
def IsComment (text : List Char) (c : Comment) : Prop :=
  ∃ pieces, IsCut text pieces ∧ c ∈ commentsFrom 0 pieces

/-- The comments of a text are those among its pieces. -/
theorem IsCut.isComment_iff {text : List Char} {pieces : List Piece} (h : IsCut text pieces)
    {c : Comment} : IsComment text c ↔ c ∈ commentsFrom 0 pieces := by
  constructor
  · rintro ⟨pieces', hcut, hc⟩
    rwa [h.unique hcut]
  · intro hc
    exact ⟨pieces, h, hc⟩

end ComponentMarkup
