import ComponentMarkup.Proofs.Comments.Cut
import ComponentMarkup.Proofs.Verdict

/-!
# Code has no influence

A script may have other code around its comments (`RewritesCode`), so long as it has no slash there
and its newline characters stay: the reading of the comments leaves the same text and ends in the
same mode (`readComments_rewritesCode`), and with it all that is parsed stays the same
(`Source.parse_rewritesCode`). Both scripts are read side by side, piece by piece of the first one.
-/

namespace ComponentMarkup

/-- The second text is the first one but for some offsets that are not kept. Newline characters stay
there too, and what stands for another character is neither slash nor newline character. -/
structure Rewrites (kept : Nat → Prop) (text text' : List Char) : Prop where
  length_eq : text'.length = text.length
  same : ∀ i, kept i → text'[i]? = text[i]?
  newline : ∀ (i : Nat) (d : Char), text[i]? = some d → isNewline d = true → text'[i]? = some d
  other : ∀ (i : Nat) (d d' : Char), ¬ kept i → text[i]? = some d → isNewline d = false →
    text'[i]? = some d' → d' ≠ '/' ∧ isNewline d' = false

/-- Does this offset of a text belong to a comment, be it to a delimiter or to the contents? -/
def InComment (text : List Char) (i : Nat) : Prop :=
  ∃ c, IsComment text c ∧ c.start ≤ i ∧ i < c.stop

/-- The second text is the first one with other code. -/
def RewritesCode (text text' : List Char) : Prop := Rewrites (InComment text) text text'

theorem Rewrites.congr {kept kept' : Nat → Prop} {text text' : List Char}
    (h : Rewrites kept text text') (hkept : ∀ i, kept i ↔ kept' i) : Rewrites kept' text text' := by
  obtain rfl : kept = kept' := funext fun i => propext (hkept i)
  exact h

/-- Behind a front the texts are rewritten at the remaining offsets. -/
theorem Rewrites.behind {kept : Nat → Prop} {front cs text' : List Char}
    (h : Rewrites kept (front ++ cs) text') :
    Rewrites (fun i => kept (front.length + i)) cs (text'.drop front.length) := by
  -- behind the front the text is read at a shifted index; the four clauses are the old ones at it
  have hrest : ∀ i, (front ++ cs)[front.length + i]? = cs[i]? := by
    intro i
    rw [List.getElem?_append_right (Nat.le_add_right ..), Nat.add_sub_cancel_left]
  refine ⟨?_, ?_, ?_, ?_⟩
  · rw [List.length_drop, h.length_eq, List.length_append, Nat.add_sub_cancel_left]
  · intro i hkept
    rw [List.getElem?_drop, h.same _ hkept, hrest]
  · intro i d hd hnewline
    rw [List.getElem?_drop]
    exact h.newline _ d (by rwa [hrest]) hnewline
  · intro i d d' hkept hd hnewline hd'
    rw [List.getElem?_drop] at hd'
    exact h.other _ d d' hkept (by rwa [hrest]) hnewline hd'

/-! ## One piece after the other -/

/-- Does this offset, counted from the first of the pieces, belong to one that is a comment? -/
def InComments (start : Nat) (pieces : List Piece) (i : Nat) : Prop :=
  ∃ c ∈ commentsFrom start pieces, c.start ≤ start + i ∧ start + i < c.stop

instance (start : Nat) (pieces : List Piece) (i : Nat) : Decidable (InComments start pieces i) :=
  inferInstanceAs
    (Decidable (∃ c ∈ commentsFrom start pieces, c.start ≤ start + i ∧ start + i < c.stop))

theorem IsCut.inComment_iff {text : List Char} {pieces : List Piece} (h : IsCut text pieces)
    {i : Nat} : InComment text i ↔ InComments 0 pieces i := by
  simp only [InComment, InComments, h.isComment_iff, Nat.zero_add]

section

variable {start : Nat} {p : Piece} {pieces : List Piece} {cs text' : List Char} {c : Comment}

/-- A comment reaches from the offset of its piece to the end of the piece. -/
theorem Piece.comment?_bounds (hc : p.comment? start = some c) :
    c.start = start ∧ c.stop = start + p.spelling.length := by
  cases p with
  | code => cases hc
  | line | block =>
      obtain rfl := Option.some.inj hc
      exact ⟨rfl, rfl⟩

theorem le_start_of_mem_commentsFrom (hc : c ∈ commentsFrom start pieces) : start ≤ c.start := by
  induction pieces generalizing start with
  | nil => cases hc
  | cons p ps ih =>
      rcases List.mem_append.1 hc with hhere | hbehind
      · exact Nat.le_of_eq (Piece.comment?_bounds (Option.mem_toList.1 hhere)).1.symm
      · exact Nat.le_trans (Nat.le_add_right ..) (ih hbehind)

/-- An offset of the first piece belongs to a comment just if this piece is one. -/
theorem inComments_cons_of_lt {i : Nat} (hi : i < p.spelling.length) :
    InComments start (p :: pieces) i ↔ ∃ c, p.comment? start = some c := by
  constructor
  · rintro ⟨c, hc, hlower, hupper⟩
    rcases List.mem_append.1 hc with hhere | hbehind
    · exact ⟨c, Option.mem_toList.1 hhere⟩
    · have hle := le_start_of_mem_commentsFrom hbehind
      omega
  · rintro ⟨c, hc⟩
    have hbounds := Piece.comment?_bounds hc
    exact ⟨c, List.mem_append_left _ (Option.mem_toList.2 hc), by omega, by omega⟩

theorem inComments_cons_add {i : Nat} : InComments start (p :: pieces) (p.spelling.length + i) ↔
    InComments (start + p.spelling.length) pieces i := by
  unfold InComments
  rw [← Nat.add_assoc]
  constructor
  · rintro ⟨c, hc, hlower, hupper⟩
    rcases List.mem_append.1 hc with hhere | hbehind
    · have hstop := (Piece.comment?_bounds (Option.mem_toList.1 hhere)).2
      omega
    · exact ⟨c, hbehind, hlower, hupper⟩
  · rintro ⟨c, hc, hlower, hupper⟩
    exact ⟨c, List.mem_append_right _ hc, hlower, hupper⟩

/-- A comment stays as it is, and behind it the other pieces are rewritten. -/
theorem Rewrites.of_comment {text : List Char}
    (h : Rewrites (InComments start (p :: pieces)) text text') (htext : text = p.spelling ++ cs)
    (hc : p.comment? start = some c) :
    ∃ cs', text' = p.spelling ++ cs' ∧
      Rewrites (InComments (start + p.spelling.length) pieces) cs cs' := by
  subst htext
  have hlength := h.length_eq
  rw [List.length_append] at hlength
  -- the characters of a comment are all kept, so the rewritten text begins with the same spelling
  refine ⟨text'.drop p.spelling.length, ?_, h.behind.congr fun _ => inComments_cons_add⟩
  apply List.ext_getElem?
  intro i
  rcases Nat.lt_or_ge i p.spelling.length with hi | hi
  · rw [h.same i ((inComments_cons_of_lt hi).2 ⟨c, hc⟩), List.getElem?_append_left hi,
      List.getElem?_append_left hi]
  · rw [List.getElem?_append_right hi, List.getElem?_drop, Nat.add_sub_cancel' hi]

/-- For a character of the code stands one that is no slash and leaves the same. -/
theorem Rewrites.of_code {d : Char}
    (h : Rewrites (InComments start (.code d :: pieces)) (d :: cs) text') :
    ∃ d' cs', text' = d' :: cs' ∧ d' ≠ '/' ∧ blankOut d' = blankOut d ∧
      Rewrites (InComments (start + 1) pieces) cs cs' := by
  cases text' with
  -- the lengths agree, so something stands at the front of the rewritten text
  | nil => cases h.length_eq
  | cons d' cs' =>
      have hfront : Rewrites (InComments start (.code d :: pieces)) ([d] ++ cs) (d' :: cs') := h
      have hrest : Rewrites (InComments (start + 1) pieces) cs cs' :=
        hfront.behind.congr fun _ => inComments_cons_add
      have hread : d' ≠ '/' ∧ blankOut d' = blankOut d := by
        cases hd : isNewline d with
        -- a line end of code stays as it is; it is not a slash
        | true =>
            obtain rfl : d' = d := Option.some.inj (h.newline 0 d rfl hd)
            refine ⟨?_, rfl⟩
            rintro rfl
            cases hd
        -- any other character outside comments is free, but the clause `other` keeps it from being
        -- a slash or a line end
        | false =>
            have hcode : ¬ InComments start (.code d :: pieces) 0 := by
              rw [inComments_cons_of_lt Nat.zero_lt_one]
              rintro ⟨c, hc⟩
              cases hc
            rcases h.other 0 d d' hcode rfl hd rfl with ⟨hslash, hd'⟩
            exact ⟨hslash, by simp [blankOut, hd, hd']⟩
      exact ⟨d', cs', rfl, hread.1, hread.2, hrest⟩

end

/-- Where a line comment ends, the same reading goes on in both texts. -/
theorem Rewrites.readComments_line_end {kept : Nat → Prop} {cs cs' : List Char}
    (h : Rewrites kept cs cs') (hend : ∀ c ∈ cs.head?, isNewline c = true)
    (hcode : readComments .code cs' = readComments .code cs) :
    readComments .lineComment cs' = readComments .lineComment cs := by
  have hlength := h.length_eq
  cases cs with
  | nil => rw [List.eq_nil_of_length_eq_zero hlength]
  -- the comment ends at this line end, which the rewriting keeps, and both texts are read as code
  -- from there
  | cons c cs =>
      have hc : isNewline c = true := hend c rfl
      cases cs' with
      | nil => cases hlength
      | cons c' cs' =>
          obtain rfl : c' = c := Option.some.inj (h.newline 0 c rfl hc)
          rw [readComments_newline hc .code (by decide),
            readComments_newline hc .code (by decide)] at hcode
          rw [readComments_newline hc .lineComment (by decide),
            readComments_newline hc .lineComment (by decide), hcode]

/-- Other code is read to the same end. -/
theorem IsCut.readComments_eq {start : Nat} {pieces : List Piece} {text text' : List Char}
    (hcut : IsCut text pieces) (h : Rewrites (InComments start pieces) text text') :
    readComments .code text' = readComments .code text := by
  induction hcut generalizing start text' with
  | nil => rw [List.eq_nil_of_length_eq_zero h.length_eq]
  | code hblock hline _ ih =>
      rcases h.of_code with ⟨d', cs', rfl, hslash, hblank, hrest⟩
      -- without a slash no comment opens, so the second text is read on as code too
      rw [readComments_code hblock hline, readComments_code (by simp [hslash.symm])
        (by simp [hslash.symm]), ih hrest, hblank]
  | @line body _ _ hbody hend _ ih =>
      rcases h.of_comment (p := .line body) rfl rfl with ⟨cs', rfl, hrest⟩
      simp only [Piece.spelling, List.cons_append]
      rw [readComments, readComments, readComments_line hbody, readComments_line hbody,
        hrest.readComments_line_end hend (ih hrest)]
  | @block body cs _ hbody _ ih =>
      have htext : '/' :: '*' :: (body ++ '*' :: '/' :: cs) =
          (Piece.block body true).spelling ++ cs := by
        simp [Piece.spelling]
      rcases h.of_comment htext rfl with ⟨cs', rfl, hrest⟩
      simp only [Piece.spelling, if_true, List.cons_append, List.append_assoc, List.nil_append]
      rw [readComments, readComments, readComments_block hbody, readComments_block hbody, ih hrest]
  | @unclosed body hbody =>
      have htext : '/' :: '*' :: body = (Piece.block body false).spelling ++ [] := by
        simp [Piece.spelling]
      rcases h.of_comment htext rfl with ⟨cs', rfl, hrest⟩
      rw [List.eq_nil_of_length_eq_zero hrest.length_eq]
      simp [Piece.spelling]

/-- The reading of a script leaves the same text, and ends at the same position and in the same
mode, whatever the code is. -/
theorem readComments_rewritesCode {text text' : List Char} (h : RewritesCode text text') :
    readComments .code text' = readComments .code text := by
  rcases exists_isCut text with ⟨pieces, hcut⟩
  have hpieces : Rewrites (InComments 0 pieces) text text' := h.congr fun _ => hcut.inComment_iff
  exact hcut.readComments_eq hpieces

namespace Source

/-- Other code changes nothing in what is read of a script: neither what its comments leave and the
mode in which the reading ends, nor the offsets of markers, nor the markups and problems. -/
theorem parse_rewritesCode {text text' : List Char} (h : RewritesCode text text') :
    readComments .code text' = readComments .code text ∧
      ∀ (scope : Scope) (path : List Char),
        let s : Source := { path, kind := .script, text }
        let s' : Source := { path, kind := .script, text := text' }
        s'.offsets scope = s.offsets scope ∧ s'.outcomes scope = s.outcomes scope ∧
          s'.parse scope = s.parse scope := by
  -- everything the source does starts from the filtered text, which the rewriting leaves the same
  have hread := readComments_rewritesCode h
  refine ⟨hread, fun scope path => ?_⟩
  intro s s'
  have hscanned : s'.scannedText = s.scannedText := congrArg CommentReading.text hread
  have hoffsets : s'.offsets scope = s.offsets scope := by
    unfold offsets
    rw [hscanned]
  have houtcomes : s'.outcomes scope = s.outcomes scope := by
    unfold outcomes
    rw [hoffsets, hscanned]
    rfl
  refine ⟨hoffsets, houtcomes, ?_⟩
  unfold parse
  rw [houtcomes]

/-- The code of the second script has no slashes, and other characters next to the comments. -/
theorem parse_rewritesCode_next_to_comments :
    let text := "*/x/*#M\x7b\x7d*//y//#M\x7b\n'".toList
    let text' := "\"**/*#M\x7b\x7d*/**//#M\x7b\nb".toList
    RewritesCode text text' ∧ readComments .code text' = readComments .code text ∧
      ∀ (scope : Scope) (path : List Char),
        let s : Source := { path, kind := .script, text }
        let s' : Source := { path, kind := .script, text := text' }
        s'.offsets scope = s.offsets scope ∧ s'.outcomes scope = s.outcomes scope ∧
          s'.parse scope = s.parse scope := by
  intro text text'
  let pieces : List Piece :=
    [.code '*', .code '/', .code 'x', .block "#M\x7b\x7d".toList true, .code '/', .code 'y',
      .line "#M\x7b".toList, .code '\n', .code '\'']
  -- the cut is given by hand; that it is one is checked piece by piece
  have hgap : HasNoGap "#M\x7b".toList := by decide
  have hline : ∀ c ∈ "#M\x7b".toList, isNewline c = false := fun c hc => (hgap c hc).2
  have hend : ∀ c ∈ "\n'".toList.head?, isNewline c = true := by
    rintro c hc
    obtain rfl : '\n' = c := Option.some.inj hc
    rfl
  have hcut : IsCut text pieces :=
    .code (by decide) (by decide) <| .code (by decide) (by decide) <|
    .code (by decide) (by decide) <| @IsCut.block "#M\x7b\x7d".toList _ _ (by decide) <|
    .code (by decide) (by decide) <| .code (by decide) (by decide) <| .line hline hend <|
    .code (by decide) (by decide) <| .code (by decide) (by decide) .nil
  -- what remains is a check of the 20 positions, decided before the texts are made abstract
  have hlength : text.length = 20 ∧ text'.length = 20 := by decide
  have hstop : ∀ c ∈ commentsFrom 0 pieces, c.stop ≤ 20 := by decide
  have hall : ∀ i < 20, (InComments 0 pieces i → text'[i]? = text[i]?) ∧
      (isNewline (text.getD i 'x') = true → text'[i]? = text[i]?) ∧
      (¬ InComments 0 pieces i → isNewline (text.getD i 'x') = false →
        text'.getD i 'x' ≠ '/' ∧ isNewline (text'.getD i 'x') = false) := by decide
  clear_value text text' pieces
  have hlt : ∀ {i d}, text[i]? = some d → i < 20 := by
    intro i d hd
    rw [← hlength.1]
    exact (List.getElem?_eq_some_iff.1 hd).1
  have hget : ∀ {cs : List Char} {i : Nat} {d : Char}, cs[i]? = some d → cs.getD i 'x' = d := by
    intro cs i d hd
    rw [List.getD_eq_getElem?_getD, hd]
    rfl
  have hpieces : Rewrites (InComments 0 pieces) text text' := by
    refine ⟨by rw [hlength.1, hlength.2], ?_, ?_, ?_⟩
    · intro i hi
      rcases hi with ⟨c, hc, hlower, hupper⟩
      have hle := hstop c hc
      exact (hall i (by omega)).1 ⟨c, hc, hlower, hupper⟩
    · intro i d hd hnewline
      rw [(hall i (hlt hd)).2.1 (by rwa [hget hd]), hd]
    · intro i d d' hkept hd hnewline hd'
      have hother := (hall i (hlt hd)).2.2 hkept (by rwa [hget hd])
      rwa [hget hd'] at hother
  have h : RewritesCode text text' := hpieces.congr fun _ => hcut.inComment_iff.symm
  exact ⟨h, parse_rewritesCode h⟩

end Source

end ComponentMarkup
