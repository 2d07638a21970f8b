import ComponentMarkup.Proofs.Comments.Cut
import ComponentMarkup.Proofs.Verdict

/-!
# Markers in comments

In a script those markers count that stand in the contents of one comment
(`Source.mem_offsets_script_iff`). All but the contents of comments becomes blank, and a marker has
no blanks, so what is found lies within what is left of one comment; and what is left of a comment
is what the script has there, with a gap behind it (`exists_body_of_mem_commentsFrom`).
-/

namespace ComponentMarkup

/-! ## Where a comment has its contents -/

section

variable {start : Nat}

namespace Piece

/-- Each piece leaves a blank or a newline character first. -/
theorem startsWithGap_left (p : Piece) (cs : List Char) : StartsWithGap (p.left ++ cs) := by
  intro c hc
  cases p with
  | code d =>
      obtain rfl : blankOut d = c := by simpa [left] using hc
      unfold blankOut
      split
      · next hnewline => exact .inr hnewline
      · exact .inl rfl
  | line | block =>
      obtain rfl : ' ' = c := by simpa [left] using hc
      exact .inl rfl

/-- The contents of a comment stand behind its opening delimiter and are left unchanged. -/
theorem exists_body {p : Piece} {c : Comment} (hc : p.comment? start = some c) :
    c.bodyStart = start + 2 ∧ ∃ a b close close', p.spelling = a :: b :: (c.body ++ close) ∧
      p.left = ' ' :: ' ' :: (c.body ++ close') ∧ (close' = [] ∨ close' = [' ', ' ']) := by
  cases p with
  | code d => cases hc
  | line body =>
      obtain rfl := Option.some.inj hc
      exact ⟨rfl, '/', '/', [], [], by simp [spelling], by simp [left], .inl rfl⟩
  | block body closed =>
      obtain rfl := Option.some.inj hc
      cases closed with
      | true => exact ⟨rfl, '/', '*', ['*', '/'], [' ', ' '], rfl, rfl, .inr rfl⟩
      | false => exact ⟨rfl, '/', '*', [], [], rfl, rfl, .inl rfl⟩

/-- What is left of a piece and is no gap belongs to the contents of a comment. -/
theorem exists_comment {p : Piece} {i : Nat} {d : Char} (hd : p.left[i]? = some d)
    (hspace : d ≠ ' ') (hnewline : isNewline d = false) :
    ∃ c, p.comment? start = some c ∧ c.bodyStart ≤ start + i ∧ start + i < c.bodyStop := by
  cases hc : p.comment? start with
  | none =>
      cases p with
      | line | block => cases hc
      | code e =>
          -- code leaves one character, and it is a gap
          have hgap := startsWithGap_left (code e) []
          have hi := (List.getElem?_eq_some_iff.1 hd).1
          obtain rfl : i = 0 := Nat.lt_one_iff.1 hi
          rcases hgap d (by simpa [left] using hd) with h | h
          · exact absurd h hspace
          · rw [hnewline] at h
            cases h
  | some c =>
      rcases exists_body hc with ⟨hstart, -, -, -, close', -, hleft, hclose⟩
      refine ⟨c, rfl, ?_⟩
      rw [hleft] at hd
      unfold Comment.bodyStop
      rw [hstart]
      rcases i with _ | _ | j
      · exact absurd (Option.some.inj hd).symm hspace
      · exact absurd (Option.some.inj hd).symm hspace
      · replace hd : (c.body ++ close')[j]? = some d := hd
        have hj : j < c.body.length := by
          apply Nat.lt_of_not_le
          intro hle
          rw [List.getElem?_append_right hle] at hd
          have hmem : d ∈ close' := List.mem_of_getElem? hd
          rcases hclose with rfl | rfl <;> simp [hspace] at hmem
        omega

end Piece

variable {pieces : List Piece}

theorem startsWithGap_flatMap_left (pieces : List Piece) :
    StartsWithGap (pieces.flatMap Piece.left) := by
  cases pieces with
  | nil => simp [StartsWithGap]
  | cons p ps => exact p.startsWithGap_left _

/-- What is left and is no gap belongs to the contents of a comment. -/
theorem exists_mem_commentsFrom (start : Nat) {i : Nat} {d : Char}
    (hd : (pieces.flatMap Piece.left)[i]? = some d) (hspace : d ≠ ' ')
    (hnewline : isNewline d = false) :
    ∃ c ∈ commentsFrom start pieces, c.bodyStart ≤ start + i ∧ start + i < c.bodyStop := by
  -- induction on the pieces; what the filter leaves has the length of the spelling, so the offset
  -- tells in which piece the character stands
  induction pieces generalizing start i with
  | nil => cases hd
  | cons p ps ih =>
      rw [List.flatMap_cons] at hd
      unfold commentsFrom
      rcases Nat.lt_or_ge i p.left.length with hhere | hbehind
      · rw [List.getElem?_append_left hhere] at hd
        -- a character that is neither blank nor a line end is left by a comment only
        rcases Piece.exists_comment hd hspace hnewline with ⟨c, hc, hlower, hupper⟩
        exact ⟨c, by simp [hc], hlower, hupper⟩
      · rw [List.getElem?_append_right hbehind, Piece.length_left] at hd
        rw [Piece.length_left] at hbehind
        rcases ih (start + p.spelling.length) hd with ⟨c, hc, hlower, hupper⟩
        exact ⟨c, List.mem_append_right _ hc, by omega, by omega⟩

/-- The contents of a comment stand in the script, and stand with a gap behind them in what is left
of it. -/
theorem exists_body_of_mem_commentsFrom {c : Comment} (hc : c ∈ commentsFrom start pieces) :
    ∃ k rest rest', c.bodyStart = start + k ∧
      (pieces.flatMap Piece.spelling).drop k = c.body ++ rest ∧
      (pieces.flatMap Piece.left).drop k = c.body ++ rest' ∧ StartsWithGap rest' := by
  induction pieces generalizing start with
  | nil => cases hc
  | cons p ps ih =>
      rw [List.flatMap_cons, List.flatMap_cons]
      rcases List.mem_append.1 hc with hhere | hbehind
      · -- the comment is this piece: two characters are its opening delimiter
        rcases Piece.exists_body (Option.mem_toList.1 hhere) with
          ⟨hstart, a, b, close, close', hspelling, hleft, hclose⟩
        refine ⟨2, close ++ ps.flatMap Piece.spelling, close' ++ ps.flatMap Piece.left, hstart,
          ?_, ?_, ?_⟩
        · simp [hspelling]
        · simp [hleft]
        · -- a line comment is closed by what follows, a block comment by the blanks left for its
          -- mark
          rcases hclose with rfl | rfl
          · exact startsWithGap_flatMap_left ps
          · simp [StartsWithGap]
      · -- a later piece: both texts drop the same number of characters
        rcases ih hbehind with ⟨k, rest, rest', hstart, hspelling, hleft, hgap⟩
        refine ⟨p.spelling.length + k, rest, rest', by omega, ?_, ?_, hgap⟩
        · rw [List.drop_length_add_append, hspelling]
        · rw [← Piece.length_left, List.drop_length_add_append, hleft]

end

/-- A text without gaps is left at an offset of a script just where the script has it in the
contents of a comment. -/
theorem isPrefix_drop_keepComments_iff {word text : List Char} (hword : word ≠ [])
    (hgap : HasNoGap word) {offset : Nat} :
    word <+: (keepComments text).drop offset ↔
      word <+: text.drop offset ∧
        ∃ c, IsComment text c ∧ c.bodyStart ≤ offset ∧ offset + word.length ≤ c.bodyStop := by
  rcases exists_isCut text with ⟨pieces, hcut⟩
  rw [← hcut.flatMap_left]
  -- from an offset within a comment on, script and rest begin with the same part of its contents
  have hwithin : ∀ c ∈ commentsFrom 0 pieces, c.bodyStart ≤ offset → offset < c.bodyStop →
      ∃ part rest rest', c.bodyStop = offset + part.length ∧ text.drop offset = part ++ rest ∧
        (pieces.flatMap Piece.left).drop offset = part ++ rest' ∧ StartsWithGap rest' := by
    intro c hc hlower hupper
    rcases exists_body_of_mem_commentsFrom hc with ⟨k, rest, rest', hstart, htext, hleft, hrest'⟩
    rw [hcut.flatMap_spelling] at htext
    unfold Comment.bodyStop at hupper ⊢
    obtain ⟨j, rfl⟩ : ∃ j, offset = k + j := ⟨offset - k, by omega⟩
    have hj : j ≤ c.body.length := by omega
    refine ⟨c.body.drop j, rest, rest', ?_, ?_, ?_, hrest'⟩
    · rw [List.length_drop]
      omega
    · rw [← List.drop_drop, htext, List.drop_append_of_le_length hj]
    · rw [← List.drop_drop, hleft, List.drop_append_of_le_length hj]
  constructor
  · intro hleft
    obtain ⟨d, more, rfl⟩ := List.exists_cons_of_ne_nil hword
    have hd : (pieces.flatMap Piece.left)[offset]? = some d := by
      rcases hleft with ⟨behind, hbehind⟩
      rw [← List.head?_drop, ← hbehind]
      rfl
    have hdgap := hgap d (List.mem_cons_self ..)
    rcases exists_mem_commentsFrom 0 hd hdgap.1 hdgap.2 with ⟨c, hc, hlower, hupper⟩
    rw [Nat.zero_add] at hlower hupper
    rcases hwithin c hc hlower hupper with ⟨part, rest, rest', hstop, htext, hdrop, hrest'⟩
    rw [hdrop] at hleft
    have hpart := hgap.isPrefix_of_append hrest' hleft
    refine ⟨?_, c, hcut.isComment_iff.2 hc, hlower, ?_⟩
    · rw [htext]
      exact hpart.trans (List.prefix_append ..)
    · rw [hstop]
      exact Nat.add_le_add_left hpart.length_le _
  · rintro ⟨hfound, c, hc, hlower, hupper⟩
    have hlength := List.length_pos_iff.2 hword
    rcases hwithin c (hcut.isComment_iff.1 hc) hlower (by omega) with
      ⟨part, rest, rest', hstop, htext, hdrop, -⟩
    rw [htext] at hfound
    have hpart : word <+: part :=
      List.prefix_of_prefix_length_le hfound (List.prefix_append ..) (by omega)
    rw [hdrop]
    exact hpart.trans (List.prefix_append ..)

namespace Source

/-- In a script exactly those occurrences of the marker are found, each once and in order, that
stand in the contents of one comment. -/
theorem mem_offsets_script_iff {scope : Scope} {s : Source} (hkind : s.kind = .script)
    (hmarker : scope.marker ≠ []) (hgap : HasNoGap scope.marker) :
    (s.offsets scope).Pairwise (· < ·) ∧
      ∀ offset, offset ∈ s.offsets scope ↔
        scope.marker <+: s.text.drop offset ∧
          ∃ c, IsComment s.text c ∧ c.bodyStart ≤ offset ∧
            offset + scope.marker.length ≤ c.bodyStop := by
  have hscanned : s.scannedText = keepComments s.text := by simp only [scannedText, hkind]
  refine ⟨pairwise_markerOffsets .., fun offset => ?_⟩
  unfold offsets
  rw [mem_markerOffsets_iff hmarker, hscanned, isPrefix_drop_keepComments_iff hmarker hgap]

/-- Overlapping occurrences count within a comment, one behind an opener in a line comment too, but
none in code, over two comments or behind the end of one. -/
theorem mem_offsets_script_iff_overlapping :
    let scope : Scope :=
      { marker := "MM".toList, root := none, workingDirectory := [], room := 981 }
    let s : Source :=
      { path := "a".toList, kind := .script, text := "MM /*MMM*//*M*/M//M/*MM".toList }
    s.kind = .script ∧ scope.marker ≠ [] ∧ HasNoGap scope.marker ∧ s.offsets scope = [5, 6, 21] ∧
      ∀ offset, offset ∈ s.offsets scope ↔
        scope.marker <+: s.text.drop offset ∧
          ∃ c, IsComment s.text c ∧ c.bodyStart ≤ offset ∧
            offset + scope.marker.length ≤ c.bodyStop := by
  intro scope s
  have hmarker : scope.marker ≠ [] := by decide
  have hgap : HasNoGap scope.marker := by decide
  exact ⟨rfl, hmarker, hgap, by decide, (mem_offsets_script_iff rfl hmarker hgap).2⟩

end Source

end ComponentMarkup
