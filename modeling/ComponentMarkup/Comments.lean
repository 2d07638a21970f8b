import ComponentMarkup.Text.Place

/-!
# Comments

A script is reduced to the contents of its comments. Code becomes blanks, the delimiters of a
comment become two blanks each, and newline characters stay, so every offset, line and column of
the result is one of the script.
-/

namespace ComponentMarkup

/-- Where the reading of a script stands. -/
inductive CommentMode where
  /-- Outside of comments. -/
  | code
  /-- Between the opening and the closing delimiter of a block comment. -/
  | blockComment
  /-- Behind the delimiter of a line comment, up to the next newline character. -/
  | lineComment
  deriving DecidableEq, Repr

/-- What is left of a script, how many characters were read, and the mode at its end. -/
structure CommentReading where
  text : List Char
  position : Nat
  mode : CommentMode
  deriving DecidableEq

namespace CommentReading

/-- A reading that starts one character earlier. -/
def push (c : Char) (r : CommentReading) : CommentReading :=
  { r with text := c :: r.text, position := r.position + 1 }

/-- A reading that starts with a delimiter. -/
def pushDelimiter (r : CommentReading) : CommentReading := (r.push ' ').push ' '

end CommentReading

/-- Reads a script from the given mode on. -/
def readComments : CommentMode → List Char → CommentReading
  | mode, [] => ⟨[], 0, mode⟩
  | .code, '/' :: '*' :: cs => (readComments .blockComment cs).pushDelimiter
  | .code, '/' :: '/' :: cs => (readComments .lineComment cs).pushDelimiter
  | .code, c :: cs => (readComments .code cs).push (blankOut c)
  | .blockComment, '*' :: '/' :: cs => (readComments .code cs).pushDelimiter
  | .blockComment, c :: cs => (readComments .blockComment cs).push c
  | .lineComment, c :: cs =>
      (readComments (if isNewline c then .code else .lineComment) cs).push c

/-- The comments of a script, everything else blank. -/
def keepComments (script : List Char) : List Char := (readComments .code script).text

/-- Nothing is skipped: the reading ends at the end of the script. -/
theorem position_readComments (mode : CommentMode) (script : List Char) :
    (readComments mode script).position = script.length := by
  fun_induction readComments mode script <;>
    simp_all [CommentReading.push, CommentReading.pushDelimiter]

theorem length_text_readComments (mode : CommentMode) (script : List Char) :
    (readComments mode script).text.length = script.length := by
  fun_induction readComments mode script <;>
    simp_all [CommentReading.push, CommentReading.pushDelimiter]

@[simp] theorem length_keepComments (script : List Char) :
    (keepComments script).length = script.length := length_text_readComments ..

end ComponentMarkup
