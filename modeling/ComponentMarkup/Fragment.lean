import ComponentMarkup.Text.Place

/-!
# Fragments

A fragment is the part of a text believed to hold one JSON object. It starts with the first opening
brace at or after a given offset and ends where the braces balance, those inside string literals
counted like any other. Everything before it is blank, with its newline characters kept, so offsets
and places in a fragment are those of the text.
-/

namespace ComponentMarkup

/-- The text up to the brace that closes the last of `depth` open ones, or all of it. -/
def captureBraces (depth : Nat) : List Char → List Char
  | [] => []
  | '{' :: cs => '{' :: captureBraces (depth + 1) cs
  | '}' :: cs => '}' :: if depth = 1 then [] else captureBraces (depth - 1) cs
  | c :: cs => c :: captureBraces depth cs

/-- Blanks a text up to the first opening brace behind `skip` characters, and cuts it behind the
brace that closes this one. -/
def cutFragment : Nat → List Char → List Char
  | _, [] => []
  | 0, '{' :: cs => captureBraces 0 ('{' :: cs)
  | skip, c :: cs => blankOut c :: cutFragment (skip - 1) cs

/-- The fragment that follows an offset, which is clamped to the text. -/
def fragmentAt (text : List Char) (start : Int) : List Char :=
  cutFragment (min start.toNat text.length) text

end ComponentMarkup
