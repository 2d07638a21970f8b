/-!
# Places

A place names a character of a text by line and column, both from 1. What ends a line is a
parameter: sources end lines at CR LF, CR or LF, the messages of the JSON reader at LF only.
-/

namespace ComponentMarkup

/-- A line and a column, both from 1, or -1 where nothing is known. -/
structure Place where
  line : Int := -1
  column : Int := -1
  deriving DecidableEq, Repr, Inhabited

/-- The place of a value that stands in no text. -/
def Place.unknown : Place := {}

/-- Carriage return and line feed. -/
def isNewline (c : Char) : Bool := c = '\n' || c = '\r'

/-- A blank in place of a character; newline characters stay. -/
def blankOut (c : Char) : Char := if isNewline c then c else ' '

/-- A rule for line ends: does this character, followed by that text, end its line? -/
abbrev LineEnd := Char → List Char → Bool

namespace LineEnd

/-- Lines end at CR LF, CR or LF. -/
def anyBreak : LineEnd := fun c rest => c = '\n' || c = '\r' && rest.head? ≠ some '\n'

/-- Lines end at LF. -/
def lineFeed : LineEnd := fun c _ => c = '\n'

end LineEnd

/-- The places of all characters of a text that starts at the given line and column, and last the
place of its end. -/
def placesFrom (ends : LineEnd) (line column : Nat) : List Char → List Place
  | [] => [⟨line, column⟩]
  | c :: cs =>
      ⟨line, column⟩ ::
        if ends c cs then placesFrom ends (line + 1) 1 cs else placesFrom ends line (column + 1) cs

/-- The places of all characters of a text, and of its end. -/
def places (ends : LineEnd) (text : List Char) : List Place := placesFrom ends 1 1 text

/-- The place of the character at an offset. -/
def placeAt (ends : LineEnd) (text : List Char) (offset : Nat) : Place :=
  (places ends text)[offset]?.getD .unknown

@[simp] theorem length_placesFrom (ends : LineEnd) (line column : Nat) (text : List Char) :
    (placesFrom ends line column text).length = text.length + 1 := by
  induction text generalizing line column with
  | nil => rfl
  | cons c cs ih => simp only [placesFrom]; split <;> simp [ih]

@[simp] theorem length_places (ends : LineEnd) (text : List Char) :
    (places ends text).length = text.length + 1 := length_placesFrom ..

end ComponentMarkup
