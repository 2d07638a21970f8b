import ComponentMarkup.Json.Lexeme

/-!
# Reading JSON

Lexemes are read from left to right with a stack of the containers that are open. The result keeps
what was spelled: repeated members, numerals, and the offset of every value.
-/

namespace ComponentMarkup

/-- A JSON value as spelled, every node with the offset of its first character. -/
abbrev SpelledTree := Tree Nat Literal

/-- An open container, the value last begun in it not included. What it holds already is in
reverse order. -/
inductive Frame where
  | array (start : Nat) (items : List SpelledTree)
  | object (start : Nat) (members : List (Text × SpelledTree)) (name : Text)

/-- The offset of the next lexeme, or of the end of the text. -/
def nextOffset (stop : Nat) : List Lexeme → Nat
  | [] => stop
  | l :: _ => l.start

/-- The fault of lexemes that do not start with a value. -/
def valueFault (stop : Nat) : List Lexeme → Fault
  | ⟨_, .badString fault⟩ :: _ => fault
  | ⟨_, .hugeInteger digits⟩ :: _ => .hugeInteger digits
  | ls => .malformed .expectingValue (nextOffset stop ls)

/-- The fault of lexemes that do not start with a name and a colon. -/
def nameFault (stop : Nat) : List Lexeme → Fault
  | ⟨_, .badString fault⟩ :: _ => fault
  | ⟨_, .literal (.string _)⟩ :: ls => .malformed .expectingColon (nextOffset stop ls)
  | ls => .malformed .expectingName (nextOffset stop ls)

mutual

/-- Reads a value and all containers around it, which may be nested `levels` deep. `stop` is the
length of the text. -/
def readValue (levels stop : Nat) (stack : List Frame) :
    List Lexeme → Except Fault (SpelledTree × List Lexeme)
  | ⟨start, .literal value⟩ :: ls => readAfter levels stop (.leaf start value) stack ls
  | ⟨start, .openArray⟩ :: ls =>
      if stack.length ≥ levels then .error (.tooDeep .array)
      else
        match ls with
        | ⟨_, .closeArray⟩ :: ls => readAfter levels stop (.array start []) stack ls
        | ls => readValue levels stop (.array start [] :: stack) ls
  | ⟨start, .openObject⟩ :: ls =>
      if stack.length ≥ levels then .error (.tooDeep .object)
      else
        match ls with
        | ⟨_, .closeObject⟩ :: ls => readAfter levels stop (.object start []) stack ls
        | ⟨_, .literal (.string name)⟩ :: ⟨_, .colon⟩ :: ls =>
            readValue levels stop (.object start [] name :: stack) ls
        | ls => .error (nameFault stop ls)
  | ls => .error (valueFault stop ls)

/-- Goes on behind a value: it is the result if no container is open. -/
def readAfter (levels stop : Nat) (value : SpelledTree) :
    List Frame → List Lexeme → Except Fault (SpelledTree × List Lexeme)
  | [], ls => .ok (value, ls)
  | .array start items :: stack, ⟨_, .comma⟩ :: ls =>
      readValue levels stop (.array start (value :: items) :: stack) ls
  | .array start items :: stack, ⟨_, .closeArray⟩ :: ls =>
      readAfter levels stop (.array start (value :: items).reverse) stack ls
  | .object start members name :: stack, ⟨_, .comma⟩ :: ls =>
      match ls with
      | ⟨_, .literal (.string next)⟩ :: ⟨_, .colon⟩ :: ls =>
          readValue levels stop (.object start ((name, value) :: members) next :: stack) ls
      | ls => .error (nameFault stop ls)
  | .object start members name :: stack, ⟨_, .closeObject⟩ :: ls =>
      readAfter levels stop (.object start ((name, value) :: members).reverse) stack ls
  | _, ls => .error (.malformed .expectingComma (nextOffset stop ls))

end

/-- Reads a text as one JSON value, in which containers may be nested `levels` deep. -/
def readSpelled (levels : Nat) (text : List Char) : Except Fault SpelledTree :=
  if text.head? = some '\uFEFF' then .error (.malformed .byteOrderMark 0)
  else
    match readValue levels text.length [] (lexemes text) with
    | .ok (tree, []) => .ok tree
    | .ok (_, l :: _) => .error (.malformed .extraData l.start)
    | .error fault => .error fault

end ComponentMarkup
