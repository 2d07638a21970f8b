import ComponentMarkup.Json.Tree
import ComponentMarkup.Number.Shortest
import ComponentMarkup.Text.Quoted

/-!
# Printing JSON

A value is printed on lines of its own for each element and member, indented by two blanks a level,
in ASCII. Integers and doubles have their shortest text; what is not finite has the words by which
it is read.
-/

namespace ComponentMarkup

/-- A UTF-16 unit as an escape. -/
def unitEscape (unit : Nat) : List Char := '\\' :: 'u' :: paddedHex 4 unit

/-- A code point within a JSON string. -/
def printPoint (p : CodePoint) : List Char :=
  let n := p.val
  if n = 0x22 then ['\\', '"']
  else if n = 0x5C then ['\\', '\\']
  else if n = 0x08 then ['\\', 'b']
  else if n = 0x0C then ['\\', 'f']
  else if n = 0x0A then ['\\', 'n']
  else if n = 0x0D then ['\\', 'r']
  else if n = 0x09 then ['\\', 't']
  else if 0x20 ≤ n ∧ n ≤ 0x7E then [Char.ofNat n]
  else if n < 0x10000 then unitEscape n
  else
    unitEscape (0xD800 + (n - 0x10000) / 0x400) ++ unitEscape (0xDC00 + (n - 0x10000) % 0x400)

/-- A JSON string. -/
def printString (t : Text) : List Char := '"' :: t.flatMap printPoint ++ ['"']

/-- A double as a JSON number, or a word if it is not finite. -/
def printDouble (d : Double) : List Char :=
  match d with
  | .finite .. => d.text
  | .infinity negative => (if negative then "-Infinity" else "Infinity").toList
  | .nan => "NaN".toList

/-- A JSON scalar. -/
def printScalar : Scalar → List Char
  | .null => "null".toList
  | .bool b => (if b then "true" else "false").toList
  | .string t => printString t
  | .integer n => (toString n).toList
  | .float d => printDouble d

/-- A new line that is indented to a level. -/
def indentedLine (level : Nat) : List Char := '\n' :: List.replicate (2 * level) ' '

/-- Parts between brackets, each on a line of its own; without parts the brackets are alone. -/
def printBlock (level : Nat) (opening closing : Char) (parts : List (List Char)) : List Char :=
  if parts = [] then [opening, closing]
  else
    opening :: (List.intersperse [','] (parts.map (indentedLine (level + 1) ++ ·))).flatten ++
      indentedLine level ++ [closing]

/-- A JSON value at a level of indentation. -/
def printTree : Value → Nat → List Char :=
  Tree.fold (fun _ v _ => printScalar v)
    (fun _ items level =>
      printBlock level '[' ']' (items.map fun print => print (level + 1)))
    (fun _ members level =>
      printBlock level '\x7b' '\x7d' (members.map fun m =>
        printString m.1 ++ [':', ' '] ++ m.2 (level + 1)))

/-- A JSON value. -/
def printJson (v : Value) : List Char := printTree v 0

end ComponentMarkup
