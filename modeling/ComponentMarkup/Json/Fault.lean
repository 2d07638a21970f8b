import ComponentMarkup.Number.IntegerText
import ComponentMarkup.Text.Place

/-!
# Faults of a JSON text

Why a text is no JSON value, and the messages that say so. The place in a message counts lines by
line feeds alone.
-/

namespace ComponentMarkup

/-- What is wrong at one offset of a text. -/
inductive Complaint where
  | byteOrderMark
  | expectingValue
  | expectingName
  | expectingColon
  | expectingComma
  | unterminatedString
  | controlCharacter
  | unknownEscape
  | badUnicodeEscape
  | extraData
  deriving DecidableEq, Repr

/-- The two containers of JSON. -/
inductive Container where
  | array
  | object
  deriving DecidableEq, Repr

/-- Why a text is refused. -/
inductive Fault where
  /-- The text breaks the grammar at an offset. -/
  | malformed (complaint : Complaint) (offset : Nat)
  /-- An integer has more digits than are read. -/
  | hugeInteger (digits : Nat)
  /-- A container is nested too deep to be read. -/
  | tooDeep (container : Container)
  /-- The value is read, but its containers are nested too deep to be converted. -/
  | outOfCalls
  /-- The text holds a spelling that is none of JSON: a number that is not finite, or an exponent
  with a plus sign. -/
  | foreignSpelling
  deriving DecidableEq, Repr

namespace Complaint

/-- The words for a complaint. -/
def message : Complaint → String
  | byteOrderMark => "Unexpected UTF-8 BOM (decode using utf-8-sig)"
  | expectingValue => "Expecting value"
  | expectingName => "Expecting property name enclosed in double quotes"
  | expectingColon => "Expecting ':' delimiter"
  | expectingComma => "Expecting ',' delimiter"
  | unterminatedString => "Unterminated string starting at"
  | controlCharacter => "Invalid control character at"
  | unknownEscape => "Invalid \\escape"
  | badUnicodeEscape => "Invalid \\uXXXX escape"
  | extraData => "Extra data"

end Complaint

/-- The word for a container. -/
def Container.word : Container → String
  | .array => "array"
  | .object => "object"

namespace Fault

/-- The message for a fault of a text. -/
def message (text : List Char) : Fault → String
  | malformed complaint offset =>
      let place := placeAt .lineFeed text offset
      complaint.message ++ ": line " ++ toString place.line ++ " column " ++
        toString place.column ++ " (char " ++ toString offset ++ ")"
  | hugeInteger digits =>
      "Exceeds the limit (" ++ toString integerDigitLimit ++
        " digits) for integer string conversion: value has " ++ toString digits ++
        " digits; use sys.set_int_max_str_digits() to increase the limit"
  | tooDeep container =>
      "maximum recursion depth exceeded while decoding a JSON " ++ container.word ++
        " from a unicode string"
  | outOfCalls => "maximum recursion depth exceeded"
  | foreignSpelling => "JSON syntax tree contains errors"

end Fault

end ComponentMarkup
