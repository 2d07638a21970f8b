import ComponentMarkup.Text.CaseTable
import ComponentMarkup.Text.PrintableTable

/-!
# Quoted text

The form in which messages show the name of a file: in single quotes, or in double ones if it holds
single quotes and no double one, with escapes for all characters that are not printed.
-/

namespace ComponentMarkup

/-- Is a character shown as it is? -/
def isPrinted (c : Char) : Bool := !inRanges unprintedRanges c.toNat

/-- A number in lower-case hexadecimal, with zeros in front up to a width. -/
def paddedHex (width n : Nat) : List Char :=
  let digits := Nat.toDigits 16 n
  List.replicate (width - digits.length) '0' ++ digits

/-- A character between the given quotes. -/
def quotedChar (quote c : Char) : List Char :=
  let n := c.toNat
  if c = quote ∨ c = '\\' then ['\\', c]
  else if c = '\n' then ['\\', 'n']
  else if c = '\r' then ['\\', 'r']
  else if c = '\t' then ['\\', 't']
  else if isPrinted c then [c]
  else if n < 0x100 then '\\' :: 'x' :: paddedHex 2 n
  else if n < 0x10000 then '\\' :: 'u' :: paddedHex 4 n
  else '\\' :: 'U' :: paddedHex 8 n

/-- A text in quotes. -/
def quoted (text : List Char) : List Char :=
  let quote := if '\'' ∈ text ∧ '"' ∉ text then '"' else '\''
  quote :: text.flatMap (quotedChar quote) ++ [quote]

end ComponentMarkup
