/-!
# UTF-8

Decoding tells which bytes it rejects and why: a byte that starts no character, a byte that does
not continue one, or an end within one.
-/

namespace ComponentMarkup

/-- Why bytes are no UTF-8. -/
inductive Utf8Cause where
  | invalidStart
  | invalidContinuation
  | unexpectedEnd
  deriving DecidableEq, Repr

/-- The bytes that are rejected: the first of them, its offset, and how many there are. -/
structure Utf8Fault where
  byte : UInt8
  position : Nat
  count : Nat
  cause : Utf8Cause
  deriving DecidableEq, Repr

namespace Utf8

/-- The least and the greatest value of each byte behind a first byte that starts more than one. -/
def continuations (first : UInt8) : List (UInt8 × UInt8) :=
  let any : UInt8 × UInt8 := (0x80, 0xBF)
  if first < 0xC2 then []
  else if first < 0xE0 then [any]
  else if first = 0xE0 then [(0xA0, 0xBF), any]
  else if first = 0xED then [(0x80, 0x9F), any]
  else if first < 0xF0 then [any, any]
  else if first = 0xF0 then [(0x90, 0xBF), any, any]
  else if first < 0xF4 then [any, any, any]
  else if first = 0xF4 then [(0x80, 0x8F), any, any]
  else []

/-- How many bytes lie within their ranges before one does not, or before bytes or ranges end. -/
def matching : List (UInt8 × UInt8) → List UInt8 → Nat
  | (low, high) :: ranges, b :: bs =>
      if low ≤ b ∧ b ≤ high then matching ranges bs + 1 else 0
  | _, _ => 0

/-- The character of a first byte and the bytes that continue it. -/
def assemble (first : UInt8) (more : List UInt8) : Char :=
  let head := first.toNat % Nat.pow 2 (6 - more.length)
  Char.ofNat (more.foldl (fun n b => n * 64 + b.toNat % 64) head)

/-- Decodes bytes of which the first `skip` belong to a character before and the first has the
given offset. -/
def decodeFrom (skip position : Nat) : List UInt8 → Except Utf8Fault (List Char)
  | [] => .ok []
  | b :: bs =>
      if skip > 0 then decodeFrom (skip - 1) (position + 1) bs
      else if b < 0x80 then (decodeFrom 0 (position + 1) bs).map (Char.ofNat b.toNat :: ·)
      else
        let ranges := continuations b
        let count := matching ranges bs
        if ranges = [] then .error ⟨b, position, 1, .invalidStart⟩
        else if count = ranges.length then
          (decodeFrom count (position + 1) bs).map (assemble b (bs.take count) :: ·)
        else if count = bs.length then .error ⟨b, position, count + 1, .unexpectedEnd⟩
        else .error ⟨b, position, count + 1, .invalidContinuation⟩

/-- Decodes bytes to text; a byte order mark is a character like any other. -/
def decode (bytes : List UInt8) : Except Utf8Fault (List Char) := decodeFrom 0 0 bytes

/-- The bytes of a text. -/
def encode (text : List Char) : List UInt8 := text.flatMap String.utf8EncodeChar

end Utf8

end ComponentMarkup
