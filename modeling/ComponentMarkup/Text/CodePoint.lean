/-!
# Code points

Source texts are lists of `Char`. Strings that come out of a JSON escape may also hold a surrogate
that has no partner, so they are lists of code points. Both are ordered by code point.
-/

namespace ComponentMarkup

/-- A Unicode code point, surrogates included. -/
abbrev CodePoint := Fin 0x110000

/-- A text of code points. -/
abbrev Text := List CodePoint

namespace CodePoint

/-- The code point of a character. -/
def ofChar (c : Char) : CodePoint :=
  ⟨c.toNat, by
    have h := c.valid
    simp only [UInt32.isValidChar, Nat.isValidChar] at h
    simp only [Char.toNat]
    omega⟩

@[simp] theorem val_ofChar (c : Char) : (ofChar c).val = c.toNat := rfl

theorem ofChar_injective {c d : Char} (h : ofChar c = ofChar d) : c = d := by
  have hval : (ofChar c).val = (ofChar d).val := by rw [h]
  exact Char.ext (UInt32.toNat_inj.1 hval)

/-- The first code point of a surrogate pair. -/
def IsHighSurrogate (p : CodePoint) : Prop := 0xD800 ≤ p.val ∧ p.val < 0xDC00

/-- The second code point of a surrogate pair. -/
def IsLowSurrogate (p : CodePoint) : Prop := 0xDC00 ≤ p.val ∧ p.val < 0xE000

instance (p : CodePoint) : Decidable p.IsHighSurrogate := by
  unfold IsHighSurrogate; infer_instance

instance (p : CodePoint) : Decidable p.IsLowSurrogate := by
  unfold IsLowSurrogate; infer_instance

/-- The code point above `0xFFFF` that a surrogate pair stands for. -/
def ofPair (high low : CodePoint) : CodePoint :=
  ⟨0x10000 + high.val % 0x400 * 0x400 + low.val % 0x400, by omega⟩

/-- The character of a code point, unless it is a surrogate. -/
def toChar? (p : CodePoint) : Option Char :=
  if h : p.val.isValidChar then some (Char.ofNatAux p.val h) else none

end CodePoint

namespace Text

/-- The code points of a list of characters. -/
def ofChars (cs : List Char) : Text := cs.map CodePoint.ofChar

/-- The code points of a string. -/
def ofString (s : String) : Text := ofChars s.toList

@[simp] theorem ofChars_nil : ofChars [] = [] := rfl

@[simp] theorem ofChars_cons (c : Char) (cs : List Char) :
    ofChars (c :: cs) = CodePoint.ofChar c :: ofChars cs := rfl

@[simp] theorem ofChars_append (a b : List Char) : ofChars (a ++ b) = ofChars a ++ ofChars b :=
  List.map_append

@[simp] theorem length_ofChars (cs : List Char) : (ofChars cs).length = cs.length :=
  List.length_map _

/-- Puts a code point in front of a text; a high surrogate joins with a low one that follows. -/
def joinPair (p : CodePoint) : Text → Text
  | q :: rest =>
      if p.IsHighSurrogate ∧ q.IsLowSurrogate then CodePoint.ofPair p q :: rest else p :: q :: rest
  | [] => [p]

end Text

end ComponentMarkup
