import ComponentMarkup.Text.Utf8
import Mathlib.Data.List.Forall2

/-!
# UTF-8 there and back

What is written as bytes is read back as the same text (`Utf8.decode_encode`). The bytes of a
character are a first one and those that continue it; which values these may have depends on the
first one, so that no character has two spellings and none is a surrogate.
-/

namespace ComponentMarkup.Utf8

/-! ## Decoding one character -/

/-- Bytes lie within their ranges. -/
def Match (ranges : List (UInt8 × UInt8)) (bs : List UInt8) : Prop :=
  List.Forall₂ (fun range b => range.1 ≤ b ∧ b ≤ range.2) ranges bs

theorem matching_eq {ranges : List (UInt8 × UInt8)} {bs : List UInt8} (h : Match ranges bs)
    (rest : List UInt8) : matching ranges (bs ++ rest) = ranges.length := by
  induction h with
  | nil => rfl
  | @cons range b ranges bs hb _ ih =>
      rw [List.cons_append, matching, if_pos hb, ih, List.length_cons]

/-- The bytes that continue a character are passed over. -/
theorem decodeFrom_skip (skip position : Nat) (bs : List UInt8) :
    decodeFrom skip position bs = decodeFrom 0 (position + skip) (bs.drop skip) := by
  induction bs generalizing skip position with
  | nil => simp [decodeFrom]
  | cons b bs ih =>
      cases skip with
      | zero => rfl
      | succ skip =>
          rw [decodeFrom, if_pos (Nat.succ_pos skip), Nat.add_sub_cancel, ih, List.drop_succ_cons]
          congr 1
          omega

/-- A first byte and the bytes that continue it are decoded as one character. -/
theorem decodeFrom_cons {b : UInt8} {more : List UInt8} (hb : ¬ b < 0x80) (hmore : more ≠ [])
    (hmatch : Match (continuations b) more) (position : Nat) (rest : List UInt8) :
    decodeFrom 0 position (b :: (more ++ rest)) =
      (decodeFrom 0 (position + 1 + more.length) rest).map (assemble b more :: ·) := by
  have hlength : (continuations b).length = more.length := hmatch.length_eq
  have hranges : continuations b ≠ [] := by
    intro hnil
    rw [hnil] at hlength
    exact hmore (List.length_eq_zero_iff.1 hlength.symm)
  rw [decodeFrom, if_neg (Nat.lt_irrefl 0), if_neg hb]
  dsimp only
  rw [if_neg hranges, matching_eq hmatch, if_pos rfl, hlength, List.take_left, decodeFrom_skip,
    List.drop_left]

/-! ## Encoding one character -/

theorem toNat_ofNat {n : Nat} (h : n < 256) : (UInt8.ofNat n).toNat = n :=
  UInt8.toNat_ofNat_of_lt' h

/-- The ranges behind a first byte, by its number. -/
theorem continuations_ofNat {n : Nat} (h : n < 256) :
    continuations (UInt8.ofNat n) =
      if n < 0xC2 then []
      else if n < 0xE0 then [(0x80, 0xBF)]
      else if n = 0xE0 then [(0xA0, 0xBF), (0x80, 0xBF)]
      else if n = 0xED then [(0x80, 0x9F), (0x80, 0xBF)]
      else if n < 0xF0 then [(0x80, 0xBF), (0x80, 0xBF)]
      else if n = 0xF0 then [(0x90, 0xBF), (0x80, 0xBF), (0x80, 0xBF)]
      else if n < 0xF4 then [(0x80, 0xBF), (0x80, 0xBF), (0x80, 0xBF)]
      else if n = 0xF4 then [(0x80, 0x8F), (0x80, 0xBF), (0x80, 0xBF)]
      else [] := by
  simp only [continuations, UInt8.lt_iff_toNat_lt, ← UInt8.toNat_inj, toNat_ofNat h,
    UInt8.reduceToNat]

theorem match_cons {low high : UInt8} {ranges : List (UInt8 × UInt8)} {n : Nat} {bs : List UInt8}
    (hn : n < 256) (hlow : low.toNat ≤ n) (hhigh : n ≤ high.toNat) (h : Match ranges bs) :
    Match ((low, high) :: ranges) (UInt8.ofNat n :: bs) := by
  refine .cons ⟨?_, ?_⟩ h
  · rwa [UInt8.le_iff_toNat_le, toNat_ofNat hn]
  · rwa [UInt8.le_iff_toNat_le, toNat_ofNat hn]

/-- The last six bits of a number, in a byte that continues a character. -/
theorem match_tail {ranges : List (UInt8 × UInt8)} {bs : List UInt8} (n : Nat)
    (h : Match ranges bs) :
    Match ((0x80, 0xBF) :: ranges) (UInt8.ofNat (n % 64 + 128) :: bs) := by
  have hlow : UInt8.toNat 0x80 = 128 := rfl
  have hhigh : UInt8.toNat 0xBF = 191 := rfl
  exact match_cons (by omega) (by omega) (by omega) h

theorem not_lt_of_ge {n : Nat} (hn : n < 256) (h : 0x80 ≤ n) : ¬ UInt8.ofNat n < 0x80 := by
  have hlow : UInt8.toNat 0x80 = 128 := rfl
  rw [UInt8.lt_iff_toNat_lt, toNat_ofNat hn]
  omega

/-- A first byte and bytes that continue it encode a character, which is assembled from them
again. -/
structure Encodes (b : UInt8) (more : List UInt8) (c : Char) : Prop where
  encode : String.utf8EncodeChar c = b :: more
  first : ¬ b < 0x80
  ne_nil : more ≠ []
  continued : Match (continuations b) more
  assemble : assemble b more = c

section

variable {c : Char}

theorem ofNat_eq {n : Nat} (h : n = c.val.toNat) : Char.ofNat n = c := by
  rw [h]
  exact Char.ofNat_toNat c

theorem toNat_tail (n : Nat) : (UInt8.ofNat (n % 64 + 128)).toNat % 64 = n % 64 := by
  rw [toNat_ofNat (by omega)]
  omega

/-- Up to eleven bits take two bytes. -/
theorem exists_encodes_two (hlow : 127 < c.val.toNat) (hhigh : c.val.toNat ≤ 2047) :
    ∃ b more, Encodes b more c := by
  have hbits : Nat.pow 2 (6 - 1) = 32 := rfl
  have hfirst : c.val.toNat / 64 % 32 + 192 < 256 := by omega
  refine ⟨UInt8.ofNat (c.val.toNat / 64 % 32 + 192), [UInt8.ofNat (c.val.toNat % 64 + 128)],
    ?_, not_lt_of_ge hfirst (by omega), by simp, ?_, ?_⟩
  · rw [String.utf8EncodeChar, if_neg (by omega), if_pos hhigh]
  · rw [continuations_ofNat hfirst, if_neg (by omega), if_pos (by omega)]
    exact match_tail _ .nil
  · apply ofNat_eq
    simp only [List.foldl_cons, List.foldl_nil, List.length_cons, List.length_nil, toNat_tail,
      toNat_ofNat hfirst, Nat.zero_add, hbits]
    omega

/-- Up to sixteen bits take three bytes. -/
theorem exists_encodes_three (hlow : 2047 < c.val.toNat) (hhigh : c.val.toNat ≤ 65535) :
    ∃ b more, Encodes b more c := by
  have hvalid := c.valid
  simp only [UInt32.isValidChar, Nat.isValidChar] at hvalid
  have hbits : Nat.pow 2 (6 - 2) = 16 := rfl
  have h80 : UInt8.toNat 0x80 = 0x80 := rfl
  have h9F : UInt8.toNat 0x9F = 0x9F := rfl
  have hA0 : UInt8.toNat 0xA0 = 0xA0 := rfl
  have hBF : UInt8.toNat 0xBF = 0xBF := rfl
  have hfirst : c.val.toNat / 4096 % 16 + 224 < 256 := by omega
  refine ⟨UInt8.ofNat (c.val.toNat / 4096 % 16 + 224),
    [UInt8.ofNat (c.val.toNat / 64 % 64 + 128), UInt8.ofNat (c.val.toNat % 64 + 128)],
    ?_, not_lt_of_ge hfirst (by omega), by simp, ?_, ?_⟩
  · rw [String.utf8EncodeChar, if_neg (by omega), if_neg (by omega), if_pos hhigh]
  · have hlast : Match [(0x80, 0xBF)] [UInt8.ofNat (c.val.toNat % 64 + 128)] := match_tail _ .nil
    rw [continuations_ofNat hfirst, if_neg (by omega), if_neg (by omega)]
    by_cases hshort : c.val.toNat / 4096 % 16 + 224 = 0xE0
    · -- anything less would be two bytes
      rw [if_pos hshort]
      exact match_cons (by omega) (by rw [hA0]; omega) (by rw [hBF]; omega) hlast
    · by_cases hsurrogate : c.val.toNat / 4096 % 16 + 224 = 0xED
      · -- anything more would be a surrogate
        rw [if_neg hshort, if_pos hsurrogate]
        exact match_cons (by omega) (by rw [h80]; omega) (by rw [h9F]; omega) hlast
      · rw [if_neg hshort, if_neg hsurrogate, if_pos (by omega)]
        exact match_tail (c.val.toNat / 64) hlast
  · apply ofNat_eq
    simp only [List.foldl_cons, List.foldl_nil, List.length_cons, List.length_nil, toNat_tail,
      toNat_ofNat hfirst, Nat.zero_add, hbits, Nat.reduceAdd]
    omega

/-- All other code points take four bytes. -/
theorem exists_encodes_four (hlow : 65535 < c.val.toNat) : ∃ b more, Encodes b more c := by
  have hvalid := c.valid
  simp only [UInt32.isValidChar, Nat.isValidChar] at hvalid
  have hbits : Nat.pow 2 (6 - 3) = 8 := rfl
  have h80 : UInt8.toNat 0x80 = 0x80 := rfl
  have h8F : UInt8.toNat 0x8F = 0x8F := rfl
  have h90 : UInt8.toNat 0x90 = 0x90 := rfl
  have hBF : UInt8.toNat 0xBF = 0xBF := rfl
  have hfirst : c.val.toNat / 262144 % 8 + 240 < 256 := by omega
  refine ⟨UInt8.ofNat (c.val.toNat / 262144 % 8 + 240),
    [UInt8.ofNat (c.val.toNat / 4096 % 64 + 128), UInt8.ofNat (c.val.toNat / 64 % 64 + 128),
      UInt8.ofNat (c.val.toNat % 64 + 128)],
    ?_, not_lt_of_ge hfirst (by omega), by simp, ?_, ?_⟩
  · rw [String.utf8EncodeChar, if_neg (by omega), if_neg (by omega), if_neg (by omega)]
  · have hlast : Match [(0x80, 0xBF), (0x80, 0xBF)]
        [UInt8.ofNat (c.val.toNat / 64 % 64 + 128), UInt8.ofNat (c.val.toNat % 64 + 128)] :=
      match_tail _ (match_tail _ .nil)
    rw [continuations_ofNat hfirst, if_neg (by omega), if_neg (by omega), if_neg (by omega),
      if_neg (by omega), if_neg (by omega)]
    by_cases hshort : c.val.toNat / 262144 % 8 + 240 = 0xF0
    · -- anything less would be three bytes
      rw [if_pos hshort]
      exact match_cons (by omega) (by rw [h90]; omega) (by rw [hBF]; omega) hlast
    · by_cases hinner : c.val.toNat / 262144 % 8 + 240 < 0xF4
      · rw [if_neg hshort, if_pos hinner]
        exact match_tail (c.val.toNat / 4096) hlast
      · -- anything more would be no code point
        rw [if_neg hshort, if_neg hinner, if_pos (by omega)]
        exact match_cons (by omega) (by rw [h80]; omega) (by rw [h8F]; omega) hlast
  · apply ofNat_eq
    simp only [List.foldl_cons, List.foldl_nil, List.length_cons, List.length_nil, toNat_tail,
      toNat_ofNat hfirst, Nat.zero_add, hbits, Nat.reduceAdd]
    omega

/-- A character past ASCII takes two bytes or more. -/
theorem exists_encodes (h : 0x7F < c.toNat) : ∃ b more, Encodes b more c := by
  rw [Char.toNat] at h
  by_cases htwo : c.val.toNat ≤ 2047
  · exact exists_encodes_two h htwo
  · by_cases hthree : c.val.toNat ≤ 65535
    · exact exists_encodes_three (Nat.lt_of_not_le htwo) hthree
    · exact exists_encodes_four (Nat.lt_of_not_le hthree)

end

theorem encode_ascii {c : Char} (h : c.toNat ≤ 0x7F) :
    String.utf8EncodeChar c = [UInt8.ofNat c.toNat] := by
  rw [Char.toNat] at h ⊢
  rw [String.utf8EncodeChar, if_pos h]

/-! ## Texts -/

theorem encode_cons (c : Char) (cs : List Char) :
    encode (c :: cs) = String.utf8EncodeChar c ++ encode cs := List.flatMap_cons

theorem decodeFrom_encode (position : Nat) (text : List Char) :
    decodeFrom 0 position (encode text) = .ok text := by
  induction text generalizing position with
  | nil => rfl
  | cons c cs ih =>
      rw [encode_cons]
      -- a character is one byte, or a first byte with continuations
      by_cases hascii : c.toNat ≤ 0x7F
      · have hbyte : (UInt8.ofNat c.toNat).toNat = c.toNat := toNat_ofNat (by omega)
        have hlt : UInt8.ofNat c.toNat < 0x80 := by
          have h80 : UInt8.toNat 0x80 = 0x80 := rfl
          rw [UInt8.lt_iff_toNat_lt, hbyte, h80]
          omega
        rw [encode_ascii hascii, List.singleton_append, decodeFrom, if_neg (Nat.lt_irrefl 0),
          if_pos hlt, ih, hbyte, Char.ofNat_toNat]
        rfl
      · rcases exists_encodes (Nat.lt_of_not_le hascii) with ⟨b, more, h⟩
        rw [h.encode, List.cons_append, decodeFrom_cons h.first h.ne_nil h.continued, ih,
          h.assemble]
        rfl

/-- Bytes that encode a text are decoded to it. -/
theorem decode_encode (text : List Char) : decode (encode text) = .ok text :=
  decodeFrom_encode 0 text

end ComponentMarkup.Utf8
