import GoLike.Lib.Utf8

/-!
# UTF-8 with replacement

The text decoder of JavaScript that is not fatal. What is not UTF-8 is replaced: one replacement
character for the longest beginning of a character that is found, or for one byte.
-/

namespace JsString

/-- The character that stands for bytes that are not UTF-8. -/
def replacementCharacter : Char := Char.ofNat 0xFFFD

/-- How many bytes have to follow a byte, and the bounds of the first of them. -/
def continuations (b : UInt8) : ℕ × ℕ × ℕ :=
  if 0xC2 ≤ b.toNat ∧ b.toNat ≤ 0xDF then (1, 0x80, 0xBF)
  else if b.toNat = 0xE0 then (2, 0xA0, 0xBF)
  else if b.toNat = 0xED then (2, 0x80, 0x9F)
  else if 0xE0 ≤ b.toNat ∧ b.toNat ≤ 0xEF then (2, 0x80, 0xBF)
  else if b.toNat = 0xF0 then (3, 0x90, 0xBF)
  else if b.toNat = 0xF4 then (3, 0x80, 0x8F)
  else if 0xF0 ≤ b.toNat ∧ b.toNat ≤ 0xF3 then (3, 0x80, 0xBF)
  else (0, 0x80, 0xBF)

/-- How many bytes continue a character that is not completed. -/
def continuing (needed lower upper : ℕ) : List UInt8 → ℕ
  | [] => 0
  | b :: bytes =>
      if needed ≠ 0 ∧ lower ≤ b.toNat ∧ b.toNat ≤ upper then
        continuing (needed - 1) 0x80 0xBF bytes + 1
      else 0

/-- The characters of bytes, with replacements. -/
def replacingChars : List UInt8 → List Char
  | [] => []
  | b :: bytes =>
      match (b :: bytes).toByteArray.utf8DecodeChar? 0 with
      | some c => c :: replacingChars (bytes.drop (c.utf8Size - 1))
      | none =>
          let (needed, lower, upper) := continuations b
          replacementCharacter :: replacingChars (bytes.drop (continuing needed lower upper bytes))
termination_by bytes => bytes.length
decreasing_by
  all_goals
    rw [List.length_drop, List.length_cons]
    omega

/-- Decode bytes, stripping a byte order mark. -/
def decodeLossy (bytes : List UInt8) : JsString := ofChars (stripMark (replacingChars bytes))

theorem replacingChars_encode (cs : List Char) :
  replacingChars (cs.flatMap String.utf8EncodeChar) = cs
  := by
  induction cs with
  | nil => rw [List.flatMap_nil, replacingChars]
  | cons c cs ih =>
      have hdecode : (String.utf8EncodeChar c ++
          cs.flatMap String.utf8EncodeChar).toByteArray.utf8DecodeChar? 0 = some c := by
        rw [List.toByteArray_append]
        exact ByteArray.utf8DecodeChar?_utf8EncodeChar_append
      have hlength := String.length_utf8EncodeChar c
      rw [List.flatMap_cons]
      match hbytes : String.utf8EncodeChar c with
      | [] => exact absurd hbytes String.utf8EncodeChar_ne_nil
      | b :: bytes =>
          rw [hbytes] at hdecode hlength
          rw [List.cons_append] at hdecode ⊢
          rw [replacingChars, hdecode]
          have hdrop : (bytes ++ cs.flatMap String.utf8EncodeChar).drop (c.utf8Size - 1) =
              cs.flatMap String.utf8EncodeChar := by
            rw [← hlength, List.length_cons, Nat.add_sub_cancel, List.drop_left]
          dsimp only
          rw [hdrop, ih]

/-- What was encoded is decoded, but for a byte order mark. -/
theorem decodeLossy_encodeUtf8 (s : JsString) :
  decodeLossy s.encodeUtf8 = ofChars (stripMark s.chars)
  := by
  rw [decodeLossy, encodeUtf8, replacingChars_encode]

/-! ### Concatenation -/

theorem ofChars_append (cs ds : List Char) :
  ofChars (cs ++ ds) = ofChars cs ++ ofChars ds
  := congrArg JsString.mk List.flatMap_append

theorem encodeUtf8_ofChars (cs : List Char) :
  (ofChars cs).encodeUtf8 = cs.flatMap String.utf8EncodeChar
  := by
  rw [encodeUtf8, chars_ofChars]

/-! ### Bytes below `0x80` -/

/-- A byte below `0x80` is a character. -/
theorem toNat_of_mem_utf8EncodeChar {b : UInt8} {c : Char} (h : b ∈ String.utf8EncodeChar c)
    (hb : b.toNat < 0x80) :
  c.toNat = b.toNat
  := by
  have hval : c.val.toNat = c.toNat := rfl
  rw [String.utf8EncodeChar, hval] at h
  split at h
  · rw [List.mem_singleton] at h
    subst h
    rw [UInt8.toNat_ofNat']
    omega
  · split at h
    · simp only [List.mem_cons, List.not_mem_nil, or_false] at h
      obtain rfl | rfl := h <;> rw [UInt8.toNat_ofNat'] at hb <;> omega
    · split at h
      · simp only [List.mem_cons, List.not_mem_nil, or_false] at h
        obtain rfl | rfl | rfl := h <;> rw [UInt8.toNat_ofNat'] at hb <;> omega
      · simp only [List.mem_cons, List.not_mem_nil, or_false] at h
        obtain rfl | rfl | rfl | rfl := h <;> rw [UInt8.toNat_ofNat'] at hb <;> omega

/-- The byte of a character of a string is a unit of the string. -/
theorem mem_units_of_mem_encodeUtf8 {s : JsString} (hs : s.isWellFormed = true) {b : UInt8}
    (hb : b.toNat < 0x80) (h : b ∈ s.encodeUtf8) :
  UInt16.ofNat b.toNat ∈ s.units
  := by
  rw [encodeUtf8, List.mem_flatMap] at h
  obtain ⟨c, hc, hbyte⟩ := h
  rw [← ofChars_chars hs, ofChars, List.mem_flatMap]
  use c
  constructor
  · exact hc
  · rw [toNat_of_mem_utf8EncodeChar hbyte hb, unitsOfPoint, if_pos (by omega)]
    exact List.mem_singleton_self _

end JsString
