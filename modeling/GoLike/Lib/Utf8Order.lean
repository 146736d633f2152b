import GoLike.Lib.LexRange
import GoLike.Lib.Utf8Lossy
import Mathlib.Data.Char

/-!
# The order of strings and of their bytes

The bytes of well-formed strings are ordered as the strings are by their code points, and the
bytes of one begin with those of another exactly when the strings do.
-/

namespace JsString

/-- The values of the bytes of a string. -/
def byteValues (s : JsString) : List ℕ := s.encodeUtf8.map UInt8.toNat

/-- The values of the bytes of a character. -/
def charValues (c : Char) : List ℕ := (String.utf8EncodeChar c).map UInt8.toNat

theorem byteValues_eq (s : JsString) :
  s.byteValues = s.chars.flatMap charValues
  := List.map_flatMap

/-- The bytes of a character, by its size. -/
theorem charValues_cases (c : Char) :
  let v := c.toNat
  (v < 128 ∧ charValues c = [v]) ∨
    (128 ≤ v ∧ v < 2048 ∧ charValues c = [192 + v / 64, 128 + v % 64]) ∨
    (2048 ≤ v ∧ v < 65536 ∧
      charValues c = [224 + v / 4096, 128 + v / 64 % 64, 128 + v % 64]) ∨
    (65536 ≤ v ∧ v < 1114112 ∧
      charValues c =
        [240 + v / 262144, 128 + v / 4096 % 64, 128 + v / 64 % 64, 128 + v % 64])
  := by
  intro v
  have hv : v < 1114112 := by
    obtain h | ⟨-, h⟩ := c.valid
    · exact h.trans (by decide)
    · exact h
  have hval : c.val.toNat = v := rfl
  rw [charValues, String.utf8EncodeChar, hval]
  split
  · refine Or.inl ⟨by omega, ?_⟩
    simp only [List.map_cons, List.map_nil, UInt8.toNat_ofNat', List.cons.injEq, and_true]
    omega
  · split
    · refine Or.inr (Or.inl ⟨by omega, by omega, ?_⟩)
      simp only [List.map_cons, List.map_nil, UInt8.toNat_ofNat', List.cons.injEq, and_true]
      omega
    · split
      · refine Or.inr (Or.inr (Or.inl ⟨by omega, by omega, ?_⟩))
        simp only [List.map_cons, List.map_nil, UInt8.toNat_ofNat', List.cons.injEq, and_true]
        omega
      · refine Or.inr (Or.inr (Or.inr ⟨by omega, hv, ?_⟩))
        simp only [List.map_cons, List.map_nil, UInt8.toNat_ofNat', List.cons.injEq, and_true]
        omega

theorem charValues_ne_nil (c : Char) :
  charValues c ≠ []
  := by
  obtain ⟨-, h⟩ | ⟨-, -, h⟩ | ⟨-, -, h⟩ | ⟨-, -, h⟩ := charValues_cases c
  all_goals
    rw [h]
    exact List.cons_ne_nil _ _

/-- No byte of a string is the greatest one. -/
theorem byteValues_lt_255 {s : JsString} {b : ℕ} (h : b ∈ s.byteValues) :
  b < 255
  := by
  rw [byteValues_eq, List.mem_flatMap] at h
  obtain ⟨c, -, hb⟩ := h
  obtain ⟨hc, h⟩ | ⟨hc, hc', h⟩ | ⟨hc, hc', h⟩ | ⟨hc, hc', h⟩ := charValues_cases c
  all_goals
    rw [h] at hb
    simp only [List.mem_cons, List.not_mem_nil, or_false] at hb
    omega

/-- The bytes of a character are less than those of a greater one, and no beginning of
them. -/
theorem charValues_lt {c d : Char} (hcd : c < d) :
  charValues c < charValues d ∧ ¬ charValues c <+: charValues d
  := by
  have hlt : c.toNat < d.toNat := hcd
  obtain ⟨hc, h⟩ | ⟨hc, hc', h⟩ | ⟨hc, hc', h⟩ | ⟨hc, hc', h⟩ := charValues_cases c
  all_goals
    obtain ⟨hd, h'⟩ | ⟨hd, hd', h'⟩ | ⟨hd, hd', h'⟩ | ⟨hd, hd', h'⟩ := charValues_cases d
    all_goals
      rw [h, h']
      simp only [List.cons_lt_cons_iff, List.cons_prefix_cons, List.not_lt_nil, and_false, or_false,
        List.nil_prefix, List.prefix_nil, List.nil_lt_cons, reduceCtorEq]
      omega

theorem chars_lt_iff {s t : JsString} (hs : s.isWellFormed = true) (ht : t.isWellFormed = true) :
  s.chars < t.chars ↔ s < t
  := by
  have hpoints : ∀ {u : JsString}, u.isWellFormed = true →
      u.codePoints = u.chars.flatMap (fun c => [c.toNat]) := by
    intro u hu
    rw [← List.map_eq_flatMap, chars, List.map_map]
    conv_lhs => rw [← List.map_id u.codePoints]
    apply List.map_congr_left
    intro p hp
    exact (toNat_charOf (isValidChar_of_wellFormed hu p hp)).symm
  rw [lt_iff, hpoints hs, hpoints ht, LexRange.flatMap_lt_iff]
  · intro b
    exact List.cons_ne_nil _ _
  · intro b c hbc
    have hlt : b.toNat < c.toNat := hbc
    simp only [List.cons_lt_cons_iff, hlt, true_or, List.cons_prefix_cons, hlt.ne, false_and,
      not_false_eq_true, and_true]

/-- The bytes of well-formed strings are ordered as the strings. -/
theorem byteValues_lt_iff {s t : JsString} (hs : s.isWellFormed = true)
    (ht : t.isWellFormed = true) :
  s.byteValues < t.byteValues ↔ s < t
  := by
  rw [byteValues_eq, byteValues_eq, LexRange.flatMap_lt_iff charValues_ne_nil
    (fun b c => charValues_lt), chars_lt_iff hs ht]

/-! ### Beginnings -/

/-- The units of a list of characters determine its code points, whatever follows. -/
theorem pointsOf_ofChars_append (cs : List Char) (rest : List UInt16) :
  pointsOf ((ofChars cs).units ++ rest) = cs.map Char.toNat ++ pointsOf rest
  := by
  induction cs with
  | nil => rfl
  | cons c cs ih =>
      have hunits : (ofChars (c :: cs)).units = unitsOfPoint c.toNat ++ (ofChars cs).units := rfl
      rw [hunits, List.append_assoc, pointsOf_unitsOfPoint, ih, List.map_cons, List.cons_append]

theorem chars_prefix_iff {p s : JsString} (hp : p.isWellFormed = true)
    (hs : s.isWellFormed = true) :
  p.chars <+: s.chars ↔ s.startsWith p = true
  := by
  rw [startsWith, List.isPrefixOf_iff_prefix]
  constructor
  · rintro ⟨rest, hrest⟩
    rw [← ofChars_chars hs, ← ofChars_chars hp, ← hrest, ofChars_append]
    exact List.prefix_append _ _
  · rintro ⟨rest, hrest⟩
    have hpoints : s.codePoints = p.chars.map Char.toNat ++ pointsOf rest := by
      rw [codePoints, ← hrest]
      conv_lhs => rw [← ofChars_chars hp]
      exact pointsOf_ofChars_append p.chars rest
    have hchars : s.chars = p.chars ++ (pointsOf rest).map charOf := by
      rw [chars, hpoints, List.map_append, List.map_map]
      congr 1
      conv_rhs => rw [← List.map_id p.chars]
      apply List.map_congr_left
      intro c _
      exact charOf_toNat c
    rw [hchars]
    exact List.prefix_append _ _

/-- The bytes of a string begin with those of another exactly when the string does. -/
theorem encodeUtf8_prefix_iff {p s : JsString} (hp : p.isWellFormed = true)
    (hs : s.isWellFormed = true) :
  p.encodeUtf8 <+: s.encodeUtf8 ↔ s.startsWith p = true
  := by
  rw [← chars_prefix_iff hp hs]
  constructor
  · rintro ⟨rest, hrest⟩
    have hencode : p.chars.utf8Encode ++ rest.toByteArray = s.chars.utf8Encode := by
      rw [List.utf8Encode, List.utf8Encode, ← List.toByteArray_append]
      exact congrArg List.toByteArray hrest
    exact List.isPrefix_of_utf8Encode_append_eq_utf8Encode rest.toByteArray hencode
  · rintro ⟨rest, hrest⟩
    use rest.flatMap String.utf8EncodeChar
    rw [encodeUtf8, encodeUtf8, ← List.flatMap_append, hrest]

theorem byteValues_prefix_iff {p s : JsString} (hp : p.isWellFormed = true)
    (hs : s.isWellFormed = true) :
  p.byteValues <+: s.byteValues ↔ s.startsWith p = true
  := by
  rw [← encodeUtf8_prefix_iff hp hs]
  exact List.prefix_map_iff_of_injective (fun _ _ => UInt8.toNat_inj.mp)

end JsString
