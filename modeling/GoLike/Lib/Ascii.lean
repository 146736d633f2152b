import GoLike.Lib.Utf8

/-!
# ASCII strings

A unit below 128 is a character of one byte, and its lower case is that of the 26 letters. The lower
case of other characters depends on tables of characters; of these only the Kelvin sign has an ASCII
letter for its lower case.
-/

namespace JsString

/-- The lower case of an ASCII unit. -/
def lowerUnit (u : UInt16) : UInt16 := if 65 ≤ u ∧ u ≤ 90 then u + 32 else u

/-- The lower case of a string of ASCII units. -/
def lowerAscii (s : JsString) : JsString := ⟨s.units.map lowerUnit⟩

/-- What maps strings to lower case. -/
structure LowerCase where
  toLowerCase : JsString → JsString
  ascii : ∀ s : JsString, (∀ u ∈ s.units, u < 128) → toLowerCase s = s.lowerAscii
  /-- A character that is not ASCII has none that is, apart from the letter k. -/
  other : ∀ s : JsString, (∃ u ∈ s.units, 128 ≤ u) →
    ∃ u ∈ (toLowerCase s).units, 128 ≤ u ∨ u = 107

/-- The mapping of ASCII strings, which leaves the other characters as they are. -/
def LowerCase.plain : LowerCase where
  toLowerCase := lowerAscii
  ascii _ _ := rfl
  other := by
    rintro s ⟨u, hu, hlarge⟩
    have hsame : lowerUnit u = u := by
      rw [lowerUnit, if_neg]
      rintro ⟨-, hsmall⟩
      exact absurd (UInt16.le_trans hlarge hsmall) (by decide)
    exact ⟨u, List.mem_map.2 ⟨u, hu, hsame⟩, .inl hlarge⟩

theorem pointsOf_ascii {us : List UInt16} (h : ∀ u ∈ us, u < 128) :
  pointsOf us = us.map UInt16.toNat
  := by
  induction us using pointsOf.induct with
  | case1 | case2 => rfl
  | case3 u v rest hpair ih =>
      have hu : u.toNat < 128 := h u List.mem_cons_self
      simp only [isHigh, Bool.and_eq_true, decide_eq_true_eq] at hpair
      omega
  | case4 u v rest hpair ih =>
      rw [pointsOf, if_neg hpair, ih (fun w hw => h w (List.mem_cons_of_mem _ hw))]
      rfl

/-- A string of ASCII units has one byte for each. -/
theorem encodeUtf8_ascii {s : JsString} (h : ∀ u ∈ s.units, u < 128) :
  s.encodeUtf8 = s.units.map UInt16.toUInt8
  := by
  have hpoint : ∀ u : UInt16, u < 128 → String.utf8EncodeChar (charOf u.toNat) = [u.toUInt8] := by
    intro u hu
    have hlt : u.toNat < 128 := hu
    have hvalid : u.toNat.isValidChar := Or.inl (by omega)
    have hchar : (charOf u.toNat).val.toNat = u.toNat := toNat_charOf hvalid
    have hle : u.toNat ≤ 127 := by omega
    simp only [String.utf8EncodeChar, hchar, hle, if_true]
    rfl
  rw [encodeUtf8, chars, codePoints, pointsOf_ascii h, List.map_map, List.flatMap_map]
  rw [← List.flatMap_singleton' (s.units.map UInt16.toUInt8), List.flatMap_map]
  apply List.flatMap_congr
  intro u hu
  exact hpoint u (h u hu)

end JsString
