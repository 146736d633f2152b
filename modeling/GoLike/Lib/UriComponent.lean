import GoLike.Lib.JsonWriter
import GoLike.Lib.Utf8Stream

/-!
# URI components

A string is written with the letters, digits and marks that need no escape as they are and with
a percent sign and two hexadecimal digits for every byte of the other characters. It is read back
from what was written.
-/

namespace JsString

open Utf8Decoder

/-- The unit is a letter, a digit or one of the marks that are not escaped. -/
def isUnreserved (u : UInt16) : Bool :=
  let n := u.toNat
  48 ≤ n && n ≤ 57 || 65 ≤ n && n ≤ 90 || 97 ≤ n && n ≤ 122 ||
    [33, 39, 40, 41, 42, 45, 46, 95, 126].contains n

/-- The unit of a hexadecimal digit, in upper case. -/
def upperHexUnit (d : ℕ) : UInt16 := if d < 10 then UInt16.ofNat (48 + d) else UInt16.ofNat (55 + d)

/-- The escape of a byte. -/
def percentEncoded (b : UInt8) : List UInt16 :=
  [37, upperHexUnit (b.toNat / 16), upperHexUnit (b.toNat % 16)]

/-- The units that a character is written with. -/
def uriUnits (c : Char) : List UInt16 :=
  if c.toNat < 128 ∧ isUnreserved (UInt16.ofNat c.toNat) then [UInt16.ofNat c.toNat]
  else (String.utf8EncodeChar c).flatMap percentEncoded

/-- Write a string; `none` when it contains a lone surrogate. -/
def encodeURIComponent (s : JsString) : Option JsString :=
  if s.isWellFormed then some ⟨s.chars.flatMap uriUnits⟩ else none

/-- The byte of two hexadecimal digits. -/
def octet? (u v : UInt16) : Option UInt8 :=
  (hexDigit? u).bind fun a => (hexDigit? v).map fun b => UInt8.ofNat (a * 16 + b)

/-- Read units behind the bytes that the decoder has seen of a character. The bytes of a character
follow each other without other units between them. -/
def uriDecoded : Utf8Decoder → List UInt16 → Option (List UInt16)
  | d, [] => if d.needed = 0 then some [] else none
  | d, u :: rest =>
      if u = 37 then
        match rest with
        | a :: b :: rest =>
            (octet? a b).bind fun byte =>
              (d.step byte).bind fun stepped =>
                (uriDecoded stepped.1 rest).map fun us => (ofChars stepped.2).units ++ us
        | _ => none
      else if d.needed = 0 then (uriDecoded d rest).map fun us => u :: us
      else none

/-- Read a string; `none` when an escape is incomplete or not one of a character. -/
def decodeURIComponent (s : JsString) : Option JsString :=
  (uriDecoded start s.units).map fun us => ⟨us⟩

theorem hexDigit?_upperHexUnit {d : ℕ} (h : d < 16) :
  hexDigit? (upperHexUnit d) = some d
  := by
  interval_cases d <;> rfl

theorem octet?_upperHexUnit (b : UInt8) :
  octet? (upperHexUnit (b.toNat / 16)) (upperHexUnit (b.toNat % 16)) = some b
  := by
  have hb : b.toNat < 256 := b.toNat_lt
  have hvalue : b.toNat / 16 * 16 + b.toNat % 16 = b.toNat := Nat.div_add_mod' _ _
  rw [octet?, hexDigit?_upperHexUnit (by omega), hexDigit?_upperHexUnit (by omega),
    Option.bind_some, Option.map_some, hvalue, UInt8.ofNat_toNat]

theorem uriDecoded_percentEncoded (d : Utf8Decoder) (b : UInt8) (rest : List UInt16) :
  uriDecoded d (percentEncoded b ++ rest) = (d.step b).bind fun stepped =>
    (uriDecoded stepped.1 rest).map fun us => (ofChars stepped.2).units ++ us
  := by
  rw [percentEncoded, List.cons_append, List.cons_append, List.singleton_append, uriDecoded,
    if_pos rfl, octet?_upperHexUnit, Option.bind_some]

/-- Escaped bytes are read as the decoder decodes them. -/
theorem uriDecoded_bytes (d : Utf8Decoder) (bytes : List UInt8) (rest : List UInt16) :
  uriDecoded d (bytes.flatMap percentEncoded ++ rest) = (run d bytes).bind fun left =>
    (uriDecoded left.1 rest).map fun us => (ofChars left.2).units ++ us
  := by
  induction bytes generalizing d with
  | nil =>
      rw [List.flatMap_nil, List.nil_append, run, Option.bind_some]
      exact Option.map_id'.symm
  | cons b bytes ih =>
      rw [List.flatMap_cons, List.append_assoc, uriDecoded_percentEncoded, run]
      cases d.step b with
      | none => rfl
      | some stepped =>
          simp only [Option.bind_eq_bind, Option.bind_some, ih]
          cases run stepped.1 bytes with
          | none => rfl
          | some left =>
              simp only [Option.bind_some, Option.map_map]
              congr 1
              funext us
              simp only [Function.comp_apply, ofChars, List.flatMap_append, List.append_assoc]

/-- A unit between two characters that begins no escape. -/
theorem uriDecoded_plain {u : UInt16} (h : u ≠ 37) (rest : List UInt16) :
  uriDecoded start (u :: rest) = (uriDecoded start rest).map fun us => u :: us
  := by
  rw [uriDecoded.eq_def]
  dsimp only
  rw [if_neg h]
  rfl

/-- A character is read back. -/
theorem uriDecoded_uriUnits (c : Char) (rest : List UInt16) :
  uriDecoded start (uriUnits c ++ rest) =
    (uriDecoded start rest).map fun us => unitsOfPoint c.toNat ++ us
  := by
  rw [uriUnits]
  split
  · rename_i hplain
    obtain ⟨hsmall, hunreserved⟩ := hplain
    have hne : UInt16.ofNat c.toNat ≠ 37 := by
      intro heq
      rw [heq] at hunreserved
      cases hunreserved
    have hunits : unitsOfPoint c.toNat = [UInt16.ofNat c.toNat] := if_pos (by omega)
    rw [List.singleton_append, uriDecoded_plain hne, hunits]
    rfl
  · rw [uriDecoded_bytes, run_utf8EncodeChar, Option.bind_some]
    simp only [ofChars, List.flatMap_singleton]

/-- A string is read back from what was written of it. -/
theorem decodeURIComponent_encodeURIComponent {s t : JsString} (h : s.encodeURIComponent = some t) :
  t.decodeURIComponent = some s
  := by
  rw [encodeURIComponent] at h
  split at h
  case isFalse => cases h
  case isTrue hwell =>
    cases h
    have hchars : ∀ cs : List Char, uriDecoded start (cs.flatMap uriUnits) =
        some (ofChars cs).units := by
      intro cs
      induction cs with
      | nil => rfl
      | cons c cs ih =>
          rw [List.flatMap_cons, uriDecoded_uriUnits, ih]
          rfl
    rw [decodeURIComponent, hchars, Option.map_some, ofChars_chars hwell]

end JsString
