import GoLike.Lib.JsString

/-!
# UTF-8

The text encoder and the fatal text decoder of JavaScript. A string is encoded by its code
points, lone surrogates being replaced; a byte order mark is stripped when bytes are
decoded.
-/

namespace JsString

/-! ### Characters -/

/-- The character of a code point; that of a lone surrogate is the replacement character. -/
def charOf (p : ℕ) : Char := if p.isValidChar then Char.ofNat p else Char.ofNat 0xFFFD

/-- The characters of a string. -/
def chars (s : JsString) : List Char := s.codePoints.map charOf

/-- The string of a list of characters. -/
def ofChars (cs : List Char) : JsString := ⟨cs.flatMap (fun c => unitsOfPoint c.toNat)⟩

theorem toNat_charOf {p : ℕ} (h : p.isValidChar) :
  (charOf p).toNat = p
  := by
  rw [charOf, if_pos h, Char.ofNat, dif_pos h]
  rfl

theorem charOf_toNat (c : Char) :
  charOf c.toNat = c
  := by
  have hvalid : c.toNat.isValidChar := c.valid
  rw [charOf, if_pos hvalid, Char.ofNat_toNat]

theorem isValidChar_toNat {u : UInt16} (hhigh : isHigh u = false) (hlow : isLow u = false) :
  u.toNat.isValidChar
  := by
  have hu : u.toNat < 65536 := u.toNat_lt
  simp only [isHigh, isLow, Bool.and_eq_false_iff, decide_eq_false_iff_not] at hhigh hlow
  simp only [Nat.isValidChar]
  omega

theorem isValidChar_combine {h l : UInt16} (hh : isHigh h = true) (hl : isLow l = true) :
  (combine h l).isValidChar
  := by
  simp only [isHigh, isLow, Bool.and_eq_true, decide_eq_true_eq] at hh hl
  have hlower : 0xDFFF < combine h l := by
    unfold combine
    omega
  have hupper : combine h l < 0x110000 := by
    unfold combine
    omega
  exact .inr ⟨hlower, hupper⟩

/-- The code points of a well-formed string are those of characters. -/
theorem isValidChar_of_wellFormed {us : List UInt16} (h : wellFormedUnits us = true) :
  ∀ p ∈ pointsOf us, p.isValidChar
  := by
  induction us using pointsOf.induct with
  | case1 =>
      intro p hp
      cases hp
  | case2 u =>
      intro p hp
      simp only [wellFormedUnits, Bool.and_eq_true, Bool.not_eq_true'] at h
      rw [pointsOf, List.mem_singleton] at hp
      subst hp
      exact isValidChar_toNat h.1 h.2
  | case3 u v rest hpair ih =>
      intro p hp
      rw [wellFormedUnits, if_pos hpair] at h
      rw [pointsOf, if_pos hpair] at hp
      obtain hfirst | hp := List.mem_cons.mp hp
      · rw [Bool.and_eq_true] at hpair
        rw [hfirst]
        exact isValidChar_combine hpair.1 hpair.2
      · exact ih h p hp
  | case4 u v rest hpair ih =>
      intro p hp
      rw [wellFormedUnits, if_neg hpair] at h
      rw [pointsOf, if_neg hpair] at hp
      simp only [Bool.and_eq_true, Bool.not_eq_true'] at h
      obtain rfl | hp := List.mem_cons.mp hp
      · exact isValidChar_toNat h.1.1 h.1.2
      · exact ih h.2 p hp

/-- A well-formed string is that of its characters. -/
theorem ofChars_chars {s : JsString} (h : s.isWellFormed = true) :
  ofChars s.chars = s
  := by
  have hpoints : ∀ p ∈ s.codePoints, unitsOfPoint (charOf p).toNat = unitsOfPoint p := by
    intro p hp
    rw [toNat_charOf (isValidChar_of_wellFormed h p hp)]
  have hunits : s.chars.flatMap (fun c => unitsOfPoint c.toNat) =
      s.codePoints.flatMap unitsOfPoint := by
    rw [chars, List.flatMap_map]
    exact List.flatMap_congr hpoints
  rw [ofChars, hunits, codePoints, flatMap_pointsOf]

/-- The code point of a character is one unit, or a high surrogate followed by a low one. -/
theorem unitsOfPoint_cases {p : ℕ} (h : p.isValidChar) :
  (∃ u, unitsOfPoint p = [u] ∧ u.toNat = p ∧ isHigh u = false) ∨
    ∃ high low, unitsOfPoint p = [high, low] ∧ isHigh high = true ∧ isLow low = true ∧
      combine high low = p
  := by
  simp only [Nat.isValidChar] at h
  by_cases hsmall : p ≤ 0xFFFF
  · left
    have htoNat : (UInt16.ofNat p).toNat = p := by
      rw [UInt16.toNat_ofNat']
      omega
    refine ⟨UInt16.ofNat p, ?_, htoNat, ?_⟩
    · rw [unitsOfPoint, if_pos hsmall]
    · simp only [isHigh, htoNat, Bool.and_eq_false_iff, decide_eq_false_iff_not]
      omega
  · right
    let high := UInt16.ofNat (0xD800 + (p - 0x10000) / 0x400)
    let low := UInt16.ofNat (0xDC00 + (p - 0x10000) % 0x400)
    have htoHigh : high.toNat = 0xD800 + (p - 0x10000) / 0x400 := by
      rw [UInt16.toNat_ofNat']
      omega
    have htoLow : low.toNat = 0xDC00 + (p - 0x10000) % 0x400 := by
      rw [UInt16.toNat_ofNat']
      omega
    refine ⟨high, low, ?_, ?_, ?_, ?_⟩
    · rw [unitsOfPoint, if_neg hsmall]
    · simp only [isHigh, htoHigh, Bool.and_eq_true, decide_eq_true_eq]
      omega
    · simp only [isLow, htoLow, Bool.and_eq_true, decide_eq_true_eq]
      omega
    · unfold combine
      omega

/-- The units of a character are read as its code point. -/
theorem pointsOf_unitsOfPoint (c : Char) (rest : List UInt16) :
  pointsOf (unitsOfPoint c.toNat ++ rest) = c.toNat :: pointsOf rest
  := by
  obtain ⟨u, hunits, htoNat, hhigh⟩ | ⟨high, low, hunits, hhigh, hlow, hcombine⟩ :=
    unitsOfPoint_cases c.valid
  · have hunits : unitsOfPoint c.toNat = [u] := hunits
    have htoNat : u.toNat = c.toNat := htoNat
    rw [hunits]
    cases rest with
    | nil =>
        have hsingle : pointsOf [u] = [u.toNat] := rfl
        rw [List.append_nil, hsingle, htoNat]
        rfl
    | cons v rest =>
        rw [List.singleton_append, pointsOf, hhigh, Bool.false_and, if_neg Bool.false_ne_true,
          htoNat]
  · have hunits : unitsOfPoint c.toNat = [high, low] := hunits
    rw [hunits, List.cons_append, List.singleton_append, pointsOf, hhigh, hlow,
      if_pos (Bool.and_self true), hcombine]
    rfl

theorem chars_ofChars (cs : List Char) :
  (ofChars cs).chars = cs
  := by
  have hpoints : pointsOf (cs.flatMap (fun c => unitsOfPoint c.toNat)) = cs.map Char.toNat := by
    induction cs with
    | nil => rfl
    | cons c cs ih => rw [List.flatMap_cons, pointsOf_unitsOfPoint, ih, List.map_cons]
  have hchars : charOf ∘ Char.toNat = id := by
    funext c
    exact charOf_toNat c
  rw [chars, codePoints, ofChars, hpoints, List.map_map, hchars, List.map_id]

theorem wellFormedUnits_unitsOfPoint (c : Char) (rest : List UInt16) :
  wellFormedUnits (unitsOfPoint c.toNat ++ rest) = wellFormedUnits rest
  := by
  have hvalid : c.toNat.isValidChar := c.valid
  obtain ⟨u, hunits, htoNat, hhigh⟩ | ⟨high, low, hunits, hhigh, hlow, -⟩ :=
    unitsOfPoint_cases hvalid
  · have hlow : isLow u = false := by
      simp only [Nat.isValidChar] at hvalid
      simp only [isLow, isHigh, Bool.and_eq_false_iff, decide_eq_false_iff_not] at hhigh ⊢
      omega
    rw [hunits, List.singleton_append]
    cases rest with
    | nil | cons => simp [wellFormedUnits, hhigh, hlow]
  · rw [hunits, List.cons_append, List.singleton_append, wellFormedUnits, hhigh, hlow,
      if_pos (Bool.and_self true)]

/-- The string of characters contains no lone surrogate. -/
theorem isWellFormed_ofChars (cs : List Char) :
  (ofChars cs).isWellFormed = true
  := by
  rw [isWellFormed, ofChars]
  induction cs with
  | nil => rfl
  | cons c cs ih => rw [List.flatMap_cons, wellFormedUnits_unitsOfPoint, ih]

/-! ### Bytes -/

/-- Encode a string. -/
def encodeUtf8 (s : JsString) : List UInt8 := s.chars.flatMap String.utf8EncodeChar

/-- The byte order mark. -/
def byteOrderMark : Char := Char.ofNat 0xFEFF

/-- A byte order mark at the beginning is stripped. -/
def stripMark : List Char → List Char
  | [] => []
  | c :: cs => if c = byteOrderMark then cs else c :: cs

/-- Decode bytes, stripping a byte order mark; `none` when they are not valid. -/
def decodeUtf8 (bytes : List UInt8) : Option JsString :=
  bytes.toByteArray.utf8Decode?.map (fun cs => ofChars (stripMark cs.toList))

theorem utf8Encode_chars (cs : List Char) :
  (cs.flatMap String.utf8EncodeChar).toByteArray.utf8Decode? = some cs.toArray
  := List.utf8Decode?_utf8Encode

theorem stripMark_eq {cs : List Char} (h : cs.head? ≠ some byteOrderMark) :
  stripMark cs = cs
  := by
  cases cs with
  | nil => rfl
  | cons c cs =>
      rw [stripMark, if_neg]
      rintro rfl
      exact h rfl

/-- A well-formed string is read back, unless it begins with a byte order mark. -/
theorem decodeUtf8_encodeUtf8 {s : JsString} (h : s.isWellFormed = true)
    (hmark : s.chars.head? ≠ some byteOrderMark) :
  decodeUtf8 s.encodeUtf8 = some s
  := by
  rw [decodeUtf8, encodeUtf8, utf8Encode_chars, Option.map_some, stripMark_eq hmark,
    ofChars_chars h]

/-- The bytes that are decoded are those of a list of characters. -/
theorem decodeUtf8_eq_some {bytes : List UInt8} {s : JsString} (h : decodeUtf8 bytes = some s) :
  ∃ cs : List Char, bytes = cs.flatMap String.utf8EncodeChar ∧ s = ofChars (stripMark cs)
  := by
  rw [decodeUtf8, Option.map_eq_some_iff] at h
  obtain ⟨cs, hcs, rfl⟩ := h
  refine ⟨cs.toList, ?_, rfl⟩
  have hsome : bytes.toByteArray.utf8Decode?.isSome = true := by
    rw [hcs]
    rfl
  have hencode : cs.toList.utf8Encode = bytes.toByteArray := by
    have hget : bytes.toByteArray.utf8Decode?.get hsome = cs := by simp [hcs]
    rw [← hget]
    exact ByteArray.utf8Encode_get_utf8Decode?
  exact (List.toByteArray_inj.mp hencode).symm

/-- Bytes that begin with a byte order mark. -/
def Marked (bytes : List UInt8) : Prop := String.utf8EncodeChar byteOrderMark <+: bytes

theorem marked_iff {cs : List Char} :
  Marked (cs.flatMap String.utf8EncodeChar) ↔ cs.head? = some byteOrderMark
  := by
  constructor
  · rintro ⟨rest, hrest⟩
    have hencode : [byteOrderMark].utf8Encode ++ rest.toByteArray = cs.utf8Encode := by
      rw [List.utf8Encode, List.utf8Encode, List.flatMap_singleton, ← hrest,
        List.toByteArray_append]
    have hbegins := List.isPrefix_of_utf8Encode_append_eq_utf8Encode rest.toByteArray hencode
    obtain ⟨others, hcs⟩ := hbegins
    rw [← hcs]
    rfl
  · intro hhead
    cases cs with
    | nil => cases hhead
    | cons c cs =>
        cases hhead
        exact List.prefix_append _ _

/-- The decoded bytes are those of the string, unless they begin with a byte order mark. -/
theorem eq_encodeUtf8_iff {bytes : List UInt8} {s : JsString} (h : decodeUtf8 bytes = some s) :
  bytes = s.encodeUtf8 ↔ ¬ Marked bytes
  := by
  obtain ⟨cs, rfl, rfl⟩ := decodeUtf8_eq_some h
  rw [encodeUtf8, chars_ofChars, marked_iff]
  cases cs with
  | nil => simp [stripMark]
  | cons c cs =>
      rw [stripMark, List.head?_cons, Option.some.injEq]
      split
      · rename_i hmark
        constructor
        · intro heq
          have hlength := congrArg List.length heq
          have hpos : 0 < (String.utf8EncodeChar c).length :=
            List.length_pos_iff.mpr String.utf8EncodeChar_ne_nil
          rw [List.flatMap_cons, List.length_append] at hlength
          omega
        · intro hne
          exact absurd hmark hne
      · rename_i hmark
        exact ⟨fun _ => hmark, fun _ => rfl⟩

end JsString
