import GoLike.Store.Etcd.Codec

/-!
# The two decoders of base64

The File Store and the etcd Store decode base64 by the same loop and differ in what they
throw. The loop looks symbols up in the alphabet, where what is no symbol is found at `-1`,
computes with integers of 32 bits, and stores the bytes that fit. A value is decoded exactly
when it is the encoding of bytes within the bound.
-/

namespace Store.Base64

/-! ### The loop -/

/-- The index of a unit in the alphabet, `-1` if it is no symbol. -/
def indexOf (unit : UInt16) : BitVec 32 :=
  if unit ∈ Base64Alphabet then BitVec.ofNat 32 (Base64Alphabet.idxOf unit) else -1

/-- The index of a unit at one of the last two places of a group, where padding is `0`. -/
def indexOrPad (unit : UInt16) : BitVec 32 := if unit = pad then 0 else indexOf unit

/-- Store a number as a byte of an array, of which it keeps the lowest eight bits. -/
def storeAt (length offset : ℕ) (value : BitVec 32) (bytes : List UInt8) : List UInt8 :=
  if offset < length then bytes.set offset (UInt8.ofNat value.toNat) else bytes

/-- The loop over the groups of four units. -/
def decodeFrom (length : ℕ) : List UInt16 → ℕ → List UInt8 → List UInt8
  | u :: v :: w :: x :: rest, offset, bytes =>
      let first := indexOf u
      let second := indexOf v
      let third := indexOrPad w
      let fourth := indexOrPad x
      let bytes := storeAt length offset (first <<< 2 ||| second.sshiftRight 4) bytes
      let bytes :=
        storeAt length (offset + 1) ((second &&& 15) <<< 4 ||| third.sshiftRight 2) bytes
      let bytes := storeAt length (offset + 2) ((third &&& 3) <<< 6 ||| fourth) bytes
      decodeFrom length rest (offset + 3) bytes
  | _, _, bytes => bytes

/-- What a decoder throws. -/
structure Refusals (ε : Type) where
  /-- For a value that is no string, of a wrong length, or with a unit that is no symbol. -/
  invalid : ε
  /-- For a value of more bytes than the bound. -/
  exceeds : ε
  /-- For a value that is not the encoding of what it was decoded to. -/
  nonCanonical : ε

/-- Decode bounded base64. -/
def decodeBounded {ε : Type} (refusals : Refusals ε) (value : Json) (maximumBytes : ℕ) :
    Except ε (List UInt8) :=
  match value with
  | .string text =>
      let units := text.units
      if units.length % 4 ≠ 0 then .error refusals.invalid
      else
        let padding := paddingOf units
        let length := if units.length = 0 then 0 else units.length / 4 * 3 - padding
        if length > maximumBytes then .error refusals.exceeds
        else if ¬ (units.take (units.length - padding)).all (fun u => u ∈ Base64Alphabet) then
          .error refusals.invalid
        else
          let bytes := decodeFrom length units 0 (List.replicate length 0)
          if encodeBase64 bytes ≠ text then .error refusals.nonCanonical else .ok bytes
  | _ => .error refusals.invalid

/-! ### The loop decodes -/

@[simp]
theorem length_storeAt (length offset : ℕ) (value : BitVec 32) (bytes : List UInt8) :
  (storeAt length offset value bytes).length = bytes.length
  := by
  unfold storeAt
  split
  · rw [List.length_set]
  · rfl

theorem getElem?_storeAt {length : ℕ} {bytes : List UInt8} (h : bytes.length = length)
    (offset : ℕ) (value : BitVec 32) (i : ℕ) :
  (storeAt length offset value bytes)[i]? =
    if i = offset ∧ i < length then some (UInt8.ofNat value.toNat) else bytes[i]?
  := by
  unfold storeAt
  by_cases hi : i = offset
  · subst hi
    by_cases hlt : i < length
    · simp [hlt, h]
    · simp [hlt]
  · have hne : offset ≠ i := fun he => hi he.symm
    split
    · simp [hi, List.getElem?_set_ne hne]
    · simp [hi]

/-- The index of a symbol, as a number. -/
theorem indexOf_toNat {unit : UInt16} (h : unit ∈ Base64Alphabet) :
  (indexOf unit).toNat = symbolValue unit ∧ symbolValue unit < 64
  := by
  have hne : unit ≠ pad := fun he => pad_notMem (he ▸ h)
  have hlt : Base64Alphabet.idxOf unit < 64 := by
    have hlength : Base64Alphabet.length = 64 := by decide
    rw [← hlength]
    exact List.idxOf_lt_length_iff.mpr h
  constructor
  · rw [indexOf, if_pos h, symbolValue, if_neg hne, BitVec.toNat_ofNat]
    omega
  · rw [symbolValue, if_neg hne]
    exact hlt

theorem indexOrPad_toNat {unit : UInt16} (h : unit ∈ Base64Alphabet ∨ unit = pad) :
  (indexOrPad unit).toNat = symbolValue unit ∧ symbolValue unit < 64
  := by
  by_cases hp : unit = pad
  · subst hp
    decide
  · rw [indexOrPad, if_neg hp]
    apply indexOf_toNat
    exact h.resolve_right hp

/-- Below `64` the shifts of 32 bits are those of numbers. -/
theorem sshiftRight_toNat {x : BitVec 32} (h : x.toNat < 64) (n : ℕ) :
  (x.sshiftRight n).toNat = x.toNat >>> n
  := by
  have hmsb : x.msb = false := by
    rw [BitVec.msb_eq_false_iff_two_mul_lt]
    omega
  rw [BitVec.sshiftRight_eq_of_msb_false hmsb, BitVec.toNat_ushiftRight]

theorem shiftLeft_toNat {x : BitVec 32} (h : x.toNat < 64) {n : ℕ} (hn : n ≤ 6) :
  (x <<< n).toNat = x.toNat <<< n
  := by
  have hlt : x.toNat <<< n < 2 ^ 32 := by
    rw [Nat.shiftLeft_eq]
    calc x.toNat * 2 ^ n
      _ ≤ 64 * 2 ^ 6 := Nat.mul_le_mul h.le (Nat.pow_le_pow_right (by decide) hn)
      _ < 2 ^ 32 := by decide
  rw [BitVec.toNat_shiftLeft, Nat.mod_eq_of_lt hlt]

theorem mask_toNat (x mask : BitVec 32) (h : mask.toNat < 64) :
  (x &&& mask).toNat = x.toNat &&& mask.toNat ∧ (x &&& mask).toNat < 64
  := by
  constructor
  · exact BitVec.toNat_and x mask
  · rw [BitVec.toNat_and]
    exact lt_of_le_of_lt Nat.and_le_right h

/-- The bytes that a group of four units stands for. -/
def groupBytes (u v w x : UInt16) : List UInt8 :=
  [UInt8.ofNat (symbolValue u <<< 2 ||| symbolValue v >>> 4),
    UInt8.ofNat ((symbolValue v &&& 15) <<< 4 ||| symbolValue w >>> 2),
    UInt8.ofNat ((symbolValue w &&& 3) <<< 6 ||| symbolValue x)]

theorem decodeUnits_cons (u v w x : UInt16) (rest : List UInt16) :
  decodeUnits (u :: v :: w :: x :: rest) = groupBytes u v w x ++ decodeUnits rest
  := rfl

/-- The places of a group whose units are symbols or padding at the last two places. -/
structure IsGroup (u v w x : UInt16) : Prop where
  first : u ∈ Base64Alphabet
  second : v ∈ Base64Alphabet
  third : w ∈ Base64Alphabet ∨ w = pad
  fourth : x ∈ Base64Alphabet ∨ x = pad

/-- The bytes that the loop computes of a group are those that the group stands for. -/
theorem IsGroup.values {u v w x : UInt16} (h : IsGroup u v w x) :
  groupBytes u v w x =
    [UInt8.ofNat (indexOf u <<< 2 ||| (indexOf v).sshiftRight 4).toNat,
      UInt8.ofNat ((indexOf v &&& 15) <<< 4 ||| (indexOrPad w).sshiftRight 2).toNat,
      UInt8.ofNat ((indexOrPad w &&& 3) <<< 6 ||| indexOrPad x).toNat]
  := by
  obtain ⟨hu, hu'⟩ := indexOf_toNat h.first
  obtain ⟨hv, hv'⟩ := indexOf_toNat h.second
  obtain ⟨hw, hw'⟩ := indexOrPad_toNat h.third
  obtain ⟨hx, hx'⟩ := indexOrPad_toNat h.fourth
  have hfirst : (indexOf u <<< 2 ||| (indexOf v).sshiftRight 4).toNat =
      symbolValue u <<< 2 ||| symbolValue v >>> 4 := by
    rw [BitVec.toNat_or, shiftLeft_toNat (by omega) (by decide), sshiftRight_toNat (by omega),
      hu, hv]
  have hsecond : ((indexOf v &&& 15) <<< 4 ||| (indexOrPad w).sshiftRight 2).toNat =
      (symbolValue v &&& 15) <<< 4 ||| symbolValue w >>> 2 := by
    obtain ⟨hmask, hmask'⟩ := mask_toNat (indexOf v) 15 (by decide)
    rw [BitVec.toNat_or, shiftLeft_toNat hmask' (by decide), sshiftRight_toNat (by omega), hmask,
      hv, hw]
    rfl
  have hthird : ((indexOrPad w &&& 3) <<< 6 ||| indexOrPad x).toNat =
      (symbolValue w &&& 3) <<< 6 ||| symbolValue x := by
    obtain ⟨hmask, hmask'⟩ := mask_toNat (indexOrPad w) 3 (by decide)
    rw [BitVec.toNat_or, shiftLeft_toNat hmask' (by decide), hmask, hw, hx]
    rfl
  rw [hfirst, hsecond, hthird, groupBytes]

/-- Units that are groups of four. -/
inductive Groups : List UInt16 → Prop
  | nil : Groups []
  | cons {u v w x : UInt16} {rest : List UInt16} (group : IsGroup u v w x)
      (others : Groups rest) : Groups (u :: v :: w :: x :: rest)

theorem Groups.length_decodeUnits {units : List UInt16} (h : Groups units) :
  (decodeUnits units).length = units.length / 4 * 3
  := by
  induction h with
  | nil => rfl
  | cons group others ih =>
      rw [decodeUnits_cons, List.length_append, ih]
      simp only [groupBytes, List.length_cons, List.length_nil]
      omega

/-- The loop puts the bytes at their places, as far as these exist. -/
theorem getElem?_decodeFrom {units : List UInt16} (hunits : Groups units) {length : ℕ} :
  ∀ (offset : ℕ) {bytes : List UInt8}, bytes.length = length → ∀ i : ℕ,
    (decodeFrom length units offset bytes)[i]? =
      if i < length ∧ offset ≤ i ∧ i < offset + (decodeUnits units).length then
        (decodeUnits units)[i - offset]?
      else bytes[i]?
  := by
  induction hunits with
  | nil =>
      intro offset bytes h i
      rw [if_neg]
      · rfl
      · simp only [decodeUnits, List.length_nil]
        omega
  | @cons u v w x rest group _ ih =>
      intro offset bytes h i
      have hvalues := group.values
      simp only [decodeFrom]
      generalize indexOf u <<< 2 ||| (indexOf v).sshiftRight 4 = first at hvalues ⊢
      generalize (indexOf v &&& 15) <<< 4 ||| (indexOrPad w).sshiftRight 2 = second at hvalues ⊢
      generalize (indexOrPad w &&& 3) <<< 6 ||| indexOrPad x = third at hvalues ⊢
      rw [ih (offset + 3) (by simp [h]), getElem?_storeAt (by simp [h]),
        getElem?_storeAt (by simp [h]), getElem?_storeAt h, decodeUnits_cons, hvalues,
        List.length_append, List.getElem?_append]
      simp only [List.length_cons, List.length_nil]
      obtain hlt | rfl | rfl | rfl | hge :
        i < offset ∨ i = offset ∨ i = offset + 1 ∨ i = offset + 2 ∨ offset + 3 ≤ i := by omega
      · simp only [show ¬ offset ≤ i by omega, show ¬ offset + 3 ≤ i by omega,
          show i ≠ offset by omega, show i ≠ offset + 1 by omega, show i ≠ offset + 2 by omega,
          false_and, and_false, if_false]
      · by_cases hi : i < length
        · simp [hi]
        · simp [hi]
      · by_cases hi : offset + 1 < length
        · simp [hi]
          omega
        · simp [hi]
      · by_cases hi : offset + 2 < length
        · simp [hi]
          omega
        · simp [hi]
      · have hsub : i - offset - 3 = i - (offset + 3) := by omega
        simp only [show ¬ i - offset < 0 + 1 + 1 + 1 by omega, show offset ≤ i by omega, hge,
          show i ≠ offset by omega, show i ≠ offset + 1 by omega, show i ≠ offset + 2 by omega,
          false_and, if_false, true_and, hsub]
        congr 1
        simp only [eq_iff_iff, and_congr_right_iff]
        omega

/-- The loop decodes the units into as many bytes as the array has. -/
theorem decodeFrom_eq {units : List UInt16} (hunits : Groups units) {length : ℕ}
    (h : length ≤ (decodeUnits units).length) :
  decodeFrom length units 0 (List.replicate length 0) = (decodeUnits units).take length
  := by
  apply List.ext_getElem?
  intro i
  rw [getElem?_decodeFrom hunits 0 (List.length_replicate ..), List.getElem?_take]
  by_cases hi : i < length
  · rw [if_pos ⟨hi, Nat.zero_le i, by omega⟩, if_pos hi, Nat.sub_zero]
  · rw [if_neg (fun hall => hi hall.1), if_neg hi]
    simp [hi]

/-! ### What is decoded -/

/-- Symbols followed by padding that completes the last of them are groups. -/
theorem groups_append :
  ∀ {content : List UInt16} {n : ℕ}, (∀ u ∈ content, u ∈ Base64Alphabet) → n ≤ 2 →
    (content.length + n) % 4 = 0 → Groups (content ++ List.replicate n pad)
  | [], n, _, hn, hlength => by
      have hzero : n = 0 := by
        simp only [List.length_nil] at hlength
        omega
      subst hzero
      exact Groups.nil
  | [_], n, _, hn, hlength => by
      simp only [List.length_cons, List.length_nil] at hlength
      omega
  | [u, v], n, hcontent, hn, hlength => by
      have htwo : n = 2 := by
        simp only [List.length_cons, List.length_nil] at hlength
        omega
      subst htwo
      apply Groups.cons _ Groups.nil
      exact ⟨hcontent u (by simp), hcontent v (by simp), Or.inr rfl, Or.inr rfl⟩
  | [u, v, w], n, hcontent, hn, hlength => by
      have hone : n = 1 := by
        simp only [List.length_cons, List.length_nil] at hlength
        omega
      subst hone
      apply Groups.cons _ Groups.nil
      exact ⟨hcontent u (by simp), hcontent v (by simp), Or.inl (hcontent w (by simp)), Or.inr rfl⟩
  | u :: v :: w :: x :: rest, n, hcontent, hn, hlength => by
      apply Groups.cons
      · exact ⟨hcontent u (by simp), hcontent v (by simp), Or.inl (hcontent w (by simp)),
          Or.inl (hcontent x (by simp))⟩
      · apply groups_append _ hn
        · simp only [List.length_cons] at hlength
          omega
        · intro y hy
          apply hcontent
          simp [hy]

/-- The units are what stands before the padding, and the padding. -/
theorem take_append_padding (units : List UInt16) :
  units.take (units.length - paddingOf units) ++ List.replicate (paddingOf units) pad = units ∧
    paddingOf units ≤ 2
  := by
  unfold paddingOf
  simp only [List.isSuffixOf_iff_suffix]
  split
  case isTrue h =>
    obtain ⟨content, rfl⟩ := h
    simp
  case isFalse =>
    split
    case isTrue h =>
      obtain ⟨content, rfl⟩ := h
      simp
    case isFalse => simp

/-- A text whose content are symbols consists of groups. -/
theorem groups_of_content {units : List UInt16} (hlength : units.length % 4 = 0)
    (h : (units.take (units.length - paddingOf units)).all (fun u => u ∈ Base64Alphabet)) :
  Groups units
  := by
  obtain ⟨happend, hle⟩ := take_append_padding units
  have hsum := congrArg List.length happend
  rw [List.length_append, List.length_replicate] at hsum
  rw [← happend]
  apply groups_append _ hle
  · rw [hsum]
    exact hlength
  · intro u hu
    rw [List.all_eq_true] at h
    exact of_decide_eq_true (h u hu)

/-- A text is decoded exactly as the canonical encoding of bytes within the bound. -/
theorem decodeBase64_eq_ok_iff {value : JsString} {maximumBytes : ℕ} {bytes : List UInt8} :
  decodeBase64 value maximumBytes = .ok bytes ↔
    value = encodeBase64 bytes ∧ bytes.length ≤ maximumBytes
  := by
  constructor
  · intro h
    refine ⟨?_, length_le_of_decodeBase64 h⟩
    simp only [decodeBase64] at h
    generalize (if value.units.length = 0 then 0
      else value.units.length / 4 * 3 - paddingOf value.units) = length at h
    split at h
    · cases h
    · split at h
      · cases h
      · split at h
        · cases h
        · split at h
          · cases h
          · rename_i hcanonical
            cases h
            exact (not_not.mp hcanonical).symm
  · rintro ⟨rfl, hle⟩
    exact decodeBase64_encodeBase64 hle

/-- The decoders decode alike, whatever they throw. -/
theorem toOption_decodeBounded {ε : Type} (refusals : Refusals ε) (value : JsString)
    (maximumBytes : ℕ) :
  (decodeBounded refusals (.string value) maximumBytes).toOption =
    (decodeBase64 value maximumBytes).toOption
  := by
  have hle : (if value.units.length = 0 then 0
      else value.units.length / 4 * 3 - paddingOf value.units) ≤ value.units.length / 4 * 3 := by
    split
    · exact Nat.zero_le _
    · exact Nat.sub_le _ _
  simp only [decodeBounded, decodeBase64]
  generalize (if value.units.length = 0 then 0
    else value.units.length / 4 * 3 - paddingOf value.units) = length at hle ⊢
  by_cases hlength : value.units.length % 4 ≠ 0
  · rw [if_pos hlength, if_pos hlength]
    rfl
  · rw [if_neg hlength, if_neg hlength]
    split
    · rfl
    · split
      · rfl
      · rename_i hcontent
        have hgroups := groups_of_content (not_not.mp hlength) (not_not.mp hcontent)
        rw [decodeFrom_eq hgroups (hgroups.length_decodeUnits ▸ hle)]
        split
        · rfl
        · rfl

theorem decodeBounded_eq_ok_iff {ε : Type} (refusals : Refusals ε) (value : JsString)
    (maximumBytes : ℕ) (bytes : List UInt8) :
  decodeBounded refusals (.string value) maximumBytes = .ok bytes ↔
    value = encodeBase64 bytes ∧ bytes.length ≤ maximumBytes
  := by
  have hsame := toOption_decodeBounded refusals value maximumBytes
  rw [← decodeBase64_eq_ok_iff]
  constructor
  · intro h
    rw [h] at hsame
    exact toOption_eq_some hsame.symm
  · intro h
    rw [h] at hsame
    cases hdecode : decodeBounded refusals (.string value) maximumBytes with
    | error e =>
        rw [hdecode] at hsame
        cases hsame
    | ok decoded =>
        rw [hdecode] at hsame
        cases hsame
        rfl

end Store.Base64

namespace Store

/-! ### The two stores -/

/-- The decoder of the File Store. -/
def File.decodeBase64 (value : Json) (maximumBytes : ℕ) : Except StoreError (List UInt8) :=
  Base64.decodeBounded
    ⟨.typeError "invalid base64", .rangeError "decoded base64 exceeds provider bounds",
      .typeError "non-canonical base64"⟩
    value maximumBytes

/-- The encoder of the File Store. -/
def File.encodeBase64 : List UInt8 → JsString := Base64.encodeBase64

/-- The decoder of the etcd Store. -/
def Etcd.decodeBase64 (value : Json) (maximumBytes : ℕ) (operation : Etcd.Operation) :
    Except Etcd.EtcdError (List UInt8) :=
  Base64.decodeBounded ⟨.protocol operation, .protocol operation, .protocol operation⟩ value
    maximumBytes

/-- The encoder of the etcd Store. -/
def Etcd.encodeBase64 : List UInt8 → JsString := Base64.encodeBase64

/-- Base64 is exact: encodings of bytes within the bound are decoded to these bytes, nothing
else is decoded, and the two stores decode alike. -/
theorem base64_exact (maximumBytes : ℕ) (operation : Etcd.Operation) :
  (∀ bytes : List UInt8, bytes.length ≤ maximumBytes →
      File.decodeBase64 (.string (File.encodeBase64 bytes)) maximumBytes = .ok bytes ∧
      Etcd.decodeBase64 (.string (Etcd.encodeBase64 bytes)) maximumBytes operation = .ok bytes) ∧
    (∀ value : JsString,
      ((∃ bytes, File.decodeBase64 (.string value) maximumBytes = .ok bytes) ↔
        ∃ bytes, bytes.length ≤ maximumBytes ∧ value = File.encodeBase64 bytes) ∧
      ((∃ bytes, Etcd.decodeBase64 (.string value) maximumBytes operation = .ok bytes) ↔
        ∃ bytes, bytes.length ≤ maximumBytes ∧ value = Etcd.encodeBase64 bytes)) ∧
    ∀ value : Json,
      (File.decodeBase64 value maximumBytes).toOption =
        (Etcd.decodeBase64 value maximumBytes operation).toOption
  := by
  refine ⟨?_, ?_, ?_⟩
  · intro bytes h
    constructor
    · exact (Base64.decodeBounded_eq_ok_iff _ _ _ _).mpr ⟨rfl, h⟩
    · exact (Base64.decodeBounded_eq_ok_iff _ _ _ _).mpr ⟨rfl, h⟩
  · intro value
    constructor
    · apply exists_congr
      intro bytes
      rw [File.decodeBase64, Base64.decodeBounded_eq_ok_iff, and_comm, File.encodeBase64]
    · apply exists_congr
      intro bytes
      rw [Etcd.decodeBase64, Base64.decodeBounded_eq_ok_iff, and_comm, Etcd.encodeBase64]
  · intro value
    cases value with
    | string text =>
        rw [File.decodeBase64, Etcd.decodeBase64, Base64.toOption_decodeBounded,
          Base64.toOption_decodeBounded]
    | _ => rfl

theorem base64_exact_two :
  File.decodeBase64 (.string (File.encodeBase64 [0, 255])) 2 = .ok [0, 255]
  := ((base64_exact 2 .write).1 [0, 255] (by decide)).1

end Store
