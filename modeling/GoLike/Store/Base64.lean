import GoLike.Store.Record
import Mathlib.Data.Nat.Bitwise

/-!
# Base64

The canonical padded encoding of bytes in which the File Store writes values and cursors.
Three bytes are encoded by four symbols of six bits each; what is missing of the last three
bytes is replaced by padding. Decoding accepts exactly what encoding produces.
-/

namespace Store.Base64

/-- The units of the symbols, in the order of the values they stand for. -/
def Base64Alphabet : List UInt16 :=
  (List.range 26).map (fun i => UInt16.ofNat (65 + i)) ++
    (List.range 26).map (fun i => UInt16.ofNat (97 + i)) ++
    (List.range 10).map (fun i => UInt16.ofNat (48 + i)) ++ [43, 47]

/-- The unit of the padding. -/
def pad : UInt16 := 61

/-- The symbol of a six-bit value. -/
def base64Symbol (index : ℕ) : UInt16 := Base64Alphabet.getD index pad

/-- The value of a symbol; the padding counts as zero. -/
def symbolValue (unit : UInt16) : ℕ := if unit = pad then 0 else Base64Alphabet.idxOf unit

/-! ### Encoding -/

/-- The units that encode bytes, three of them at a time. -/
def encodeUnits : List UInt8 → List UInt16
  | [] => []
  | [first] =>
      [base64Symbol ((first.toNat >>> 2) &&& 63),
        base64Symbol ((first.toNat &&& 3) <<< 4 ||| 0 >>> 4), pad, pad]
  | [first, second] =>
      [base64Symbol ((first.toNat >>> 2) &&& 63),
        base64Symbol ((first.toNat &&& 3) <<< 4 ||| second.toNat >>> 4),
        base64Symbol ((second.toNat &&& 15) <<< 2 ||| 0 >>> 6), pad]
  | first :: second :: third :: rest =>
      base64Symbol ((first.toNat >>> 2) &&& 63) ::
        base64Symbol ((first.toNat &&& 3) <<< 4 ||| second.toNat >>> 4) ::
        base64Symbol ((second.toNat &&& 15) <<< 2 ||| third.toNat >>> 6) ::
        base64Symbol (third.toNat &&& 63) :: encodeUnits rest

/-- Encode bytes. -/
def encodeBase64 (bytes : List UInt8) : JsString := ⟨encodeUnits bytes⟩

/-! ### Decoding -/

/-- The bytes that four symbols at a time stand for, the padding standing for zeros. -/
def decodeUnits : List UInt16 → List UInt8
  | u :: v :: w :: x :: rest =>
      let first := symbolValue u
      let second := symbolValue v
      let third := symbolValue w
      let fourth := symbolValue x
      UInt8.ofNat (first <<< 2 ||| second >>> 4) ::
        UInt8.ofNat ((second &&& 15) <<< 4 ||| third >>> 2) ::
        UInt8.ofNat ((third &&& 3) <<< 6 ||| fourth) :: decodeUnits rest
  | _ => []

/-- The number of padding units at the end. -/
def paddingOf (units : List UInt16) : ℕ :=
  if [pad, pad].isSuffixOf units then 2 else if [pad].isSuffixOf units then 1 else 0

/-- Decode bytes, at most `maximumBytes` of them. -/
def decodeBase64 (value : JsString) (maximumBytes : ℕ) : Except StoreError (List UInt8) :=
  let units := value.units
  if units.length % 4 ≠ 0 then .error (.typeError "invalid base64")
  else
    let padding := paddingOf units
    let length := if units.length = 0 then 0 else units.length / 4 * 3 - padding
    if length > maximumBytes then
      .error (.rangeError "decoded base64 exceeds provider bounds")
    else if ¬ (units.take (units.length - padding)).all (fun u => u ∈ Base64Alphabet) then
      .error (.typeError "invalid base64")
    else
      let bytes := (decodeUnits units).take length
      if encodeBase64 bytes ≠ value then .error (.typeError "non-canonical base64")
      else .ok bytes

/-! ### The round trip -/

theorem symbolValue_base64Symbol {index : ℕ} (h : index < 64) :
  symbolValue (base64Symbol index) = index
  := by
  have hall : ∀ i : Fin 64, symbolValue (base64Symbol i.val) = i.val := by decide
  exact hall ⟨index, h⟩

theorem base64Symbol_mem {index : ℕ} (h : index < 64) :
  base64Symbol index ∈ Base64Alphabet
  := by
  have hall : ∀ i : Fin 64, base64Symbol i.val ∈ Base64Alphabet := by decide
  exact hall ⟨index, h⟩

theorem pad_notMem :
  pad ∉ Base64Alphabet
  := by decide

/-- Bits put above disjoint lower bits are added to them. -/
theorem shiftLeft_or {a b k : ℕ} (h : b < 2 ^ k) :
  a <<< k ||| b = a * 2 ^ k + b
  := by
  rw [← Nat.shiftLeft_add_eq_or_of_lt h, Nat.shiftLeft_eq]

theorem sextet_first {a : ℕ} (h : a < 256) :
  (a >>> 2) &&& 63 = a / 4
  := by
  have hmask := Nat.and_two_pow_sub_one_eq_mod (a >>> 2) 6
  norm_num [Nat.shiftRight_eq_div_pow] at hmask ⊢
  omega

theorem sextet_second (a : ℕ) {b : ℕ} (h : b < 256) :
  (a &&& 3) <<< 4 ||| b >>> 4 = a % 4 * 16 + b / 16
  := by
  have hmask := Nat.and_two_pow_sub_one_eq_mod a 2
  have hlow : b >>> 4 < 2 ^ 4 := by
    norm_num [Nat.shiftRight_eq_div_pow]
    omega
  rw [shiftLeft_or hlow]
  norm_num [Nat.shiftRight_eq_div_pow] at hmask ⊢
  omega

theorem sextet_third (b : ℕ) {c : ℕ} (h : c < 256) :
  (b &&& 15) <<< 2 ||| c >>> 6 = b % 16 * 4 + c / 64
  := by
  have hmask := Nat.and_two_pow_sub_one_eq_mod b 4
  have hlow : c >>> 6 < 2 ^ 2 := by
    norm_num [Nat.shiftRight_eq_div_pow]
    omega
  rw [shiftLeft_or hlow]
  norm_num [Nat.shiftRight_eq_div_pow] at hmask ⊢
  omega

theorem sextet_fourth (c : ℕ) :
  c &&& 63 = c % 64
  := by
  have hmask := Nat.and_two_pow_sub_one_eq_mod c 6
  norm_num at hmask
  exact hmask

theorem octet_first (p : ℕ) {q : ℕ} (h : q < 64) :
  p <<< 2 ||| q >>> 4 = p * 4 + q / 16
  := by
  have hlow : q >>> 4 < 2 ^ 2 := by
    norm_num [Nat.shiftRight_eq_div_pow]
    omega
  rw [shiftLeft_or hlow]
  norm_num [Nat.shiftRight_eq_div_pow]

theorem octet_second (q : ℕ) {r : ℕ} (h : r < 64) :
  (q &&& 15) <<< 4 ||| r >>> 2 = q % 16 * 16 + r / 4
  := by
  have hmask := Nat.and_two_pow_sub_one_eq_mod q 4
  have hlow : r >>> 2 < 2 ^ 4 := by
    norm_num [Nat.shiftRight_eq_div_pow]
    omega
  rw [shiftLeft_or hlow]
  norm_num [Nat.shiftRight_eq_div_pow] at hmask ⊢
  omega

theorem octet_third (r : ℕ) {x : ℕ} (h : x < 64) :
  (r &&& 3) <<< 6 ||| x = r % 4 * 64 + x
  := by
  have hmask := Nat.and_two_pow_sub_one_eq_mod r 2
  have hlow : x < 2 ^ 6 := h
  rw [shiftLeft_or hlow]
  norm_num at hmask ⊢
  omega

/-- The three bytes of four six-bit values. -/
theorem octets_of_sextets (a b c : UInt8) :
  let p := a.toNat / 4
  let q := a.toNat % 4 * 16 + b.toNat / 16
  let r := b.toNat % 16 * 4 + c.toNat / 64
  let x := c.toNat % 64
  UInt8.ofNat (p <<< 2 ||| q >>> 4) = a ∧ UInt8.ofNat ((q &&& 15) <<< 4 ||| r >>> 2) = b ∧
    UInt8.ofNat ((r &&& 3) <<< 6 ||| x) = c
  := by
  intro p q r x
  have ha : a.toNat < 256 := a.toNat_lt
  have hb : b.toNat < 256 := b.toNat_lt
  have hc : c.toNat < 256 := c.toNat_lt
  have hq : q < 64 := by omega
  have hr : r < 64 := by omega
  have hx : x < 64 := by omega
  have hfirst : p * 4 + q / 16 = a.toNat := by omega
  have hsecond : q % 16 * 16 + r / 4 = b.toNat := by omega
  have hthird : r % 4 * 64 + x = c.toNat := by omega
  rw [octet_first p hq, octet_second q hr, octet_third r hx, hfirst, hsecond, hthird]
  simp

/-- The symbols of three bytes are decoded to these bytes. -/
theorem decodeUnits_quad (a b c : UInt8) {u v w x : UInt16} (rest : List UInt16)
    (hu : symbolValue u = a.toNat / 4) (hv : symbolValue v = a.toNat % 4 * 16 + b.toNat / 16)
    (hw : symbolValue w = b.toNat % 16 * 4 + c.toNat / 64) (hx : symbolValue x = c.toNat % 64) :
  decodeUnits (u :: v :: w :: x :: rest) = a :: b :: c :: decodeUnits rest
  := by
  obtain ⟨h₁, h₂, h₃⟩ := octets_of_sextets a b c
  rw [decodeUnits, hu, hv, hw, hx, h₁, h₂, h₃]

/-- The number of bytes missing to a multiple of three. -/
def missing (bytes : List UInt8) : ℕ := (3 - bytes.length % 3) % 3

theorem decodeUnits_encodeUnits (bytes : List UInt8) :
  decodeUnits (encodeUnits bytes) = bytes ++ List.replicate (missing bytes) 0
  := by
  induction bytes using encodeUnits.induct with
  | case1 => rfl
  | case2 first =>
      have ha : first.toNat < 256 := first.toNat_lt
      rw [encodeUnits, sextet_first ha, sextet_second first.toNat (b := 0) (by omega)]
      apply decodeUnits_quad first 0 0 []
      · apply symbolValue_base64Symbol
        omega
      · apply symbolValue_base64Symbol
        omega
      · rfl
      · rfl
  | case3 first second =>
      have ha : first.toNat < 256 := first.toNat_lt
      have hb : second.toNat < 256 := second.toNat_lt
      rw [encodeUnits, sextet_first ha, sextet_second first.toNat hb,
        sextet_third second.toNat (c := 0) (by omega)]
      apply decodeUnits_quad first second 0 []
      · apply symbolValue_base64Symbol
        omega
      · apply symbolValue_base64Symbol
        omega
      · apply symbolValue_base64Symbol
        omega
      · rfl
  | case4 first second third rest ih =>
      have ha : first.toNat < 256 := first.toNat_lt
      have hb : second.toNat < 256 := second.toNat_lt
      have hc : third.toNat < 256 := third.toNat_lt
      rw [encodeUnits, sextet_first ha, sextet_second first.toNat hb,
        sextet_third second.toNat hc, sextet_fourth,
        decodeUnits_quad first second third (encodeUnits rest)
          (symbolValue_base64Symbol (by omega)) (symbolValue_base64Symbol (by omega))
          (symbolValue_base64Symbol (by omega)) (symbolValue_base64Symbol (by omega)), ih]
      have hmissing : missing (first :: second :: third :: rest) = missing rest := by
        simp only [missing, List.length_cons]
        omega
      rw [hmissing]
      rfl

/-- The units of an encoding are symbols, followed by padding for the missing bytes. -/
theorem encodeUnits_eq (bytes : List UInt8) :
  ∃ symbols : List UInt16, encodeUnits bytes = symbols ++ List.replicate (missing bytes) pad ∧
    (∀ u ∈ symbols, u ∈ Base64Alphabet) ∧
    symbols.length + missing bytes = (bytes.length + 2) / 3 * 4
  := by
  induction bytes using encodeUnits.induct with
  | case1 => exact ⟨[], rfl, by simp, rfl⟩
  | case2 first =>
      have ha : first.toNat < 256 := first.toNat_lt
      rw [encodeUnits, sextet_first ha, sextet_second first.toNat (b := 0) (by omega)]
      refine ⟨[_, _], rfl, ?_, by simp [missing]⟩
      simp only [List.mem_cons, List.not_mem_nil, or_false, forall_eq_or_imp, forall_eq]
      exact ⟨base64Symbol_mem (by omega), base64Symbol_mem (by omega)⟩
  | case3 first second =>
      have ha : first.toNat < 256 := first.toNat_lt
      have hb : second.toNat < 256 := second.toNat_lt
      rw [encodeUnits, sextet_first ha, sextet_second first.toNat hb,
        sextet_third second.toNat (c := 0) (by omega)]
      refine ⟨[_, _, _], rfl, ?_, by simp [missing]⟩
      simp only [List.mem_cons, List.not_mem_nil, or_false, forall_eq_or_imp, forall_eq]
      exact ⟨base64Symbol_mem (by omega), base64Symbol_mem (by omega),
        base64Symbol_mem (by omega)⟩
  | case4 first second third rest ih =>
      have ha : first.toNat < 256 := first.toNat_lt
      have hb : second.toNat < 256 := second.toNat_lt
      have hc : third.toNat < 256 := third.toNat_lt
      obtain ⟨symbols, hsymbols, hmem, hlength⟩ := ih
      have hmissing : missing (first :: second :: third :: rest) = missing rest := by
        simp only [missing, List.length_cons]
        omega
      rw [encodeUnits, sextet_first ha, sextet_second first.toNat hb,
        sextet_third second.toNat hc, sextet_fourth, hsymbols, hmissing]
      refine ⟨_ :: _ :: _ :: _ :: symbols, rfl, ?_, ?_⟩
      · simp only [List.mem_cons, forall_eq_or_imp]
        exact ⟨base64Symbol_mem (by omega), base64Symbol_mem (by omega),
          base64Symbol_mem (by omega), base64Symbol_mem (by omega), hmem⟩
      · simp only [List.length_cons]
        omega

/-- Symbols followed by padding end in exactly this padding. -/
theorem paddingOf_append {symbols : List UInt16} (h : ∀ u ∈ symbols, u ∈ Base64Alphabet) {n : ℕ}
    (hn : n ≤ 2) :
  paddingOf (symbols ++ List.replicate n pad) = n
  := by
  have hpad : pad ∉ symbols := fun hmem => pad_notMem (h pad hmem)
  have hsuffix : ∀ l : List UInt16, pad ∈ l → ¬ l <:+ symbols := by
    intro l hl hsuffix
    exact hpad (hsuffix.subset hl)
  rw [paddingOf]
  simp only [List.isSuffixOf_iff_suffix]
  interval_cases n
  · simp [hsuffix]
  · have htwo : ¬ [pad, pad] <:+ symbols ++ [pad] := by
      intro htwo
      have happend : [pad] ++ [pad] <:+ symbols ++ [pad] := htwo
      have hone : [pad] <:+ symbols := ((List.suffix_append_inj_of_length_eq rfl).mp happend).1
      exact hsuffix [pad] (by simp) hone
    simp [htwo]
  · simp

/-- Decoding an encoding gives the bytes back. -/
theorem decodeBase64_encodeBase64 {bytes : List UInt8} {maximumBytes : ℕ}
    (h : bytes.length ≤ maximumBytes) :
  decodeBase64 (encodeBase64 bytes) maximumBytes = .ok bytes
  := by
  obtain ⟨symbols, hsymbols, hmem, hlength⟩ := encodeUnits_eq bytes
  have hmissing : missing bytes ≤ 2 := by
    simp only [missing]
    omega
  have hunits : (encodeUnits bytes).length = (bytes.length + 2) / 3 * 4 := by
    rw [hsymbols, List.length_append, List.length_replicate, hlength]
  have hpadding : paddingOf (encodeUnits bytes) = missing bytes := by
    rw [hsymbols, paddingOf_append hmem hmissing]
  have hbytes : (if (encodeUnits bytes).length = 0 then 0
      else (encodeUnits bytes).length / 4 * 3 - missing bytes) = bytes.length := by
    rw [hunits]
    simp only [missing]
    split
    · omega
    · omega
  have hcontent : (encodeUnits bytes).take ((encodeUnits bytes).length - missing bytes) =
      symbols := by
    rw [hunits, ← hlength, Nat.add_sub_cancel, hsymbols, List.take_left]
  have hdecode : (decodeUnits (encodeUnits bytes)).take bytes.length = bytes := by
    rw [decodeUnits_encodeUnits, List.take_left]
  have hall : symbols.all (fun u => u ∈ Base64Alphabet) = true := by
    rw [List.all_eq_true]
    intro u hu
    exact decide_eq_true (hmem u hu)
  simp only [decodeBase64, encodeBase64, hpadding, hbytes, hcontent, hdecode]
  rw [if_neg (by rw [hunits]; omega), if_neg (by omega), if_neg (not_not.mpr hall),
    if_neg (by simp)]

/-- Decoded bytes are within the bound. -/
theorem length_le_of_decodeBase64 {value : JsString} {maximumBytes : ℕ} {bytes : List UInt8}
    (h : decodeBase64 value maximumBytes = .ok bytes) :
  bytes.length ≤ maximumBytes
  := by
  simp only [decodeBase64] at h
  generalize (if value.units.length = 0 then 0
    else value.units.length / 4 * 3 - paddingOf value.units) = length at h
  split at h
  · cases h
  · split at h
    · cases h
    · rename_i hle
      split at h
      · cases h
      · split at h
        · cases h
        · cases h
          rw [List.length_take]
          exact (Nat.min_le_left _ _).trans (not_lt.mp hle)

end Store.Base64
