import GoLike.Registry.Instance
import GoLike.Store.Base64

/-!
# URL-safe Base64 without padding

Three bytes are encoded by four symbols of six bits each, and fewer bytes at the end by
fewer symbols. Only what encoding produces is decoded.
-/

open Store

namespace Registry.Mdns

/-- The units of the symbols, in the order of the values they stand for. -/
def base64Alphabet : List UInt16 :=
  (List.range 26).map (fun i => UInt16.ofNat (65 + i)) ++
    (List.range 26).map (fun i => UInt16.ofNat (97 + i)) ++
    (List.range 10).map (fun i => UInt16.ofNat (48 + i)) ++ [45, 95]

/-- Six bits. -/
def sextet (bits shift : ℕ) : ℕ := (bits >>> shift) &&& 63

/-- Eight bits. -/
def octet (bits shift : ℕ) : ℕ := (bits >>> shift) &&& 255

/-- The symbol of six bits. -/
def symbol (bits shift : ℕ) : UInt16 := base64Alphabet.getD (sextet bits shift) 0

/-- The value of a symbol. -/
def indexOf (unit : UInt16) : ℕ := base64Alphabet.idxOf unit

/-! ### Encoding -/

/-- The units that encode bytes, three of them at a time. -/
def base64urlUnits : List UInt8 → List UInt16
  | [] => []
  | [first] =>
      let bits := first.toNat <<< 16
      [symbol bits 18, symbol bits 12]
  | [first, second] =>
      let bits := (first.toNat <<< 8 ||| second.toNat) <<< 8
      [symbol bits 18, symbol bits 12, symbol bits 6]
  | first :: second :: third :: rest =>
      let bits := (first.toNat <<< 8 ||| second.toNat) <<< 8 ||| third.toNat
      symbol bits 18 :: symbol bits 12 :: symbol bits 6 :: symbol bits 0 :: base64urlUnits rest

/-- Encode bytes. -/
def base64url (bytes : List UInt8) : JsString := ⟨base64urlUnits bytes⟩

/-! ### Decoding -/

/-- The bytes that units stand for, four of them at a time. -/
def unbase64urlBytes : List UInt16 → List UInt8
  | [] => []
  | [u] =>
      let bits := indexOf u <<< 18
      [UInt8.ofNat (octet bits 16)]
  | [u, v] =>
      let bits := (indexOf u <<< 6 ||| indexOf v) <<< 12
      [UInt8.ofNat (octet bits 16)]
  | [u, v, w] =>
      let bits := ((indexOf u <<< 6 ||| indexOf v) <<< 6 ||| indexOf w) <<< 6
      [UInt8.ofNat (octet bits 16), UInt8.ofNat (octet bits 8)]
  | u :: v :: w :: x :: rest =>
      let bits := ((indexOf u <<< 6 ||| indexOf v) <<< 6 ||| indexOf w) <<< 6 ||| indexOf x
      UInt8.ofNat (octet bits 16) :: UInt8.ofNat (octet bits 8) :: UInt8.ofNat (octet bits 0) ::
        unbase64urlBytes rest

/-- Decode a string, which has to be what encoding produces. -/
def unbase64url (value : JsString) : Except RegistryError (List UInt8) :=
  if value.units.all base64Alphabet.contains = false ∨ value.units.length % 4 = 1 then
    .error (.typeError "mDNS payload is not canonical base64url")
  else
    let decoded := unbase64urlBytes value.units
    if base64url decoded ≠ value then
      .error (.typeError "mDNS payload is not canonical base64url")
    else .ok decoded

/-! ### The round trip -/

theorem sextet_eq (bits shift : ℕ) :
  sextet bits shift = bits / 2 ^ shift % 64
  := by
  have hmask := Nat.and_two_pow_sub_one_eq_mod (bits >>> shift) 6
  rw [Nat.shiftRight_eq_div_pow] at hmask
  rw [sextet, Nat.shiftRight_eq_div_pow]
  exact hmask

theorem octet_eq (bits shift : ℕ) :
  octet bits shift = bits / 2 ^ shift % 256
  := by
  have hmask := Nat.and_two_pow_sub_one_eq_mod (bits >>> shift) 8
  rw [Nat.shiftRight_eq_div_pow] at hmask
  rw [octet, Nat.shiftRight_eq_div_pow]
  exact hmask

theorem indexOf_symbol (bits shift : ℕ) :
  indexOf (symbol bits shift) = bits / 2 ^ shift % 64
  := by
  have hall : ∀ i : Fin 64, indexOf (base64Alphabet.getD i.val 0) = i.val := by decide
  have hlt : sextet bits shift < 64 := by
    rw [sextet_eq]
    exact Nat.mod_lt _ (by decide)
  exact (hall ⟨sextet bits shift, hlt⟩).trans (sextet_eq bits shift)

theorem symbol_mem (bits shift : ℕ) :
  symbol bits shift ∈ base64Alphabet
  := by
  have hall : ∀ i : Fin 64, base64Alphabet.getD i.val 0 ∈ base64Alphabet := by decide
  have hlt : sextet bits shift < 64 := by
    rw [sextet_eq]
    exact Nat.mod_lt _ (by decide)
  exact hall ⟨sextet bits shift, hlt⟩

/-- Eight bits are added below others. -/
theorem below_eight (bits : ℕ) (byte : UInt8) :
  bits <<< 8 ||| byte.toNat = bits * 256 + byte.toNat
  := Base64.shiftLeft_or byte.toNat_lt

/-- Six bits are added below others. -/
theorem below_six (bits : ℕ) {index : ℕ} (h : index < 64) :
  bits <<< 6 ||| index = bits * 64 + index
  := Base64.shiftLeft_or h

theorem unbase64urlBytes_base64urlUnits (bytes : List UInt8) :
  unbase64urlBytes (base64urlUnits bytes) = bytes
  := by
  have hsextet : ∀ n : ℕ, n % 64 < 64 := fun n => Nat.mod_lt n (by decide)
  have hbyte : ∀ b : UInt8, b.toNat < 256 := fun b => b.toNat_lt
  have hofNat : ∀ (n : ℕ) (b : UInt8), n = b.toNat → UInt8.ofNat n = b := by
    intro n b h
    rw [h, UInt8.ofNat_toNat]
  induction bytes using base64urlUnits.induct with
  | case1 => rfl
  | case2 first =>
      have hfirst := hbyte first
      simp only [base64urlUnits, unbase64urlBytes, indexOf_symbol, below_six _ (hsextet _), octet_eq,
        List.cons.injEq, and_true]
      simp only [Nat.shiftLeft_eq]
      apply hofNat
      omega
  | case3 first second =>
      have hfirst := hbyte first
      have hsecond := hbyte second
      simp only [base64urlUnits, unbase64urlBytes, indexOf_symbol, below_six _ (hsextet _), octet_eq,
        below_eight, List.cons.injEq, and_true]
      simp only [Nat.shiftLeft_eq]
      constructor
      · apply hofNat
        omega
      · apply hofNat
        omega
  | case4 first second third rest ih =>
      have hfirst := hbyte first
      have hsecond := hbyte second
      have hthird := hbyte third
      simp only [base64urlUnits, unbase64urlBytes, indexOf_symbol, below_six _ (hsextet _), octet_eq,
        below_eight, ih, List.cons.injEq, and_true]
      refine ⟨?_, ?_, ?_⟩
      · apply hofNat
        omega
      · apply hofNat
        omega
      · apply hofNat
        omega

theorem base64urlUnits_mem (bytes : List UInt8) :
  ∀ u ∈ base64urlUnits bytes, u ∈ base64Alphabet
  := by
  induction bytes using base64urlUnits.induct with
  | case1 =>
      intro u hu
      cases hu
  | case2 first =>
      intro u hu
      simp only [base64urlUnits, List.mem_cons, List.not_mem_nil, or_false] at hu
      obtain rfl | rfl := hu <;> apply symbol_mem
  | case3 first second =>
      intro u hu
      simp only [base64urlUnits, List.mem_cons, List.not_mem_nil, or_false] at hu
      obtain rfl | rfl | rfl := hu <;> apply symbol_mem
  | case4 first second third rest ih =>
      intro u hu
      simp only [base64urlUnits, List.mem_cons] at hu
      obtain rfl | rfl | rfl | rfl | hu := hu
      · apply symbol_mem
      · apply symbol_mem
      · apply symbol_mem
      · apply symbol_mem
      · exact ih u hu

/-- The number of units that encode bytes. -/
theorem length_base64urlUnits (bytes : List UInt8) :
  (base64urlUnits bytes).length = (4 * bytes.length + 2) / 3
  := by
  induction bytes using base64urlUnits.induct with
  | case1 => rfl
  | case2 | case3 => simp [base64urlUnits]
  | case4 first second third rest ih =>
      simp only [base64urlUnits, List.length_cons, ih]
      omega

/-- Encoded bytes are decoded. -/
theorem unbase64url_base64url (bytes : List UInt8) :
  unbase64url (base64url bytes) = .ok bytes
  := by
  have hlength : (base64url bytes).units.length % 4 ≠ 1 := by
    rw [base64url, length_base64urlUnits]
    omega
  have hall : (base64url bytes).units.all base64Alphabet.contains = true := by
    rw [List.all_eq_true]
    intro u hu
    exact List.contains_iff_mem.mpr (base64urlUnits_mem bytes u hu)
  have hdecode : unbase64urlBytes (base64url bytes).units = bytes :=
    unbase64urlBytes_base64urlUnits bytes
  rw [unbase64url, if_neg, hdecode, if_neg (not_not_intro rfl)]
  rintro (hcontains | hone)
  · rw [hall] at hcontains
    cases hcontains
  · exact hlength hone

/-- What is decoded is an encoding. -/
theorem eq_of_unbase64url {value : JsString} {bytes : List UInt8}
    (h : unbase64url value = .ok bytes) :
  value = base64url bytes
  := by
  unfold unbase64url at h
  by_cases htext : value.units.all base64Alphabet.contains = false ∨ value.units.length % 4 = 1
  · rw [if_pos htext] at h
    cases h
  · rw [if_neg htext] at h
    by_cases hencode : base64url (unbase64urlBytes value.units) = value
    · rw [if_neg (not_not_intro hencode), Except.ok.injEq] at h
      rw [← h, hencode]
    · rw [if_pos hencode] at h
      cases h

end Registry.Mdns
