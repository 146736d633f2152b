import GoLike.Lib.BitGroups
import GoLike.Registry.Mdns.Codec

/-!
# Lower-case Base32 without padding

The bytes are shifted one after the other into a buffer of 32 bits, from which five bits at a
time are taken. The bits that were taken stay in the buffer until they are shifted out of it;
no more than twelve of its bits are still to be taken at any time, so that none of these is
lost.
-/

open BitGroups

namespace Registry.Mdns

/-! ### The standard encoding -/

/-- The symbol of a group of five bits. -/
def symbolOfBits (group : List Bool) : UInt16 := base32Alphabet.getD (value group) 97

/-- The unpadded encoding of bytes: their bits in groups of five, the most significant bits
first, each as one symbol. -/
def rfc4648Base32 (bytes : List UInt8) : JsString := ⟨(fives (ofBytes bytes)).map symbolOfBits⟩

/-- Groups of five bits that have the same symbols are the same. -/
theorem symbolOfBits_injective {group other : List Bool} (hgroup : group.length = 5)
    (hother : other.length = 5) (h : symbolOfBits group = symbolOfBits other) :
  group = other
  := by
  have hall : ∀ i j : Fin 32, base32Alphabet.getD i.val 97 = base32Alphabet.getD j.val 97 → i = j := by
    decide
  have hlt := value_lt group
  have hlt' := value_lt other
  rw [hgroup] at hlt
  rw [hother] at hlt'
  apply eq_of_value (hgroup.trans hother.symm)
  have hsame := hall ⟨value group, hlt⟩ ⟨value other, hlt'⟩ h
  rw [Fin.mk.injEq] at hsame
  exact hsame

/-- Lists that a function maps to one list are the same when it is injective on their members. -/
theorem eq_of_map_eq {α β : Type*} {f : α → β} {xs ys : List α} (h : xs.map f = ys.map f)
    (hf : ∀ x ∈ xs, ∀ y ∈ ys, f x = f y → x = y) :
  xs = ys
  := by
  induction xs generalizing ys with
  | nil => exact (List.map_eq_nil_iff.mp h.symm).symm
  | cons x xs ih =>
      cases ys with
      | nil => cases h
      | cons y ys =>
          rw [List.map_cons, List.map_cons, List.cons.injEq] at h
          rw [hf x List.mem_cons_self y List.mem_cons_self h.1, ih h.2]
          intro u hu v hv
          exact hf u (List.mem_cons_of_mem x hu) v (List.mem_cons_of_mem y hv)

/-- The encoding determines the bytes. -/
theorem rfc4648Base32_injective :
  Function.Injective rfc4648Base32
  := by
  intro bytes more h
  rw [rfc4648Base32, rfc4648Base32, JsString.mk.injEq] at h
  apply fives_ofBytes_injective
  apply eq_of_map_eq h
  intro group hgroup other hother
  apply symbolOfBits_injective
  · exact length_of_mem_fives _ group hgroup
  · exact length_of_mem_fives _ other hother

/-! ### The buffer -/

theorem base32Symbol_eq (bits : ℕ) :
  base32Symbol bits = base32Alphabet.getD (bits % 32) 97
  := by
  have hmask : bits &&& 31 = bits % 32 := Nat.and_two_pow_sub_one_eq_mod bits 5
  rw [base32Symbol, hmask]

/-- The bits that a buffer ends in are taken in groups of five. -/
theorem base32Groups_eq {buffer : ℕ} {bits : List Bool}
    (h : buffer % 2 ^ bits.length = value bits) :
  ∃ whole left, bits = whole ++ left ∧ whole.length % 5 = 0 ∧ left.length < 5 ∧
    base32Groups buffer bits.length = ((fives whole).map symbolOfBits, left.length) ∧
    buffer % 2 ^ left.length = value left
  := by
  induction bits using fives.induct with
  | case1 a b c d e rest ih =>
      have hsplit : [a, b, c, d, e] ++ rest = a :: b :: c :: d :: e :: rest := rfl
      have hlength : (a :: b :: c :: d :: e :: rest).length = rest.length + 5 := rfl
      have hpow : 2 ^ (rest.length + 5) = 2 ^ rest.length * 32 := by rw [Nat.pow_add]
      rw [hlength] at h
      have hrest : buffer % 2 ^ rest.length = value rest := by
        have hmod := congrArg (· % 2 ^ rest.length) h
        simp only [← hsplit, value_append_mod] at hmod
        rw [← hmod, hpow, Nat.mod_mul_right_mod]
      have hgroup : buffer / 2 ^ rest.length % 32 = value [a, b, c, d, e] := by
        have hdiv := congrArg (· / 2 ^ rest.length) h
        simp only [← hsplit, value_append_div] at hdiv
        rw [← hdiv, hpow, Nat.mod_mul_right_div_self]
      obtain ⟨whole, left, hbits, hwhole, hleft, htake, hvalue⟩ := ih hrest
      use a :: b :: c :: d :: e :: whole, left
      refine ⟨by rw [hbits]; rfl, ?_, hleft, ?_, hvalue⟩
      · simp only [List.length_cons]
        omega
      · rw [hlength, base32Groups, if_pos (Nat.le_add_left 5 _), Nat.add_sub_cancel, htake,
          base32Symbol_eq, Nat.shiftRight_eq_div_pow, hgroup, fives, List.map_cons]
        rfl
  | case2 =>
      refine ⟨[], [], rfl, rfl, by decide, ?_, h⟩
      rw [base32Groups]
      rfl
  | case3 bits hmore hne =>
      have hlt := length_lt_five hmore
      refine ⟨[], bits, rfl, rfl, hlt, ?_, h⟩
      rw [base32Groups, if_neg (by omega)]
      rfl

/-- Whole groups at the beginning are groups by themselves. -/
theorem fives_append {whole : List Bool} (h : whole.length % 5 = 0) (bits : List Bool) :
  fives (whole ++ bits) = fives whole ++ fives bits
  := by
  induction whole using fives.induct with
  | case1 a b c d e rest ih =>
      have hrest : rest.length % 5 = 0 := by
        simp only [List.length_cons] at h
        omega
      simp only [List.cons_append, fives, ih hrest]
  | case2 => rfl
  | case3 whole hmore hne =>
      have hlt := length_lt_five hmore
      have hpos := List.length_pos_iff.mpr hne
      omega

/-- A byte that is shifted in extends the bits that are still to be taken, although the buffer
has 32 bits only. -/
theorem shift_mod {buffer : ℕ} {left : List Bool} (byte : UInt8) (hleft : left.length < 5)
    (h : buffer % 2 ^ left.length = value left) :
  (buffer <<< 8 ||| byte.toNat) % 2 ^ 32 % 2 ^ (left ++ bitsOf byte.toNat 8).length =
    value (left ++ bitsOf byte.toNat 8)
  := by
  have hbyte : byte.toNat < 2 ^ 8 := byte.toNat_lt
  have hpow : 2 ^ (left.length + 8) = 2 ^ 8 * 2 ^ left.length := by
    rw [Nat.pow_add, Nat.mul_comm]
  have hdvd : 2 ^ (left.length + 8) ∣ 2 ^ 32 := Nat.pow_dvd_pow 2 (by omega)
  rw [List.length_append, length_bitsOf, value_append, length_bitsOf, value_bitsOf,
    Nat.mod_eq_of_lt hbyte, ← h, Nat.mod_mod_of_dvd _ hdvd, Store.Base64.shiftLeft_or hbyte, hpow,
    Nat.mod_mul, Nat.mul_add_mod_self_right, Nat.mod_eq_of_lt hbyte, Nat.add_comm (_ * 2 ^ 8),
    Nat.add_mul_div_right _ _ (by decide), Nat.div_eq_of_lt hbyte, Nat.zero_add]
  ring

/-- The symbol of the bits that are left, filled up with zeros. -/
theorem last_symbol {buffer : ℕ} {left : List Bool} (hleft : left.length < 5)
    (h : buffer % 2 ^ left.length = value left) (hne : left ≠ []) :
  base32Symbol (buffer <<< ((5 - left.length) % 5)) = symbolOfBits (fill 5 left)
  := by
  have hpos : 0 < left.length := List.length_pos_iff.mpr hne
  have hshift : (5 - left.length) % 5 = 5 - left.length := by omega
  have hzeros : ∀ n, value (List.replicate n false) = 0 := by
    intro n
    induction n with
    | zero => rfl
    | succ n ih => simp [List.replicate_succ, value, ih]
  have hpow : 2 ^ left.length * 2 ^ (5 - left.length) = 2 ^ 5 := by
    rw [← Nat.pow_add, Nat.add_sub_cancel' (by omega)]
  have hvalue : buffer <<< (5 - left.length) % 2 ^ 5 = value (fill 5 left) := by
    rw [Nat.shiftLeft_eq, fill, value_append, hzeros, Nat.add_zero, List.length_replicate, ← h,
      ← Nat.mul_mod_mul_right, hpow]
  rw [base32Symbol_eq, hshift, symbolOfBits, ← hvalue]
  rfl

/-- Bytes after bits that are left in the buffer are encoded by the symbols of the groups of
both, and the symbol beyond them is cut off. -/
theorem base32Units_eq {bytes : List UInt8} {buffer : ℕ} {left : List Bool}
    (hleft : left.length < 5) (h : buffer % 2 ^ left.length = value left) :
  (base32Units buffer left.length bytes).take ((left.length + 8 * bytes.length + 4) / 5) =
    (fives (left ++ ofBytes bytes)).map symbolOfBits
  := by
  induction bytes generalizing buffer left with
  | nil =>
      have hnil : left ++ ofBytes [] = left := List.append_nil left
      rw [hnil, base32Units, List.length_nil]
      by_cases hne : left = []
      · rw [hne]
        rfl
      · have hpos : 0 < left.length := List.length_pos_iff.mpr hne
        have hcount : (left.length + 8 * 0 + 4) / 5 = 1 := by omega
        have hshort : ∀ a b c d e rest, left = a :: b :: c :: d :: e :: rest → False := by
          intro a b c d e rest heq
          rw [heq] at hleft
          simp only [List.length_cons] at hleft
          omega
        rw [hcount, last_symbol hleft h hne, fives_short hne hshort]
        rfl
  | cons byte bytes ih =>
      obtain ⟨whole, left', hbits, hwhole, hleft', hgroups, hvalue⟩ :=
        base32Groups_eq (shift_mod byte hleft h)
      have hlength := congrArg List.length hbits
      rw [List.length_append, List.length_append, length_bitsOf] at hlength
      rw [List.length_append, length_bitsOf] at hgroups
      have hsymbols : ((fives whole).map symbolOfBits).length = whole.length / 5 := by
        rw [List.length_map, length_fives]
        omega
      have hcount : (left.length + 8 * (byte :: bytes).length + 4) / 5 =
          ((fives whole).map symbolOfBits).length + (left'.length + 8 * bytes.length + 4) / 5 := by
        rw [hsymbols, List.length_cons]
        omega
      rw [base32Units, hgroups, hcount, List.take_length_add_append, ih hleft' hvalue,
        ofBytes_cons, ← List.append_assoc, hbits, List.append_assoc, fives_append hwhole,
        List.map_append]

/-- Bytes of any length are encoded by the symbols of their groups of five bits. -/
theorem base32_eq (bytes : List UInt8) :
  base32 bytes = rfc4648Base32 bytes
  := by
  have hunits := @base32Units_eq bytes 0 [] (by decide) rfl
  have hcount : (bytes.length * 8 + 4) / 5 =
      (([] : List Bool).length + 8 * bytes.length + 4) / 5 := by
    rw [List.length_nil, Nat.zero_add, Nat.mul_comm]
  rw [base32, rfc4648Base32, JsString.mk.injEq, hcount]
  exact hunits

/-! ### Both text codecs -/

/-- The URL-safe encoding is decoded to the bytes and nothing else is decoded; Base32 is the
standard encoding, for bytes of any length, and different for different bytes. -/
theorem textCodecs_exact :
  (∀ bytes, unbase64url (base64url bytes) = .ok bytes) ∧
    (∀ text, (∃ bytes, unbase64url text = .ok bytes) ↔ ∃ bytes, text = base64url bytes) ∧
    (∀ bytes, base32 bytes = rfc4648Base32 bytes) ∧
    Function.Injective base32
  := by
  constructor
  · exact unbase64url_base64url
  · constructor
    · intro text
      constructor
      · rintro ⟨bytes, h⟩
        use bytes
        apply eq_of_unbase64url h
      · rintro ⟨bytes, rfl⟩
        use bytes
        apply unbase64url_base64url
    · constructor
      · exact base32_eq
      · intro bytes more h
        rw [base32_eq, base32_eq] at h
        apply rfc4648Base32_injective h

end Registry.Mdns
