import Mathlib.Data.List.TakeDrop
import Mathlib.Data.Nat.Bitwise
import Mathlib.Tactic.Ring

/-!
# Bytes as bits

The bits of bytes, the most significant bit of each first, cut into groups of one width,
the last of which is filled up with zeros. The groups and the number of bytes determine the
bytes.
-/

namespace BitGroups

/-- The number that bits stand for, the most significant bit first. -/
def value : List Bool → ℕ
  | [] => 0
  | b :: bits => b.toNat * 2 ^ bits.length + value bits

/-- The bits of a number below `2 ^ width`, the most significant bit first. -/
def bitsOf (n : ℕ) : ℕ → List Bool
  | 0 => []
  | width + 1 => n.testBit width :: bitsOf n width

/-- The bits of bytes. -/
def ofBytes (bytes : List UInt8) : List Bool := bytes.flatMap (fun b => bitsOf b.toNat 8)

/-- Bits, filled up with zeros to a width. -/
def fill (width : ℕ) (bits : List Bool) : List Bool :=
  bits ++ List.replicate (width - bits.length) false

/-- The groups of five bits, the last of which is filled up with zeros. -/
def fives : List Bool → List (List Bool)
  | a :: b :: c :: d :: e :: rest => [a, b, c, d, e] :: fives rest
  | [] => []
  | bits => [fill 5 bits]

/-! ### The value of bits -/

@[simp] theorem length_bitsOf (n width : ℕ) :
  (bitsOf n width).length = width
  := by
  induction width with
  | zero => rfl
  | succ width ih => rw [bitsOf, List.length_cons, ih]

theorem value_append (bits more : List Bool) :
  value (bits ++ more) = value bits * 2 ^ more.length + value more
  := by
  induction bits with
  | nil => simp [value]
  | cons b bits ih =>
      rw [List.cons_append, value, value, ih, List.length_append, Nat.pow_add]
      ring

theorem value_lt (bits : List Bool) :
  value bits < 2 ^ bits.length
  := by
  induction bits with
  | nil => simp [value]
  | cons b bits ih =>
      have hb : b.toNat ≤ 1 := b.toNat_le
      have hmul : b.toNat * 2 ^ bits.length ≤ 1 * 2 ^ bits.length := Nat.mul_le_mul_right _ hb
      rw [value, List.length_cons, Nat.pow_succ]
      omega

theorem value_bitsOf (n width : ℕ) :
  value (bitsOf n width) = n % 2 ^ width
  := by
  induction width with
  | zero => simp [bitsOf, value, Nat.mod_one]
  | succ width ih =>
      rw [bitsOf, value, length_bitsOf, ih, Nat.toNat_testBit, Nat.pow_succ, Nat.mod_mul]
      ring

/-- The last bits of bits are the rest of their value by a power of two. -/
theorem value_append_mod (bits more : List Bool) :
  value (bits ++ more) % 2 ^ more.length = value more
  := by
  rw [value_append, Nat.mul_add_mod_self_right, Nat.mod_eq_of_lt (value_lt more)]

/-- The first bits of bits are the quotient of their value by a power of two. -/
theorem value_append_div (bits more : List Bool) :
  value (bits ++ more) / 2 ^ more.length = value bits
  := by
  have hlt := value_lt more
  rw [value_append, Nat.add_comm, Nat.add_mul_div_right _ _ (Nat.two_pow_pos _),
    Nat.div_eq_of_lt hlt, Nat.zero_add]

/-- The value and the number of bits determine them. -/
theorem eq_of_value {bits more : List Bool} (hlength : bits.length = more.length)
    (hvalue : value bits = value more) :
  bits = more
  := by
  induction bits generalizing more with
  | nil => exact (List.eq_nil_of_length_eq_zero hlength.symm).symm
  | cons b bits ih =>
      cases more with
      | nil => cases hlength
      | cons c more =>
          have htail : bits.length = more.length := Nat.succ.inj hlength
          have hbits := value_append_mod [b] bits
          have hmore := value_append_mod [c] more
          have hhead := value_append_div [b] bits
          have hhead' := value_append_div [c] more
          simp only [List.singleton_append] at hbits hmore hhead hhead'
          rw [hvalue, htail, hmore] at hbits
          rw [hvalue, htail, hhead'] at hhead
          have hb : b = c := by
            cases b <;> cases c <;> simp [value] at hhead ⊢
          rw [hb, ih htail hbits.symm]

/-! ### Bytes -/

@[simp] theorem length_ofBytes (bytes : List UInt8) :
  (ofBytes bytes).length = 8 * bytes.length
  := by
  induction bytes with
  | nil => rfl
  | cons b bytes ih =>
      rw [ofBytes, List.flatMap_cons, List.length_append, length_bitsOf]
      rw [ofBytes] at ih
      rw [ih, List.length_cons]
      ring

theorem ofBytes_cons (b : UInt8) (bytes : List UInt8) :
  ofBytes (b :: bytes) = bitsOf b.toNat 8 ++ ofBytes bytes
  := List.flatMap_cons

/-- The bits determine the bytes. -/
theorem ofBytes_injective :
  Function.Injective ofBytes
  := by
  intro bytes
  induction bytes with
  | nil =>
      intro more h
      have hlength := congrArg List.length h
      rw [length_ofBytes, length_ofBytes] at hlength
      apply (List.eq_nil_of_length_eq_zero _).symm
      simpa using hlength.symm
  | cons b bytes ih =>
      intro more h
      cases more with
      | nil =>
          have hlength := congrArg List.length h
          rw [length_ofBytes, length_ofBytes] at hlength
          simp at hlength
      | cons c more =>
          rw [ofBytes_cons, ofBytes_cons] at h
          obtain ⟨hfirst, hrest⟩ := List.append_inj h (by rw [length_bitsOf, length_bitsOf])
          have hvalue := congrArg value hfirst
          rw [value_bitsOf, value_bitsOf, Nat.mod_eq_of_lt b.toNat_lt,
            Nat.mod_eq_of_lt c.toNat_lt] at hvalue
          rw [UInt8.toNat_inj.mp hvalue, ih hrest]

/-! ### Groups -/

theorem length_fill {width : ℕ} {bits : List Bool} (h : bits.length ≤ width) :
  (fill width bits).length = width
  := by
  rw [fill, List.length_append, List.length_replicate]
  omega

/-- Bits that do not begin with a whole group are less than five. -/
theorem length_lt_five {bits : List Bool}
    (h : ∀ a b c d e rest, bits = a :: b :: c :: d :: e :: rest → False) :
  bits.length < 5
  := by
  by_contra hlong
  obtain ⟨a, bits, rfl⟩ := List.exists_cons_of_length_pos (by omega : 0 < bits.length)
  simp only [List.length_cons] at hlong
  obtain ⟨b, bits, rfl⟩ := List.exists_cons_of_length_pos (by omega : 0 < bits.length)
  simp only [List.length_cons] at hlong
  obtain ⟨c, bits, rfl⟩ := List.exists_cons_of_length_pos (by omega : 0 < bits.length)
  simp only [List.length_cons] at hlong
  obtain ⟨d, bits, rfl⟩ := List.exists_cons_of_length_pos (by omega : 0 < bits.length)
  simp only [List.length_cons] at hlong
  obtain ⟨e, bits, rfl⟩ := List.exists_cons_of_length_pos (by omega : 0 < bits.length)
  exact h a b c d e bits rfl

/-- Less than five bits are one group. -/
theorem fives_short {bits : List Bool} (hne : bits = [] → False)
    (hshort : ∀ a b c d e rest, bits = a :: b :: c :: d :: e :: rest → False) :
  fives bits = [fill 5 bits]
  := by
  rw [fives]
  · exact hshort
  · exact hne

theorem length_of_mem_fives (bits : List Bool) :
  ∀ group ∈ fives bits, group.length = 5
  := by
  induction bits using fives.induct with
  | case1 a b c d e rest ih =>
      intro group hgroup
      obtain rfl | hgroup := List.mem_cons.mp hgroup
      · rfl
      · exact ih group hgroup
  | case2 =>
      intro group hgroup
      cases hgroup
  | case3 bits hmore hne =>
      intro group hgroup
      rw [fives_short hne hmore, List.mem_singleton] at hgroup
      rw [hgroup, length_fill (Nat.le_of_lt (length_lt_five hmore))]

/-- The groups are the bits, followed by zeros. -/
theorem flatten_fives (bits : List Bool) :
  ∃ zeros, (fives bits).flatten = bits ++ zeros
  := by
  induction bits using fives.induct with
  | case1 a b c d e rest ih =>
      obtain ⟨zeros, h⟩ := ih
      use zeros
      rw [fives, List.flatten_cons, h]
      rfl
  | case2 => exact ⟨[], rfl⟩
  | case3 bits hmore hne =>
      use List.replicate (5 - bits.length) false
      rw [fives_short hne hmore]
      simp [fill]

theorem length_fives (bits : List Bool) :
  (fives bits).length = (bits.length + 4) / 5
  := by
  induction bits using fives.induct with
  | case1 a b c d e rest ih =>
      rw [fives, List.length_cons, ih]
      simp only [List.length_cons]
      omega
  | case2 => rfl
  | case3 bits hmore hne =>
      have hlt := length_lt_five hmore
      have hpos := List.length_pos_iff.mpr hne
      rw [fives_short hne hmore, List.length_singleton]
      omega

/-- The groups determine the bytes: two different numbers of bytes take different numbers of
groups, and the zeros at the end are cut off. -/
theorem fives_ofBytes_injective {bytes more : List UInt8}
    (h : fives (ofBytes bytes) = fives (ofBytes more)) :
  bytes = more
  := by
  have hlength := congrArg List.length h
  rw [length_fives, length_fives, length_ofBytes, length_ofBytes] at hlength
  have hsame : (ofBytes bytes).length = (ofBytes more).length := by
    rw [length_ofBytes, length_ofBytes]
    omega
  obtain ⟨zeros, hbytes⟩ := flatten_fives (ofBytes bytes)
  obtain ⟨zeros', hmore⟩ := flatten_fives (ofBytes more)
  rw [h, hmore] at hbytes
  exact ofBytes_injective (List.append_inj hbytes.symm hsame).1

end BitGroups
