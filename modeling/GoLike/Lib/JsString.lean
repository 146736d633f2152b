import Mathlib.Data.Nat.Digits.Lemmas

/-!
# Strings of UTF-16 code units

A string is a sequence of UTF-16 code units. A unit in `0xD800..0xDBFF` is a high
surrogate and one in `0xDC00..0xDFFF` a low one; a high surrogate followed by a low one
is read as a single code point above `0xFFFF`, and every other unit as itself. A string
is well formed when no surrogate stands alone. The code points determine the string, so
comparing the sequences of code points lexicographically compares the strings.
-/

/-- A string, as the list of its UTF-16 code units. -/
structure JsString where
  /-- The code units, in order. -/
  units : List UInt16
  deriving DecidableEq, Repr

namespace JsString

/-- The unit `u` is a high surrogate. -/
def isHigh (u : UInt16) : Bool :=
  0xD800 ≤ u.toNat && u.toNat < 0xDC00

/-- The unit `u` is a low surrogate. -/
def isLow (u : UInt16) : Bool :=
  0xDC00 ≤ u.toNat && u.toNat < 0xE000

/-- The code point of a high surrogate followed by a low one. -/
def combine (h l : UInt16) : ℕ :=
  0x10000 + (h.toNat - 0xD800) * 0x400 + (l.toNat - 0xDC00)

/-- The code points of a list of units, read from left to right. -/
def pointsOf : List UInt16 → List ℕ
  | [] => []
  | [u] => [u.toNat]
  | u :: v :: rest =>
      if isHigh u && isLow v then combine u v :: pointsOf rest
      else u.toNat :: pointsOf (v :: rest)

/-- The code points of a string. -/
def codePoints (s : JsString) : List ℕ := pointsOf s.units

/-- No surrogate of the list stands alone. -/
def wellFormedUnits : List UInt16 → Bool
  | [] => true
  | [u] => !isHigh u && !isLow u
  | u :: v :: rest =>
      if isHigh u && isLow v then wellFormedUnits rest
      else !isHigh u && !isLow u && wellFormedUnits (v :: rest)

/-- The string contains no lone surrogate. -/
def isWellFormed (s : JsString) : Bool := wellFormedUnits s.units

/-- The string without code units. -/
def empty : JsString := ⟨[]⟩

/-- The string has no code unit. -/
def isEmpty (s : JsString) : Bool := s.units.isEmpty

/-- The first string is an initial segment of the second. -/
def startsWith (s p : JsString) : Bool := p.units.isPrefixOf s.units

/-- One string after the other. -/
def append (s t : JsString) : JsString := ⟨s.units ++ t.units⟩

instance : Append JsString := ⟨append⟩

/-- The string of the decimal digits of a number, most significant first. -/
def ofNat (n : ℕ) : JsString :=
  if n = 0 then ⟨[48]⟩
  else ⟨((Nat.digits 10 n).map (fun d => UInt16.ofNat (48 + d))).reverse⟩

/-! ### The code points determine the string -/

/-- The units of one code point. -/
def unitsOfPoint (p : ℕ) : List UInt16 :=
  if p ≤ 0xFFFF then [UInt16.ofNat p]
  else [UInt16.ofNat (0xD800 + (p - 0x10000) / 0x400),
    UInt16.ofNat (0xDC00 + (p - 0x10000) % 0x400)]

theorem unitsOfPoint_toNat (u : UInt16) :
  unitsOfPoint u.toNat = [u]
  := by
  have hu : u.toNat < 65536 := u.toNat_lt
  rw [unitsOfPoint, if_pos (by omega), UInt16.ofNat_toNat]

theorem unitsOfPoint_combine {h l : UInt16} (hh : isHigh h = true) (hl : isLow l = true) :
  unitsOfPoint (combine h l) = [h, l]
  := by
  simp only [isHigh, isLow, Bool.and_eq_true, decide_eq_true_eq] at hh hl
  have hhigh : 0xD800 + (combine h l - 0x10000) / 0x400 = h.toNat := by
    unfold combine
    omega
  have hlow : 0xDC00 + (combine h l - 0x10000) % 0x400 = l.toNat := by
    unfold combine
    omega
  have hbig : ¬ combine h l ≤ 0xFFFF := by
    unfold combine
    omega
  rw [unitsOfPoint, if_neg hbig, hhigh, hlow, UInt16.ofNat_toNat, UInt16.ofNat_toNat]

theorem flatMap_pointsOf (us : List UInt16) :
  (pointsOf us).flatMap unitsOfPoint = us
  := by
  induction us using pointsOf.induct with
  | case1 => rfl
  | case2 u => simp [pointsOf, unitsOfPoint_toNat]
  | case3 u v rest h ih =>
      simp only [Bool.and_eq_true] at h
      rw [pointsOf, if_pos (by simp [h]), List.flatMap_cons, ih, unitsOfPoint_combine h.1 h.2]
      rfl
  | case4 u v rest h ih =>
      rw [pointsOf, if_neg h, List.flatMap_cons, ih, unitsOfPoint_toNat]
      rfl

/-- The string of a text. -/
def ofString (text : String) : JsString :=
  ⟨text.toList.flatMap (fun c => unitsOfPoint c.toNat)⟩

/-- The number of bytes of a code point in UTF-8. -/
def pointBytes (p : ℕ) : ℕ :=
  if p < 0x80 then 1 else if p < 0x800 then 2 else if p < 0x10000 then 3 else 4

/-- The number of bytes of a string in UTF-8. -/
def utf8Length (s : JsString) : ℕ := (s.codePoints.map pointBytes).sum

/-- Two strings with the same code points are the same string. -/
theorem codePoints_injective :
  Function.Injective codePoints
  := by
  intro s t h
  obtain ⟨us⟩ := s
  obtain ⟨vs⟩ := t
  have h' : (pointsOf us).flatMap unitsOfPoint = (pointsOf vs).flatMap unitsOfPoint :=
    congrArg (·.flatMap unitsOfPoint) h
  rw [flatMap_pointsOf, flatMap_pointsOf] at h'
  rw [h']

/-- The strings, ordered lexicographically by their code points. -/
instance : LinearOrder JsString := LinearOrder.lift' codePoints codePoints_injective

theorem lt_iff {s t : JsString} :
  s < t ↔ s.codePoints < t.codePoints
  := Iff.rfl

/-! ### Decimal numbers -/

theorem digitUnit_injective {d e : ℕ} (hd : d < 10) (he : e < 10)
    (h : UInt16.ofNat (48 + d) = UInt16.ofNat (48 + e)) :
  d = e
  := by
  have h' := congrArg UInt16.toNat h
  simp only [UInt16.toNat_ofNat'] at h'
  omega

theorem map_digitUnit_injective {ds es : List ℕ} (hd : ∀ d ∈ ds, d < 10)
    (he : ∀ e ∈ es, e < 10)
    (h : ds.map (fun d => UInt16.ofNat (48 + d)) = es.map (fun d => UInt16.ofNat (48 + d))) :
  ds = es
  := by
  induction ds generalizing es with
  | nil =>
      cases es with
      | nil => rfl
      | cons e es => simp at h
  | cons d ds ih =>
      cases es with
      | nil => simp at h
      | cons e es =>
          simp only [List.map_cons, List.cons.injEq] at h
          congr 1
          · apply digitUnit_injective (hd d (by simp)) (he e (by simp)) h.1
          · apply ih (fun x hx => hd x (by simp [hx])) (fun x hx => he x (by simp [hx])) h.2

theorem wellFormedUnits_of_small {us : List UInt16} (h : ∀ u ∈ us, u.toNat < 0xD800) :
  wellFormedUnits us = true
  := by
  induction us using wellFormedUnits.induct with
  | case1 => rfl
  | case2 u =>
      have hu := h u (by simp)
      simp [wellFormedUnits, isHigh, isLow]
      omega
  | case3 u v rest huv ih =>
      have hu := h u (by simp)
      simp [isHigh] at huv
      omega
  | case4 u v rest huv ih =>
      have hu := h u (by simp)
      rw [wellFormedUnits, if_neg huv, ih (fun x hx => h x (by simp [hx]))]
      simp [isHigh, isLow]
      omega

theorem ofNat_units_small (n : ℕ) :
  ∀ u ∈ (ofNat n).units, u.toNat < 0xD800
  := by
  intro u hu
  rw [ofNat] at hu
  split at hu
  · simp only [List.mem_singleton] at hu
    rw [hu]
    decide
  · simp only [List.mem_reverse, List.mem_map] at hu
    obtain ⟨d, hd, rfl⟩ := hu
    have hd' : d < 10 := Nat.digits_lt_base (by decide) hd
    rw [UInt16.toNat_ofNat']
    omega

/-- The decimal string of a number contains no lone surrogate. -/
theorem isWellFormed_ofNat (n : ℕ) :
  (ofNat n).isWellFormed = true
  := wellFormedUnits_of_small (ofNat_units_small n)

/-- The decimal string of a number is not empty. -/
theorem isEmpty_ofNat (n : ℕ) :
  (ofNat n).isEmpty = false
  := by
  rw [ofNat]
  split
  · rfl
  · rename_i hn
    simp [isEmpty, Nat.digits_ne_nil_iff_ne_zero.mpr hn]

/-- Different numbers have different decimal strings. -/
theorem ofNat_injective :
  Function.Injective ofNat
  := by
  have key : ∀ m n : ℕ, m ≠ 0 → n ≠ 0 → ofNat m = ofNat n → m = n := by
    intro m n hm hn h
    simp only [ofNat, hm, hn, if_false, JsString.mk.injEq] at h
    have h' := map_digitUnit_injective
      (fun d hd => Nat.digits_lt_base (by decide) hd)
      (fun d hd => Nat.digits_lt_base (by decide) hd) (List.reverse_injective h)
    apply Nat.digits_inj_iff.mp h'
  have zero : ∀ n : ℕ, n ≠ 0 → ofNat n ≠ ofNat 0 := by
    intro n hn h
    simp only [ofNat, hn, if_false, if_true, JsString.mk.injEq] at h
    have h' : (Nat.digits 10 n).map (fun d => UInt16.ofNat (48 + d)) =
        [0].map (fun d => UInt16.ofNat (48 + d)) := by
      apply List.reverse_injective
      rw [h]
      rfl
    have h'' := map_digitUnit_injective (fun d hd => Nat.digits_lt_base (by decide) hd)
      (by simp) h'
    have hlast := Nat.getLast_digit_ne_zero 10 hn
    simp [h''] at hlast
  intro m n h
  by_cases hm : m = 0
  · by_cases hn : n = 0
    · rw [hm, hn]
    · rw [hm] at h
      exact absurd h.symm (zero n hn)
  · by_cases hn : n = 0
    · rw [hn] at h
      exact absurd h (zero m hm)
    · exact key m n hm hn h

/-- The unit is a decimal digit. -/
def isDigit (u : UInt16) : Bool := 48 ≤ u.toNat && u.toNat < 58

/-- The string is zero, or decimal digits of which the first is not zero. -/
def isDecimal (s : JsString) : Bool :=
  match s.units with
  | [] => false
  | u :: rest => (isDigit u && rest.all isDigit) && (u.toNat ≠ 48 || rest.isEmpty)

/-- The number whose digits are the units of the string. -/
def decimalValue (s : JsString) : ℕ :=
  s.units.foldl (fun value u => value * 10 + (u.toNat - 48)) 0

theorem digitUnit_toNat {d : ℕ} (h : d < 10) :
  (UInt16.ofNat (48 + d)).toNat = 48 + d
  := by
  rw [UInt16.toNat_ofNat']
  omega

theorem decimalValue_digits {ds : List ℕ} (h : ∀ d ∈ ds, d < 10) :
  ((ds.map (fun d => UInt16.ofNat (48 + d))).reverse).foldl
    (fun value u => value * 10 + (u.toNat - 48)) 0 = Nat.ofDigits 10 ds
  := by
  rw [List.foldl_reverse]
  induction ds with
  | nil => rfl
  | cons d ds ih =>
      rw [List.map_cons, List.foldr_cons, ih (fun x hx => h x (List.mem_cons_of_mem _ hx)),
        digitUnit_toNat (h d List.mem_cons_self), Nat.ofDigits_cons]
      omega

/-- The decimal string of a number stands for the number. -/
@[simp]
theorem decimalValue_ofNat (n : ℕ) :
  (ofNat n).decimalValue = n
  := by
  rw [decimalValue, ofNat]
  split
  · rename_i hn
    rw [hn]
    rfl
  · rw [decimalValue_digits (fun d hd => Nat.digits_lt_base (by decide) hd),
      Nat.ofDigits_digits]

@[simp]
theorem isDecimal_ofNat (n : ℕ) :
  (ofNat n).isDecimal = true
  := by
  rw [isDecimal, ofNat]
  by_cases hn : n = 0
  · rw [if_pos hn]
    rfl
  · rw [if_neg hn]
    have hne : Nat.digits 10 n ≠ [] := Nat.digits_ne_nil_iff_ne_zero.mpr hn
    have hlast := Nat.getLast_digit_ne_zero 10 hn
    have hdigits : ∀ d ∈ Nat.digits 10 n, d < 10 :=
      fun d hd => Nat.digits_lt_base (by decide) hd
    have hisDigit : ∀ d ∈ Nat.digits 10 n, isDigit (UInt16.ofNat (48 + d)) = true := by
      intro d hd
      rw [isDigit, digitUnit_toNat (hdigits d hd)]
      have := hdigits d hd
      simp only [Bool.and_eq_true, decide_eq_true_eq]
      omega
    rw [← List.dropLast_append_getLast hne] at hisDigit ⊢
    have hlt := hdigits _ (List.getLast_mem hne)
    simp only [List.mem_append, List.mem_singleton] at hisDigit
    simp only [List.map_append, List.map_cons, List.map_nil, List.reverse_append,
      List.reverse_singleton, List.singleton_append, Bool.and_eq_true, List.all_eq_true,
      List.mem_reverse, List.mem_map, Bool.or_eq_true, decide_eq_true_eq]
    refine ⟨⟨hisDigit _ (.inr rfl), ?_⟩, .inl ?_⟩
    · rintro u ⟨d, hd, rfl⟩
      exact hisDigit d (.inl hd)
    · rw [digitUnit_toNat hlt]
      omega

/-- A decimal string is that of the number it stands for. -/
theorem ofNat_decimalValue {s : JsString} (h : s.isDecimal = true) :
  ofNat s.decimalValue = s
  := by
  obtain ⟨units⟩ := s
  cases units with
  | nil => cases h
  | cons u rest =>
      simp only [isDecimal, Bool.and_eq_true, Bool.or_eq_true, decide_eq_true_eq,
        List.isEmpty_iff] at h
      obtain ⟨⟨hu, hrest⟩, hfirst⟩ := h
      have hdigit : ∀ v ∈ u :: rest, 48 ≤ v.toNat ∧ v.toNat < 58 := by
        intro v hv
        have hisDigit : isDigit v = true := by
          obtain rfl | hv := List.mem_cons.1 hv
          · exact hu
          · exact List.all_eq_true.1 hrest v hv
        simpa [isDigit] using hisDigit
      let ds : List ℕ := ((u :: rest).map (fun v => v.toNat - 48)).reverse
      have hds : ∀ d ∈ ds, d < 10 := by
        intro d hd
        obtain ⟨v, hv, rfl⟩ := List.mem_map.1 (List.mem_reverse.1 hd)
        have := hdigit v hv
        omega
      have hunits : (ds.map (fun d => UInt16.ofNat (48 + d))).reverse = u :: rest := by
        rw [List.map_reverse, List.reverse_reverse, List.map_map]
        conv_rhs => rw [← List.map_id (u :: rest)]
        apply List.map_congr_left
        intro v hv
        have := hdigit v hv
        have hv' : 48 + (v.toNat - 48) = v.toNat := by omega
        rw [Function.comp_apply, hv', UInt16.ofNat_toNat, id]
      have hvalue : decimalValue ⟨u :: rest⟩ = Nat.ofDigits 10 ds := by
        rw [decimalValue, ← decimalValue_digits hds, hunits]
      by_cases hzero : u.toNat = 48
      · obtain hne | rfl := hfirst
        · exact absurd hzero hne
        · have heq : u = 48 := UInt16.toNat_inj.1 hzero
          subst heq
          rfl
      · have hlast : ∀ hne : ds ≠ [], ds.getLast hne ≠ 0 := by
          intro hne
          have := hdigit u List.mem_cons_self
          simp only [ds, List.map_cons, List.reverse_cons, List.getLast_append_singleton]
          omega
        have hdigits : Nat.digits 10 (Nat.ofDigits 10 ds) = ds :=
          Nat.digits_ofDigits 10 (by decide) ds hds hlast
        have hne : ds ≠ [] := by simp [ds]
        have hvalue_ne : Nat.ofDigits 10 ds ≠ 0 := by
          intro h
          rw [h, Nat.digits_zero] at hdigits
          exact hne hdigits.symm
        rw [hvalue, ofNat, if_neg hvalue_ne, hdigits, hunits]

end JsString
