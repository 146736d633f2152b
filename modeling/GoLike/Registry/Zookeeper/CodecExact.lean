import GoLike.Lib.JsSplit
import GoLike.Registry.Zookeeper.Codec
import Mathlib.Data.Bool.AllAny

/-!
# The codecs are exact

A path segment is decoded exactly when it is the URL-safe form of the Base64 of bytes that are
UTF-8. A byte order mark at the beginning of these bytes is dropped, and in no other case is
anything lost. Records are read back under the path that belongs to their instance, and under no
other.
-/

open Store JsString

namespace Registry.Zookeeper

variable {urls : UrlParser}

/-! ### Base64 -/

theorem combineBytes_eq (a b c : UInt8) :
  combineBytes a b c = a.toNat * 65536 + b.toNat * 256 + c.toNat
  := by
  have hb : b.toNat < 2 ^ 8 := b.toNat_lt
  have hc : c.toNat < 2 ^ 8 := c.toNat_lt
  have hsplit : a.toNat <<< 16 ||| b.toNat <<< 8 = (a.toNat <<< 8 ||| b.toNat) <<< 8 := by
    rw [Nat.shiftLeft_or_distrib, ← Nat.shiftLeft_add]
  rw [combineBytes, hsplit, Base64.shiftLeft_or hc, Base64.shiftLeft_or hb]
  ring

/-- The symbols of three bytes. -/
theorem base64Symbol_combineBytes (a b c : UInt8) :
  base64Symbol (combineBytes a b c) 18 = Base64.base64Symbol (a.toNat / 4) ∧
    base64Symbol (combineBytes a b c) 12 =
      Base64.base64Symbol (a.toNat % 4 * 16 + b.toNat / 16) ∧
    base64Symbol (combineBytes a b c) 6 =
      Base64.base64Symbol (b.toNat % 16 * 4 + c.toNat / 64) ∧
    base64Symbol (combineBytes a b c) 0 = Base64.base64Symbol (c.toNat % 64)
  := by
  have hsymbol : ∀ combined shift, base64Symbol combined shift =
      Base64.base64Symbol (combined / 2 ^ shift % 64) := by
    intro combined shift
    have hmask : (combined >>> shift) &&& 63 = (combined >>> shift) % 64 :=
      Nat.and_two_pow_sub_one_eq_mod (combined >>> shift) 6
    rw [base64Symbol, hmask, Nat.shiftRight_eq_div_pow]
    rfl
  have ha : a.toNat < 256 := a.toNat_lt
  have hb : b.toNat < 256 := b.toNat_lt
  have hc : c.toNat < 256 := c.toNat_lt
  simp only [hsymbol, combineBytes_eq]
  refine ⟨congrArg _ ?_, congrArg _ ?_, congrArg _ ?_, congrArg _ ?_⟩
  · omega
  · omega
  · omega
  · omega

/-- The encoding is the canonical one. -/
theorem base64_eq (bytes : List UInt8) :
  base64 bytes = Base64.encodeUnits bytes
  := by
  induction bytes using base64.induct with
  | case1 => rfl
  | case2 first =>
      have ha : first.toNat < 256 := first.toNat_lt
      obtain ⟨h18, h12, -, -⟩ := base64Symbol_combineBytes first 0 0
      rw [base64, Base64.encodeUnits, h18, h12, Base64.sextet_first ha,
        Base64.sextet_second first.toNat (b := 0) (by decide)]
      rfl
  | case3 first second =>
      have ha : first.toNat < 256 := first.toNat_lt
      have hb : second.toNat < 256 := second.toNat_lt
      obtain ⟨h18, h12, h6, -⟩ := base64Symbol_combineBytes first second 0
      rw [base64, Base64.encodeUnits, h18, h12, h6, Base64.sextet_first ha,
        Base64.sextet_second first.toNat hb,
        Base64.sextet_third second.toNat (c := 0) (by decide)]
      rfl
  | case4 first second third rest ih =>
      have ha : first.toNat < 256 := first.toNat_lt
      have hb : second.toNat < 256 := second.toNat_lt
      have hc : third.toNat < 256 := third.toNat_lt
      obtain ⟨h18, h12, h6, h0⟩ := base64Symbol_combineBytes first second third
      rw [base64, Base64.encodeUnits, h18, h12, h6, h0, Base64.sextet_first ha,
        Base64.sextet_second first.toNat hb, Base64.sextet_third second.toNat hc,
        Base64.sextet_fourth, ih]

/-- The units of three bytes stand for these bytes. -/
theorem unbase64Bytes_quad (a b c : UInt8) {u v w x : UInt16} (rest : List UInt16)
    (hu : base64Alphabet.idxOf u = a.toNat / 4)
    (hv : base64Alphabet.idxOf v = a.toNat % 4 * 16 + b.toNat / 16)
    (hw : indexOrZero w = b.toNat % 16 * 4 + c.toNat / 64) (hx : indexOrZero x = c.toNat % 64) :
  unbase64Bytes (u :: v :: w :: x :: rest) = a :: b :: c :: unbase64Bytes rest
  := by
  have ha : a.toNat < 256 := a.toNat_lt
  have hb : b.toNat < 256 := b.toNat_lt
  have hc : c.toNat < 256 := c.toNat_lt
  have hmask : ∀ n, n &&& 255 = n % 256 := fun n => Nat.and_two_pow_sub_one_eq_mod n 8
  have hcombined : base64Alphabet.idxOf u <<< 18 ||| base64Alphabet.idxOf v <<< 12 |||
      indexOrZero w <<< 6 ||| indexOrZero x = a.toNat * 65536 + b.toNat * 256 + c.toNat := by
    have hv' : a.toNat % 4 * 16 + b.toNat / 16 < 2 ^ 6 := by omega
    have hw' : b.toNat % 16 * 4 + c.toNat / 64 < 2 ^ 6 := by omega
    have hx' : c.toNat % 64 < 2 ^ 6 := by omega
    have hsplit : ∀ p q r s : ℕ, p <<< 18 ||| q <<< 12 ||| r <<< 6 ||| s =
        ((p <<< 6 ||| q) <<< 6 ||| r) <<< 6 ||| s := by
      intro p q r s
      simp only [Nat.shiftLeft_or_distrib, ← Nat.shiftLeft_add]
    rw [hu, hv, hw, hx, hsplit, Base64.shiftLeft_or hx', Base64.shiftLeft_or hw',
      Base64.shiftLeft_or hv']
    omega
  have hbyte : ∀ (n : ℕ) (byte : UInt8), n % 256 = byte.toNat → UInt8.ofNat (n % 256) = byte := by
    intro n byte h
    rw [h, UInt8.ofNat_toNat]
  rw [unbase64Bytes, hcombined, hmask, hmask, hmask, Nat.shiftRight_eq_div_pow,
    Nat.shiftRight_eq_div_pow, hbyte _ a (by omega), hbyte _ b (by omega), hbyte _ c (by omega)]

/-- An encoding stands for the bytes, followed by zeros for the padding. -/
theorem unbase64Bytes_base64 (bytes : List UInt8) :
  unbase64Bytes (base64 bytes) = bytes ++ List.replicate (Base64.missing bytes) 0
  := by
  have hindex : ∀ i < 64, base64Alphabet.idxOf (Base64.base64Symbol i) = i ∧
      indexOrZero (Base64.base64Symbol i) = i := by decide
  induction bytes using base64.induct with
  | case1 => rfl
  | case2 first =>
      have ha : first.toNat < 256 := first.toNat_lt
      obtain ⟨h18, h12, -, -⟩ := base64Symbol_combineBytes first 0 0
      have hzero : (0 : UInt8).toNat = 0 := rfl
      rw [base64, h18, h12]
      apply unbase64Bytes_quad first 0 0 []
      · exact (hindex _ (by omega)).1
      · exact (hindex _ (by omega)).1
      · rfl
      · rfl
  | case3 first second =>
      have ha : first.toNat < 256 := first.toNat_lt
      have hb : second.toNat < 256 := second.toNat_lt
      have hzero : (0 : UInt8).toNat = 0 := rfl
      obtain ⟨h18, h12, h6, -⟩ := base64Symbol_combineBytes first second 0
      rw [base64, h18, h12, h6]
      apply unbase64Bytes_quad first second 0 []
      · exact (hindex _ (by omega)).1
      · exact (hindex _ (by omega)).1
      · exact (hindex _ (by omega)).2
      · rfl
  | case4 first second third rest ih =>
      have ha : first.toNat < 256 := first.toNat_lt
      have hb : second.toNat < 256 := second.toNat_lt
      have hc : third.toNat < 256 := third.toNat_lt
      have hmissing : Base64.missing (first :: second :: third :: rest) = Base64.missing rest := by
        simp only [Base64.missing, List.length_cons]
        omega
      obtain ⟨h18, h12, h6, h0⟩ := base64Symbol_combineBytes first second third
      rw [base64, h18, h12, h6, h0, unbase64Bytes_quad first second third, ih, hmissing]
      · rfl
      · exact (hindex _ (by omega)).1
      · exact (hindex _ (by omega)).1
      · exact (hindex _ (by omega)).2
      · exact (hindex _ (by omega)).2

/-- An encoding is decoded to its bytes. -/
theorem unbase64_base64 (bytes : List UInt8) :
  unbase64 (base64 bytes) = .ok bytes
  := by
  obtain ⟨symbols, hunits, hsymbols, hlength⟩ := Base64.encodeUnits_eq bytes
  rw [← base64_eq] at hunits
  have hmissing : Base64.missing bytes ≤ 2 := by
    rw [Base64.missing]
    omega
  have hpadding : paddingLength (base64 bytes) = Base64.missing bytes := by
    rw [hunits]
    exact Base64.paddingOf_append hsymbols hmissing
  have hcount : (base64 bytes).length / 4 * 3 - Base64.missing bytes = bytes.length := by
    rw [hunits, List.length_append, List.length_replicate, hlength, Base64.missing]
    omega
  rw [unbase64, hpadding, hcount, unbase64Bytes_base64, List.take_left, if_neg (not_not_intro rfl)]

/-- What is decoded is an encoding. -/
theorem eq_of_unbase64 {value : List UInt16} {bytes : List UInt8} (h : unbase64 value = .ok bytes) :
  value = base64 bytes
  := by
  rw [unbase64] at h
  split at h
  · cases h
  · rename_i hcanonical
    rw [not_not] at hcanonical
    rw [Except.ok.injEq] at h
    rw [← h, hcanonical]

/-! ### Path segments -/

/-- The units of the segment of some bytes, behind the letter. -/
def segmentUnits (bytes : List UInt8) : List UInt16 :=
  ((base64 bytes).map urlUnit).rdropWhile (· = padding)

theorem encodePathSegment_eq (value : JsString) :
  encodePathSegment value = ofString "u-" ++ ⟨segmentUnits value.encodeUtf8⟩
  := rfl

theorem plainUnit_urlUnit {u : UInt16} (h : u ∈ base64Alphabet) :
  plainUnit (urlUnit u) = u ∧ urlUnit u ≠ padding ∧ isSegmentUnit (urlUnit u) = true
  := by
  have hall : ∀ u ∈ base64Alphabet, plainUnit (urlUnit u) = u ∧ urlUnit u ≠ padding :=
    List.all_iff_forall_prop.mp (by decide)
  obtain ⟨hplain, hpadding⟩ := hall u h
  refine ⟨hplain, hpadding, ?_⟩
  rw [isSegmentUnit, List.contains_iff_mem]
  exact List.mem_map_of_mem h

theorem urlUnit_plainUnit {u : UInt16} (h : isSegmentUnit u = true) :
  urlUnit (plainUnit u) = u ∧ plainUnit u ∈ base64Alphabet
  := by
  rw [isSegmentUnit, List.contains_iff_mem, List.mem_map] at h
  obtain ⟨v, hv, rfl⟩ := h
  rw [(plainUnit_urlUnit hv).1]
  exact ⟨rfl, hv⟩

theorem map_plainUnit_urlUnit {symbols : List UInt16} (h : ∀ u ∈ symbols, u ∈ base64Alphabet) :
  (symbols.map urlUnit).map plainUnit = symbols
  := by
  rw [List.map_map]
  exact (List.map_congr_left (fun u hu => (plainUnit_urlUnit (h u hu)).1)).trans (List.map_id _)

/-- The padding at the end of symbols is cut off. -/
theorem rdropWhile_symbols {symbols : List UInt16} (h : ∀ u ∈ symbols, u ∈ base64Alphabet) (n : ℕ) :
  ((symbols ++ List.replicate n padding).map urlUnit).rdropWhile (· = padding) =
    symbols.map urlUnit
  := by
  have hurl : urlUnit padding = padding := rfl
  induction n with
  | zero =>
      rw [List.replicate_zero, List.append_nil, List.rdropWhile_eq_self_iff]
      intro hne hlast
      have hmem := List.getLast_mem hne
      obtain ⟨u, hu, heq⟩ := List.mem_map.mp hmem
      apply (plainUnit_urlUnit (h u hu)).2.1
      rw [heq]
      exact of_decide_eq_true hlast
  | succ n ih =>
      rw [List.replicate_succ', ← List.append_assoc, List.map_append, List.map_singleton, hurl,
        List.rdropWhile_concat, if_pos (decide_eq_true rfl), ih]

/-- The segment of bytes is that of symbols, which are fewer by the padding. -/
theorem segmentUnits_eq (bytes : List UInt8) :
  ∃ symbols : List UInt16, segmentUnits bytes = symbols.map urlUnit ∧
    (∀ u ∈ symbols, u ∈ base64Alphabet) ∧
    base64 bytes = symbols ++ List.replicate ((4 - symbols.length % 4) % 4) padding ∧
    symbols.length % 4 ≠ 1
  := by
  obtain ⟨symbols, hunits, hsymbols, hlength⟩ := Base64.encodeUnits_eq bytes
  rw [← base64_eq] at hunits
  have hmissing : Base64.missing bytes ≤ 2 := by
    rw [Base64.missing]
    omega
  have hcount : (4 - symbols.length % 4) % 4 = Base64.missing bytes := by omega
  refine ⟨symbols, ?_, hsymbols, ?_, ?_⟩
  · rw [segmentUnits, hunits]
    exact rdropWhile_symbols hsymbols _
  · rw [hcount, hunits]
    rfl
  · omega

/-- A string is decoded exactly when it is the segment of bytes that are UTF-8. -/
theorem decodePathSegment_eq_ok {s v : JsString} :
  decodePathSegment s = .ok v ↔
    ∃ bytes, s = ofString "u-" ++ ⟨segmentUnits bytes⟩ ∧ decodeUtf8 bytes = some v
  := by
  have hletter : (ofString "u-").units = [117, 45] := by decide
  constructor
  · intro h
    rw [decodePathSegment] at h
    split_ifs at h with hsegment
    rw [not_or, not_not, not_not] at hsegment
    obtain ⟨hstart, hall⟩ := hsegment
    dsimp only at h
    split_ifs at h
    rw [bind_eq_ok] at h
    obtain ⟨bytes, hbytes, h⟩ := h
    obtain ⟨rest, hrest⟩ := List.isPrefixOf_iff_prefix.mp hstart
    have hdrop : s.units.drop 2 = rest := by
      rw [← hrest, hletter]
      rfl
    rw [hdrop] at hbytes hall
    have hunits : ∀ u ∈ rest, urlUnit (plainUnit u) = u ∧ plainUnit u ∈ base64Alphabet := by
      intro u hu
      exact urlUnit_plainUnit (List.all_eq_true.mp hall u hu)
    have hsymbols : ∀ u ∈ rest.map plainUnit, u ∈ base64Alphabet := by
      intro u hu
      obtain ⟨v, hv, rfl⟩ := List.mem_map.mp hu
      exact (hunits v hv).2
    have hurl : (rest.map plainUnit).map urlUnit = rest := by
      rw [List.map_map]
      exact (List.map_congr_left (fun u hu => (hunits u hu).1)).trans (List.map_id _)
    use bytes
    constructor
    · rw [segmentUnits, ← eq_of_unbase64 hbytes, rdropWhile_symbols hsymbols, hurl]
      obtain ⟨units⟩ := s
      exact congrArg JsString.mk hrest.symm
    · cases hdecode : decodeUtf8 bytes with
      | none =>
          rw [hdecode] at h
          cases h
      | some decoded =>
          rw [hdecode] at h
          rw [Except.ok.inj h]
  · rintro ⟨bytes, rfl, hdecode⟩
    obtain ⟨symbols, hsegment, hsymbols, hpadded, hlength⟩ := segmentUnits_eq bytes
    have hunits : (ofString "u-" ++ ⟨segmentUnits bytes⟩ : JsString).units =
        [117, 45] ++ symbols.map urlUnit := by
      rw [← hletter, hsegment]
      rfl
    have hstart : (ofString "u-" ++ ⟨segmentUnits bytes⟩ : JsString).startsWith (ofString "u-") =
        true := by
      rw [startsWith, hunits, hletter]
      exact List.isPrefixOf_iff_prefix.mpr (List.prefix_append _ _)
    have hdrop : ([117, 45] ++ symbols.map urlUnit).drop 2 = symbols.map urlUnit := rfl
    have hall : (symbols.map urlUnit).all isSegmentUnit = true := by
      rw [List.all_eq_true]
      intro u hu
      obtain ⟨v, hv, rfl⟩ := List.mem_map.mp hu
      exact (plainUnit_urlUnit (hsymbols v hv)).2.2
    simp only [decodePathSegment, hunits, hdrop, map_plainUnit_urlUnit hsymbols]
    rw [if_neg (by simp [hstart, hall]), if_neg hlength, ← hpadded, unbase64_base64]
    simp only [bind, Except.bind, hdecode]

/-- The symbols of the byte order mark. -/
theorem base64_mark (rest : List UInt8) :
  base64 (0xEF :: 0xBB :: 0xBF :: rest) = [55, 55, 117, 47] ++ base64 rest
  := by
  have h18 : base64Symbol (combineBytes 0xEF 0xBB 0xBF) 18 = 55 := by decide
  have h12 : base64Symbol (combineBytes 0xEF 0xBB 0xBF) 12 = 55 := by decide
  have h6 : base64Symbol (combineBytes 0xEF 0xBB 0xBF) 6 = 117 := by decide
  have h0 : base64Symbol (combineBytes 0xEF 0xBB 0xBF) 0 = 47 := by decide
  rw [base64, h18, h12, h6, h0]
  rfl

theorem markBytes_eq :
  String.utf8EncodeChar byteOrderMark = [0xEF, 0xBB, 0xBF]
  := by decide

/-- Bytes begin with a byte order mark exactly when their segment begins with its symbols. -/
theorem marked_iff_symbols (bytes : List UInt8) :
  Marked bytes ↔ [55, 55, 117, 95] <+: segmentUnits bytes
  := by
  rw [Marked, markBytes_eq]
  constructor
  · rintro ⟨rest, rfl⟩
    obtain ⟨symbols, -, hsymbols, hpadded, -⟩ := segmentUnits_eq rest
    have hmark : ∀ u ∈ [55, 55, 117, 47] ++ symbols, u ∈ base64Alphabet := by
      intro u hu
      obtain hu | hu := List.mem_append.mp hu
      · have hall : ∀ u ∈ [55, 55, 117, 47], u ∈ base64Alphabet :=
          List.all_iff_forall_prop.mp (by decide)
        exact hall u hu
      · exact hsymbols u hu
    have hunits : segmentUnits ([0xEF, 0xBB, 0xBF] ++ rest) =
        ([55, 55, 117, 47] ++ symbols).map urlUnit := by
      change ((base64 (0xEF :: 0xBB :: 0xBF :: rest)).map urlUnit).rdropWhile (· = padding) = _
      rw [base64_mark, hpadded, ← List.append_assoc]
      exact rdropWhile_symbols hmark _
    rw [hunits, List.map_append]
    exact List.prefix_append _ _
  · rintro ⟨more, hmore⟩
    obtain ⟨symbols, hsegment, hsymbols, hpadded, -⟩ := segmentUnits_eq bytes
    have hplain : symbols = [55, 55, 117, 47] ++ more.map plainUnit := by
      have hmap := congrArg (List.map plainUnit) (hmore.trans hsegment)
      rw [List.map_append, map_plainUnit_urlUnit hsymbols] at hmap
      rw [← hmap]
      rfl
    -- The four symbols stand for three bytes, the last of which is none of the zeros.
    have hbytes := unbase64Bytes_base64 bytes
    rw [hpadded, hplain, List.append_assoc] at hbytes
    have hmark : ∀ rest, unbase64Bytes ([55, 55, 117, 47] ++ rest) =
        0xEF :: 0xBB :: 0xBF :: unbase64Bytes rest := by
      intro rest
      apply unbase64Bytes_quad
      · decide
      · decide
      · decide
      · decide
    rw [hmark] at hbytes
    cases bytes with
    | nil => simp [Base64.missing] at hbytes
    | cons a bytes =>
        cases bytes with
        | nil => simp [Base64.missing] at hbytes
        | cons b bytes =>
            cases bytes with
            | nil => simp [Base64.missing] at hbytes
            | cons c bytes =>
                simp only [List.cons_append, List.cons.injEq] at hbytes
                obtain ⟨rfl, rfl, rfl, -⟩ := hbytes
                exact ⟨bytes, rfl⟩

/-- A segment begins with a byte order mark. -/
def markedSegment (s : JsString) : Bool := s.startsWith (ofString "u-77u_")

theorem markedSegment_iff (bytes : List UInt8) :
  markedSegment (ofString "u-" ++ ⟨segmentUnits bytes⟩) = true ↔ Marked bytes
  := by
  have hletters : (ofString "u-77u_").units = (ofString "u-").units ++ [55, 55, 117, 95] := by decide
  rw [marked_iff_symbols, markedSegment, startsWith, List.isPrefixOf_iff_prefix, hletters]
  exact List.prefix_append_right_inj _

/-- The bytes of a segment are determined by it. -/
theorem segmentUnits_injective :
  Function.Injective segmentUnits
  := by
  intro bytes more h
  obtain ⟨symbols, hsegment, hsymbols, hpadded, -⟩ := segmentUnits_eq bytes
  obtain ⟨symbols', hsegment', hsymbols', hpadded', -⟩ := segmentUnits_eq more
  have hsame : symbols = symbols' := by
    rw [← map_plainUnit_urlUnit hsymbols, ← hsegment, h, hsegment', map_plainUnit_urlUnit hsymbols']
  have hdecode := unbase64_base64 bytes
  rw [hpadded, hsame, ← hpadded', unbase64_base64, Except.ok.injEq] at hdecode
  exact hdecode.symm

/-- Well-formed strings are encoded by different bytes. -/
theorem encodeUtf8_injective {s t : JsString} (hs : s.isWellFormed = true)
    (ht : t.isWellFormed = true) (h : s.encodeUtf8 = t.encodeUtf8) :
  s = t
  := by
  have hchars := utf8Encode_chars s.chars
  have hsame : s.chars.flatMap String.utf8EncodeChar = t.chars.flatMap String.utf8EncodeChar := h
  rw [hsame, utf8Encode_chars, Option.some.injEq] at hchars
  rw [← ofChars_chars hs, ← ofChars_chars ht, List.toArray_inj hchars]

/-- Different well-formed strings have different segments. -/
theorem encodePathSegment_injective {v w : JsString} (hv : v.isWellFormed = true)
    (hw : w.isWellFormed = true) (h : encodePathSegment v = encodePathSegment w) :
  v = w
  := by
  rw [encodePathSegment_eq, encodePathSegment_eq] at h
  have hunits := List.append_cancel_left (congrArg JsString.units h)
  exact encodeUtf8_injective hv hw (segmentUnits_injective hunits)

/-- A well-formed string begins with a byte order mark exactly when its first unit is one. -/
theorem marked_encodeUtf8 {v : JsString} (h : v.isWellFormed = true) :
  Marked v.encodeUtf8 ↔ v.units.head? = some 0xFEFF
  := by
  rw [encodeUtf8, marked_iff]
  have hunits : v.units = v.chars.flatMap (fun c => unitsOfPoint c.toNat) :=
    (congrArg JsString.units (ofChars_chars h)).symm
  rw [hunits]
  cases v.chars with
  | nil => simp
  | cons c cs =>
      obtain ⟨u, hu, htoNat, -⟩ | ⟨high, low, hu, hhigh, -, -⟩ := unitsOfPoint_cases c.valid
      · have hu : unitsOfPoint c.toNat = [u] := hu
        have htoNat : u.toNat = c.toNat := htoNat
        rw [List.flatMap_cons, hu, List.head?_cons, List.singleton_append, List.head?_cons,
          Option.some.injEq, Option.some.injEq]
        constructor
        · rintro rfl
          exact UInt16.toNat_inj.mp htoNat
        · rintro rfl
          rw [← Char.ofNat_toNat c, ← htoNat]
          rfl
      · have hu : unitsOfPoint c.toNat = [high, low] := hu
        rw [List.flatMap_cons, hu, List.head?_cons, List.cons_append, List.head?_cons,
          Option.some.injEq, Option.some.injEq]
        constructor
        · rintro rfl
          cases hu
        · rintro rfl
          exact absurd hhigh (by decide)

/-- A well-formed string is read back from its segment unless it begins with a byte order
mark. -/
theorem decode_encodePathSegment_iff {v : JsString} (h : v.isWellFormed = true) :
  decodePathSegment (encodePathSegment v) = .ok v ↔ v.units.head? ≠ some 0xFEFF
  := by
  rw [decodePathSegment_eq_ok, ne_eq, ← marked_encodeUtf8 h]
  constructor
  · rintro ⟨bytes, hsegment, hdecode⟩
    rw [encodePathSegment_eq] at hsegment
    have hunits := List.append_cancel_left (congrArg JsString.units hsegment)
    rw [← segmentUnits_injective hunits] at hdecode
    exact (eq_encodeUtf8_iff hdecode).mp rfl
  · intro hmark
    refine ⟨v.encodeUtf8, encodePathSegment_eq v, ?_⟩
    apply decodeUtf8_encodeUtf8 h
    intro hhead
    exact hmark (marked_iff.mpr hhead)

/-- A segment that is decoded is the one of the result unless it begins with a byte order
mark. -/
theorem encode_decodePathSegment_iff {s v : JsString} (h : decodePathSegment s = .ok v) :
  encodePathSegment v = s ↔ markedSegment s = false
  := by
  obtain ⟨bytes, rfl, hdecode⟩ := decodePathSegment_eq_ok.mp h
  have hmarked := eq_encodeUtf8_iff hdecode
  rw [← markedSegment_iff, Bool.not_eq_true] at hmarked
  rw [encodePathSegment_eq, ← hmarked]
  constructor
  · intro heq
    have hunits := List.append_cancel_left (congrArg JsString.units heq)
    exact (segmentUnits_injective hunits).symm
  · intro heq
    rw [heq]

/-! ### Paths -/

/-- The solidus, which separates the segments of a path. -/
def solidus : UInt16 := 47

/-- No segment contains a solidus. -/
theorem solidus_notMem (bytes : List UInt8) :
  solidus ∉ (ofString "u-" ++ ⟨segmentUnits bytes⟩ : JsString).units
  := by
  have hletters : solidus ∉ (ofString "u-").units := by decide
  have hall : ∀ u ∈ base64Alphabet, urlUnit u ≠ solidus :=
    List.all_iff_forall_prop.mp (by decide)
  obtain ⟨symbols, hsegment, hsymbols, -, -⟩ := segmentUnits_eq bytes
  intro hmem
  obtain hmem | hmem := List.mem_append.mp hmem
  · exact hletters hmem
  · rw [hsegment] at hmem
    obtain ⟨u, hu, heq⟩ := List.mem_map.mp hmem
    exact hall u (hsymbols u hu) heq

/-- Two texts without a solidus are those between solidi in one way. -/
theorem append_solidus_inj {us vs us' vs' : List UInt16} (hu : solidus ∉ us) (hu' : solidus ∉ us')
    (h : us ++ solidus :: vs = us' ++ solidus :: vs') :
  us = us' ∧ vs = vs'
  := by
  induction us generalizing us' with
  | nil =>
      cases us' with
      | nil =>
          rw [List.nil_append, List.nil_append, List.cons.injEq] at h
          exact ⟨rfl, h.2⟩
      | cons u' us' =>
          rw [List.nil_append, List.cons_append, List.cons.injEq] at h
          rw [h.1] at hu'
          exact absurd List.mem_cons_self hu'
  | cons u us ih =>
      cases us' with
      | nil =>
          rw [List.nil_append, List.cons_append, List.cons.injEq] at h
          rw [← h.1] at hu
          exact absurd List.mem_cons_self hu
      | cons u' us' =>
          rw [List.cons_append, List.cons_append, List.cons.injEq] at h
          have htail := ih (fun hmem => hu (List.mem_cons_of_mem _ hmem))
            (fun hmem => hu' (List.mem_cons_of_mem _ hmem)) h.2
          rw [h.1, htail.1]
          exact ⟨rfl, htail.2⟩

/-- The path of an instance determines its name and its identifier. -/
theorem instancePath_injective {root serviceName id serviceName' id' : JsString}
    (hname : serviceName.isWellFormed = true) (hid : id.isWellFormed = true)
    (hname' : serviceName'.isWellFormed = true) (hid' : id'.isWellFormed = true)
    (h : instancePath root serviceName id = instancePath root serviceName' id') :
  serviceName = serviceName' ∧ id = id'
  := by
  have hunits : ∀ serviceName id, (instancePath root serviceName id).units =
      (servicesPath root ++ ofString "/").units ++
        ((encodePathSegment serviceName).units ++ solidus :: (encodePathSegment id).units) := by
    intro serviceName id
    have hsolidus : (ofString "/").units = [solidus] := by decide
    simp only [instancePath, servicePath, units_append, hsolidus, List.append_assoc,
      List.nil_append, List.cons_append]
  have hsame := congrArg JsString.units h
  rw [hunits, hunits] at hsame
  obtain ⟨hfirst, hsecond⟩ := append_solidus_inj (solidus_notMem _) (solidus_notMem _)
    (List.append_cancel_left hsame)
  constructor
  · exact encodePathSegment_injective hname hname' (congrArg JsString.mk hfirst)
  · exact encodePathSegment_injective hid hid' (congrArg JsString.mk hsecond)

/-! ### Records -/

/-- The data of an instance are read back. -/
theorem recordInstance_recordData (reader : InstanceReader urls wireMarker)
    {x : ServiceInstance urls} (h : (recordData x).length ≤ maximumPayloadBytes) :
  recordDocument reader (recordData x) = .ok (markedDocument wireMarker x) ∧
    recordInstance (markedDocument wireMarker x) = .ok x
  := by
  obtain ⟨input, hinput, hsnapshot⟩ := snapshot_instanceObject x
  constructor
  · rw [recordDocument, if_neg (Nat.not_lt.mpr h)]
    simp only [recordData, decodeUtf8_markedText, reader.parse_markedText]
  · rw [markedDocument, recordInstance, if_neg (not_not_intro rfl), hinput, Option.map_some,
      hsnapshot]

/-- An encoded record is decoded under its path. -/
theorem decodeRecord_encodeRecord (reader : InstanceReader urls wireMarker) {root : JsString}
    {value : ServiceInstanceInput} {record : EncodedRecord urls}
    (h : encodeRecord urls root value = .ok record) :
  snapshotServiceInstance urls value = .ok record.serviceInstance ∧
    decodeRecord reader root record.path record.data =
      .ok ⟨record.path, record.identity, record.serviceInstance⟩
  := by
  simp only [encodeRecord, bind_eq_ok] at h
  obtain ⟨x, hx, h⟩ := h
  split at h
  · cases h
  · rename_i hbytes
    rw [Except.ok.injEq] at h
    subst h
    obtain ⟨hdocument, hinstance⟩ :=
      recordInstance_recordData reader (Nat.not_lt.mp hbytes)
    refine ⟨hx, ?_⟩
    simp only [decodeRecord, hdocument, hinstance, bind, Except.bind]
    rw [if_neg (not_not_intro rfl)]

/-- A record is decoded under the path of its instance only. -/
theorem path_of_decodeRecord {reader : InstanceReader urls wireMarker} {root path : JsString}
    {bytes : List UInt8} {record : DecodedRecord urls}
    (h : decodeRecord reader root path bytes = .ok record) :
  record.path = path ∧
    path = instancePath root record.serviceInstance.name.val record.serviceInstance.id.val
  := by
  simp only [decodeRecord, bind_eq_ok] at h
  obtain ⟨document, -, x, -, h⟩ := h
  split at h
  · cases h
  · rename_i hpath
    rw [not_not] at hpath
    rw [Except.ok.injEq] at h
    subst h
    exact ⟨rfl, hpath⟩

/-- The path under which an instance is encoded. -/
theorem path_of_encodeRecord {root : JsString} {x : ServiceInstance urls}
    {record : EncodedRecord urls} (h : encodeRecord urls root x.toInput = .ok record) :
  record.path = instancePath root x.name.val x.id.val
  := by
  simp only [encodeRecord, snapshotServiceInstance_toInput, bind, Except.bind] at h
  split at h
  · cases h
  · rw [Except.ok.injEq] at h
    rw [← h]

/-- Segments are exact unless they begin with a byte order mark; different names and identifiers
have different paths, whose segments contain no solidus; and records are decoded to what was
encoded, under its path and no other. -/
theorem codecs_exact (reader : InstanceReader urls wireMarker) (root : JsString) :
  (∀ v : JsString, v.isWellFormed = true →
    (decodePathSegment (encodePathSegment v) = .ok v ↔ v.units.head? ≠ some 0xFEFF)) ∧
  (∀ s v, decodePathSegment s = .ok v → (encodePathSegment v = s ↔ markedSegment s = false)) ∧
  (∀ serviceName id serviceName' id' : JsString, serviceName.isWellFormed = true →
    id.isWellFormed = true → serviceName'.isWellFormed = true → id'.isWellFormed = true →
    instancePath root serviceName id = instancePath root serviceName' id' →
    serviceName = serviceName' ∧ id = id') ∧
  (∀ v, solidus ∉ (encodePathSegment v).units) ∧
  (∀ value record, encodeRecord urls root value = .ok record →
    snapshotServiceInstance urls value = .ok record.serviceInstance ∧
    decodeRecord reader root record.path record.data =
      .ok ⟨record.path, record.identity, record.serviceInstance⟩) ∧
  (∀ path bytes record, decodeRecord reader root path bytes = .ok record →
    path = instancePath root record.serviceInstance.name.val record.serviceInstance.id.val ∧
    ∀ encoded, encodeRecord urls root record.serviceInstance.toInput = .ok encoded →
      encoded.path = path)
  := by
  refine ⟨?_, ?_, ?_, ?_, ?_, ?_⟩
  · intro v hv
    apply decode_encodePathSegment_iff hv
  · intro s v h
    apply encode_decodePathSegment_iff h
  · intro serviceName id serviceName' id' hname hid hname' hid' h
    apply instancePath_injective hname hid hname' hid' h
  · intro v
    apply solidus_notMem
  · intro value record h
    apply decodeRecord_encodeRecord reader h
  · intro path bytes record h
    obtain ⟨-, hpath⟩ := path_of_decodeRecord h
    refine ⟨hpath, ?_⟩
    intro encoded hencoded
    rw [hpath]
    apply path_of_encodeRecord hencoded

/-- The string of one byte order mark is not read back from its segment, and the segment is not
that of what is read from it. -/
theorem codecs_dropMark :
  (⟨[0xFEFF]⟩ : JsString).isWellFormed = true ∧
    decodePathSegment (encodePathSegment ⟨[0xFEFF]⟩) ≠ .ok ⟨[0xFEFF]⟩ ∧
    decodePathSegment (ofString "u-77u_") = .ok .empty ∧
    encodePathSegment .empty ≠ ofString "u-77u_"
  := by
  have hwellFormed : (⟨[0xFEFF]⟩ : JsString).isWellFormed = true := by decide
  refine ⟨hwellFormed, ?_, ?_, by decide⟩
  · rw [ne_eq, decode_encodePathSegment_iff hwellFormed]
    exact not_not_intro rfl
  · rw [decodePathSegment_eq_ok]
    refine ⟨[0xEF, 0xBB, 0xBF], by decide, ?_⟩
    have hbytes : [0xEF, 0xBB, 0xBF] = [byteOrderMark].flatMap String.utf8EncodeChar := by decide
    rw [hbytes, decodeUtf8, utf8Encode_chars]
    rfl

end Registry.Zookeeper
