import GoLike.Registry.Mdns.Ipv6Literal

/-!
# The text of IPv6 addresses is exact

A literal is eight groups of hexadecimal digits, of which a run may be left out and the last two may
be written as an IPv4 address. The parser reads these, and besides texts in which a group is one of
the two placeholders that it puts for an IPv4 address itself. What is printed is a literal, and it is
read back.
-/

open JsString

namespace Registry.Mdns

/-! ### Brackets and letters -/

variable {a : Address} {u : UInt16}

/-- The unit of the text of an address is in a group, or it is a digit, a colon or a dot. -/
theorem Address.mem_text (h : u ∈ a.text.units) :
  (∃ piece ∈ a.left ++ a.right.getD [], u ∈ piece.text.units) ∨ isDigit u = true ∨ u = colon ∨ u = dot
  := by
  have hhalf : ∀ pieces, u ∈ (halfText pieces).units →
      (∃ piece ∈ pieces, u ∈ piece.text.units) ∨ isDigit u = true ∨ u = colon ∨ u = dot := by
    intro pieces hu
    obtain hu | hu := mem_halfText hu
    · exact .inr (.inr (.inl hu))
    · exact .inl hu
  have hlast : ∀ pieces, u ∈ (a.lastText pieces).units →
      (∃ piece ∈ pieces, u ∈ piece.text.units) ∨ isDigit u = true ∨ u = colon ∨ u = dot := by
    intro pieces hu
    have hdotted : ∀ octets, u ∈ (dottedText octets).units →
        isDigit u = true ∨ u = colon ∨ u = dot := by
      intro octets hu
      obtain hu | ⟨o, -, hu⟩ := mem_dottedText hu
      · exact .inr (.inr hu)
      · exact .inl (isDigit_of_mem_ofNat hu)
    cases ho : a.dotted with
    | none =>
        rw [lastText, ho] at hu
        exact hhalf pieces (by simpa [halfText] using hu)
    | some o =>
        by_cases hpieces : pieces = []
        · rw [lastText, ho, hpieces] at hu
          exact .inr (hdotted o.val hu)
        · rw [lastText_dotted hpieces ho, colonString, units_append, units_append] at hu
          obtain hu | hu := List.mem_append.1 hu
          · obtain hu | hu := List.mem_append.1 hu
            · exact hhalf pieces hu
            · exact .inr (.inr (.inl (List.mem_singleton.1 hu)))
          · exact .inr (hdotted o.val hu)
  have hmono : ∀ pieces : List Piece, (∀ piece ∈ pieces, piece ∈ a.left ++ a.right.getD []) →
      (∃ piece ∈ pieces, u ∈ piece.text.units) ∨ isDigit u = true ∨ u = colon ∨ u = dot →
      (∃ piece ∈ a.left ++ a.right.getD [], u ∈ piece.text.units) ∨ isDigit u = true ∨
        u = colon ∨ u = dot := by
    rintro pieces hpieces (⟨piece, hpiece, hu⟩ | hu)
    · exact .inl ⟨piece, hpieces piece hpiece, hu⟩
    · exact .inr hu
  unfold text at h
  cases hright : a.right with
  | none =>
      rw [hright] at h hmono
      exact hmono a.left (by simp) (hlast a.left h)
  | some right =>
      rw [hright] at h hmono
      simp only [units_append, colonsString, List.mem_append, List.mem_cons, List.not_mem_nil,
        or_false, or_self] at h
      obtain (h | h) | h := h
      · exact hmono a.left (fun _ hp => List.mem_append_left _ hp) (hhalf a.left h)
      · exact .inr (.inr (.inl h))
      · exact hmono right (fun _ hp => List.mem_append_right _ hp) (hlast right h)

/-- The units of literals. -/
def isLiteralUnit (u : UInt16) : Bool := isPieceUnit u || u == colon || u == dot

theorem Address.isLiteralUnit_text (a : Address) :
  ∀ u ∈ a.text.units, isLiteralUnit u = true
  := by
  intro u hu
  obtain ⟨piece, -, hu⟩ | hu | rfl | rfl := a.mem_text hu
  · simp [isLiteralUnit, piece.isPieceUnit_text u hu]
  · have hhex : isHexUnit u = true := by
      simp only [isDigit, Bool.and_eq_true, decide_eq_true_eq] at hu
      simp only [isHexUnit, Bool.or_eq_true, Bool.and_eq_true, decide_eq_true_eq]
      left
      constructor
      · exact UInt16.le_iff_toNat_le.2 hu.1
      · exact UInt16.le_iff_toNat_le.2 (Nat.le_of_lt_succ hu.2)
    simp [isLiteralUnit, isPieceUnit, hhex]
  · rfl
  · rfl

/-- The units of literals are ASCII, and none of them is an upper-case letter. -/
theorem bounds_of_isLiteralUnit (h : isLiteralUnit u = true) :
  u ≤ 58 ∨ 97 ≤ u ∧ u < 128
  := by
  have hpiece : ∀ text : String,
      (ofString text).units.all (fun u => decide (u ≤ 58 ∨ 97 ≤ u ∧ u < 128)) = true →
      (ofString text).units.contains u = true → u ≤ 58 ∨ 97 ≤ u ∧ u < 128 := by
    intro text hall hcontains
    exact of_decide_eq_true (List.all_eq_true.1 hall u (by simpa using hcontains))
  simp only [isLiteralUnit, isPieceUnit, isHexUnit, Bool.or_eq_true, Bool.and_eq_true,
    decide_eq_true_eq, beq_iff_eq] at h
  obtain (((h | h) | h) | h) | h := h
  · obtain h | h := h
    · exact .inl (UInt16.le_trans h.2 (by decide))
    · exact .inr ⟨h.1, UInt16.lt_of_le_of_lt h.2 (by decide)⟩
  · exact hpiece "ipv4" (by decide) h
  · exact hpiece "tail" (by decide) h
  · exact h ▸ by decide
  · exact h ▸ by decide

theorem lt_of_isLiteralUnit (h : isLiteralUnit u = true) :
  u < 128
  := by
  obtain h | h := bounds_of_isLiteralUnit h
  · exact UInt16.lt_of_le_of_lt h (by decide)
  · exact h.2

theorem lowerUnit_of_isLiteralUnit (h : isLiteralUnit u = true) :
  lowerUnit u = u
  := by
  unfold lowerUnit
  rw [if_neg]
  rintro ⟨hfirst, hlast⟩
  obtain h | h := bounds_of_isLiteralUnit h
  · exact absurd (UInt16.le_trans hfirst h) (by decide)
  · exact absurd (UInt16.le_trans h.1 hlast) (by decide)

variable {words : List ℕ}

theorem Address.text_ne_nil (h : a.words = some words) :
  a.text.units ≠ []
  := by
  intro hnil
  have hparse := parseLiteral_eq_ok.2 ⟨a, rfl, h⟩
  have hempty : a.text = .empty := congrArg JsString.mk hnil
  rw [hempty] at hparse
  cases hparse

variable {s : JsString}

/-- A string is a text without brackets, or with brackets around it. -/
theorem unbracket_eq_text :
  unbracket s = a.text ↔ s = a.text ∨ s = ofString "[" ++ a.text ++ ofString "]"
  := by
  have hbracket : (91 : UInt16) ∉ a.text.units := by
    intro h
    exact absurd (a.isLiteralUnit_text 91 h) (by decide)
  have hopen : (ofString "[").units = [91] := by decide
  have hclose : (ofString "]").units = [93] := by decide
  constructor
  · intro h
    unfold unbracket at h
    split at h
    · rename_i hends
      right
      obtain ⟨units⟩ := s
      cases units with
      | nil => cases hends.1
      | cons u units =>
          obtain ⟨hhead, hlast⟩ := hends
          cases hhead
          have hne : units ≠ [] := by
            rintro rfl
            exact absurd (Option.some.inj hlast) (by decide)
          have hunits : units = units.dropLast ++ [93] := by
            have hgetLast : units.getLast hne = 93 := by
              rw [List.getLast?_cons, List.getLast?_eq_some_getLast hne] at hlast
              exact Option.some.inj hlast
            rw [← hgetLast, List.dropLast_append_getLast hne]
          have htext : a.text.units = units.dropLast := (congrArg JsString.units h).symm
          apply congrArg JsString.mk
          rw [hclose, units_append, hopen, htext, List.append_assoc, ← hunits]
          rfl
    · exact .inl h
  · rintro (rfl | rfl)
    · unfold unbracket
      rw [if_neg]
      rintro ⟨hhead, -⟩
      exact hbracket (List.mem_of_mem_head? hhead)
    · unfold unbracket
      have hunits : (ofString "[" ++ a.text ++ ofString "]").units = [91] ++ a.text.units ++ [93] := by
        rw [units_append, units_append, hopen, hclose]
      have hinner : ([91] ++ a.text.units ++ [93]).tail.dropLast = a.text.units := by simp
      have hlast : ([91] ++ a.text.units ++ [93]).getLast? = some 93 := List.getLast?_concat
      rw [hunits, if_pos ⟨rfl, hlast⟩, hinner]

/-! ### The codec is exact but for placeholders -/

/-- A string writes an address: with letters of either case, and with or without brackets. -/
def Writes (s : JsString) (a : Address) : Prop :=
  (∀ u ∈ s.units, u < 128) ∧
    (s.lowerAscii = a.text ∨ s.lowerAscii = ofString "[" ++ a.text ++ ofString "]")

theorem mem_bracketed {t : JsString} (h : t = a.text ∨ t = ofString "[" ++ a.text ++ ofString "]")
    (hu : u ∈ t.units) :
  u ∈ a.text.units ∨ u = 91 ∨ u = 93
  := by
  have hopen : (ofString "[").units = [91] := by decide
  have hclose : (ofString "]").units = [93] := by decide
  obtain rfl | rfl := h
  · exact .inl hu
  · rw [units_append, units_append, hopen, hclose] at hu
    simp only [List.mem_append, List.mem_singleton] at hu
    obtain (hu | hu) | hu := hu
    · exact .inr (.inl hu)
    · exact .inl hu
    · exact .inr (.inr hu)

/-- The units of a text in brackets are ASCII, and none of them is the letter k or a percent
sign. -/
theorem ascii_bracketed {t : JsString} (h : t = a.text ∨ t = ofString "[" ++ a.text ++ ofString "]")
    (hu : u ∈ t.units) :
  u < 128 ∧ u ≠ 107 ∧ u ≠ 37
  := by
  obtain hu | rfl | rfl := mem_bracketed h hu
  · have hunit := a.isLiteralUnit_text u hu
    refine ⟨lt_of_isLiteralUnit hunit, ?_, ?_⟩
    · rintro rfl
      exact absurd hunit (by decide)
    · rintro rfl
      exact absurd hunit (by decide)
  · decide
  · decide

/-- What is read as a literal writes an address. -/
theorem ipv6Words_eq_ok (lower : LowerCase) :
  ipv6Words lower s = .ok words ↔ ∃ a, Writes s a ∧ a.words = some words
  := by
  have hparse : ipv6Words lower s = .ok words ↔
      ¬ (s.isEmpty = true ∨ 37 ∈ s.units) ∧
        parseLiteral (unbracket (lower.toLowerCase s)) = .ok words := by
    unfold ipv6Words
    by_cases hnone : s.isEmpty = true ∨ 37 ∈ s.units
    · rw [if_pos hnone]
      constructor
      · rintro ⟨⟩
      · intro h
        exact absurd hnone h.1
    · rw [if_neg hnone]
      exact (and_iff_right hnone).symm
  rw [hparse]
  constructor
  · rintro ⟨-, h⟩
    obtain ⟨a, htext, hwords⟩ := parseLiteral_eq_ok.1 h
    have hlower := unbracket_eq_text.1 htext
    have hascii : ∀ u ∈ s.units, u < 128 := by
      by_contra hother
      simp only [not_forall] at hother
      obtain ⟨u, hu, hlarge⟩ := hother
      obtain ⟨v, hv, hforeign⟩ := lower.other s ⟨u, hu, UInt16.not_lt.1 hlarge⟩
      obtain ⟨hsmall, hne, -⟩ := ascii_bracketed hlower hv
      obtain hforeign | hforeign := hforeign
      · exact absurd hsmall (UInt16.not_lt.2 hforeign)
      · exact hne hforeign
    refine ⟨a, ⟨hascii, ?_⟩, hwords⟩
    rwa [lower.ascii s hascii] at hlower
  · rintro ⟨a, hwrites, hwords⟩
    constructor
    · rintro (hempty | hpercent)
      · have hnil : s.lowerAscii.units = [] := by
          rw [lowerAscii, List.isEmpty_iff.1 hempty]
          rfl
        obtain htext | htext := hwrites.2
        · exact Address.text_ne_nil hwords (htext ▸ hnil)
        · rw [htext, units_append] at hnil
          exact absurd (List.append_eq_nil_iff.1 hnil).2 (by decide)
      · have hmem : (37 : UInt16) ∈ s.lowerAscii.units :=
          List.mem_map.2 ⟨37, hpercent, by decide⟩
        exact (ascii_bracketed hwrites.2 hmem).2.2 rfl
    · rw [lower.ascii s hwrites.1, unbracket_eq_text.2 hwrites.2]
      exact parseLiteral_eq_ok.2 ⟨a, rfl, hwords⟩

/-- The bytes of words. -/
def bytesOf (words : List ℕ) : List UInt8 :=
  words.flatMap (fun word => [UInt8.ofNat (word >>> 8), UInt8.ofNat (word &&& 255)])

/-- A string is a literal of an address with these bytes. -/
def Denotes (s : JsString) (bytes : List UInt8) : Prop :=
  ∃ a : Address, a.IsLiteral ∧ Writes s a ∧ a.words.map bytesOf = some bytes

/-- A string is no literal, but becomes one when its groups `ipv4` give way to the dotted address at
its end, or to nothing, and its groups `tail` to nothing. -/
def Misread (s : JsString) : Prop :=
  ∃ a : Address, ¬ a.IsLiteral ∧ Writes s a ∧ a.words.isSome

theorem encodeIPv6_eq_ok (lower : LowerCase) {bytes : List UInt8} :
  encodeIPv6 lower s = .ok bytes ↔ ∃ a, Writes s a ∧ a.words.map bytesOf = some bytes
  := by
  unfold encodeIPv6
  constructor
  · intro h
    obtain ⟨words, hwords, hbytes⟩ := Except.bind_eq_ok_iff.1 h
    obtain ⟨a, hwrites, ha⟩ := (ipv6Words_eq_ok lower).1 hwords
    refine ⟨a, hwrites, ?_⟩
    rw [ha, Option.map_some, ← Except.ok.inj hbytes]
    rfl
  · rintro ⟨a, hwrites, hbytes⟩
    obtain ⟨words, ha, rfl⟩ := Option.map_eq_some_iff.1 hbytes
    rw [(ipv6Words_eq_ok lower).2 ⟨a, hwrites, ha⟩]
    rfl

/-- The letters of the placeholders that are no hexadecimal digits. -/
theorem Piece.mem_of_isPlaceholder {piece : Piece} (h : piece.IsPlaceholder) :
  112 ∈ piece.text.units ∨ 116 ∈ piece.text.units
  := by
  cases piece with
  | digits group => exact h.elim
  | ipv4 => exact .inl (by decide)
  | tail => exact .inr (by decide)

theorem Address.mem_text_of_piece {piece : Piece} (hpiece : piece ∈ a.left ++ a.right.getD [])
    (hu : u ∈ piece.text.units) :
  u ∈ a.text.units
  := by
  have hlast : ∀ pieces, piece ∈ pieces → u ∈ (a.lastText pieces).units :=
    fun pieces hmem => mem_joinWith (List.mem_append_left _ (List.mem_map_of_mem hmem)) hu
  unfold text
  cases hright : a.right with
  | none =>
      rw [hright] at hpiece
      exact hlast a.left (by simpa using hpiece)
  | some right =>
      rw [hright] at hpiece
      rw [units_append, units_append]
      obtain hpiece | hpiece := List.mem_append.1 hpiece
      · apply List.mem_append_left _ (List.mem_append_left _ _)
        exact mem_joinWith (List.mem_map_of_mem hpiece) hu
      · exact List.mem_append_right _ (hlast right hpiece)

/-- The letters of placeholders are not in a literal. -/
theorem Address.IsLiteral.notMem (h : a.IsLiteral) :
  112 ∉ a.text.units ∧ 116 ∉ a.text.units
  := by
  have hunit : ∀ u, isHexUnit u = false ∧ isDigit u = false ∧ u ≠ colon ∧ u ≠ dot →
      u ∉ a.text.units := by
    rintro u ⟨hhex, hdigit, hcolon, hdot⟩ hu
    obtain ⟨piece, hpiece, hu⟩ | hu | hu | hu := a.mem_text hu
    · have hliteral := h piece hpiece
      cases piece with
      | digits group =>
          have hgroup := List.all_eq_true.1 group.property.1 u hu
          rw [hhex] at hgroup
          cases hgroup
      | ipv4 | tail => exact hliteral trivial
    · rw [hdigit] at hu
      cases hu
    · exact hcolon hu
    · exact hdot hu
  exact ⟨hunit 112 (by decide), hunit 116 (by decide)⟩

/-- A string that is a literal is not misread. -/
theorem not_denotes_of_misread (h : Misread s) (bytes : List UInt8) :
  ¬ Denotes s bytes
  := by
  rintro ⟨literal, hliteral, hwrites, -⟩
  obtain ⟨a, ha, hwrites', -⟩ := h
  have hletters : ∀ {u : UInt16}, u ≠ 91 → u ≠ 93 → u ∈ a.text.units → u ∈ literal.text.units := by
    intro u hopen hclose hu
    have hmem : u ∈ s.lowerAscii.units := by
      obtain htext | htext := hwrites'.2
      · rwa [htext]
      · rw [htext, units_append, units_append]
        exact List.mem_append_left _ (List.mem_append_right _ hu)
    exact (mem_bracketed hwrites.2 hmem).resolve_right (not_or.2 ⟨hopen, hclose⟩)
  simp only [Address.IsLiteral, not_forall, not_not] at ha
  obtain ⟨piece, hpiece, hplaceholder⟩ := ha
  obtain hu | hu := piece.mem_of_isPlaceholder hplaceholder
  · exact hliteral.notMem.1 (hletters (by decide) (by decide) (a.mem_text_of_piece hpiece hu))
  · exact hliteral.notMem.2 (hletters (by decide) (by decide) (a.mem_text_of_piece hpiece hu))

/-! ### Printing -/

variable {start : ℕ}

theorem zeroEnd_le (h : start ≤ words.length) :
  zeroEnd words start ≤ words.length
  := by
  fun_induction zeroEnd words start with
  | case1 start hzero ih => exact ih (by omega)
  | case2 start hzero => exact h

theorem getElem?_of_lt_zeroEnd {i : ℕ} (hstart : start ≤ i) (hi : i < zeroEnd words start) :
  words[i]? = some 0
  := by
  fun_induction zeroEnd words start with
  | case1 start hzero ih =>
      obtain rfl | hlt := Nat.eq_or_lt_of_le hstart
      · exact hzero.2
      · exact ih hlt hi
  | case2 start hzero => omega

/-- The words in a range are zeros. -/
def IsRun (words : List ℕ) (start length : ℕ) : Prop :=
  start + length ≤ words.length ∧ ∀ i, start ≤ i → i < start + length → words[i]? = some 0

theorem IsRun.split {length : ℕ} (h : IsRun words start length) :
  words = words.take start ++ List.replicate length 0 ++ words.drop (start + length)
  := by
  have hrun : (words.drop start).take length = List.replicate length 0 := by
    apply List.ext_getElem?
    intro i
    by_cases hi : i < length
    · rw [List.getElem?_take_of_lt hi, List.getElem?_drop, h.2 (start + i) (by omega) (by omega),
        List.getElem?_replicate_of_lt hi]
    · rw [List.getElem?_eq_none (by simp; omega), List.getElem?_eq_none (by simp; omega)]
  rw [← hrun, List.append_assoc, ← List.drop_drop, List.take_append_drop, List.take_append_drop]

variable {bestStart bestLength : ℕ}

/-- What is found is a run of zeros. -/
theorem isRun_longestRun (hbest : bestLength = 0 ∨ IsRun words bestStart bestLength)
    (hstart : start ≤ words.length) :
  (longestRun words start bestStart bestLength).2 = 0 ∨
    IsRun words (longestRun words start bestStart bestLength).1
      (longestRun words start bestStart bestLength).2
  := by
  fun_induction longestRun words start bestStart bestLength with
  | case1 start bestStart bestLength h hzero last hlast hlonger ih =>
      have hend : last ≤ words.length := zeroEnd_le hstart
      apply ih _ hend
      right
      constructor
      · omega
      · intro i hi hlt
        exact getElem?_of_lt_zeroEnd hi (by omega)
  | case2 start bestStart bestLength h hzero last hlast hlonger ih =>
      exact ih hbest (zeroEnd_le hstart)
  | case3 start bestStart bestLength h hzero ih => exact ih hbest (by omega)
  | case4 start bestStart bestLength h => exact hbest

theorem textParts_plain {index : ℕ} (h : bestLength = 0 ∨ bestStart < index) :
  textParts words bestStart bestLength index = (words.drop index).map toHex
  := by
  fun_induction textParts words bestStart bestLength index with
  | case1 index hindex hbest ih => omega
  | case2 index hindex hbest ih =>
      rw [ih (by omega), List.drop_eq_getElem_cons hindex, List.getElem?_eq_getElem hindex]
      rfl
  | case3 index hindex =>
      rw [List.drop_eq_nil_of_le (by omega)]
      rfl

/-- The parts of a text with a run left out. -/
theorem textParts_run {index : ℕ} (hlength : 0 < bestLength)
    (hfits : bestStart + bestLength ≤ words.length) (hindex : index ≤ bestStart) :
  textParts words bestStart bestLength index =
    ((words.drop index).take (bestStart - index)).map toHex ++
      .empty :: ((if bestStart + bestLength = words.length then [.empty] else []) ++
        (words.drop (bestStart + bestLength)).map toHex)
  := by
  fun_induction textParts words bestStart bestLength index with
  | case1 index hlt hbest ih =>
      obtain ⟨rfl, -⟩ := hbest
      rw [textParts_plain (.inr (by omega)), Nat.sub_self, List.take_zero]
      rfl
  | case2 index hlt hbest ih =>
      have hbefore : index < bestStart := by
        obtain heq | hbefore := Nat.eq_or_lt_of_le hindex
        · exact absurd ⟨heq, hlength⟩ hbest
        · exact hbefore
      have htake : bestStart - index = (bestStart - (index + 1)) + 1 := by omega
      rw [ih hbefore, List.drop_eq_getElem_cons hlt, List.getElem?_eq_getElem hlt, htake,
        List.take_succ_cons]
      rfl
  | case3 index hge => omega

theorem isHexUnit_hexUnitOf {d : ℕ} (h : d < 16) :
  isHexUnit (hexUnitOf d) = true ∧ hexDigit (hexUnitOf d) = d
  := by
  have hall : ∀ d : Fin 16, isHexUnit (hexUnitOf d) = true ∧ hexDigit (hexUnitOf d) = d := by decide
  exact hall ⟨d, h⟩

theorem hexValue_digits {ds : List ℕ} (h : ∀ d ∈ ds, d < 16) :
  ((ds.map hexUnitOf).reverse).foldl (fun value u => value * 16 + hexDigit u) 0 = Nat.ofDigits 16 ds
  := by
  rw [List.foldl_reverse]
  induction ds with
  | nil => rfl
  | cons d ds ih =>
      rw [List.map_cons, List.foldr_cons, ih (fun x hx => h x (List.mem_cons_of_mem _ hx)),
        (isHexUnit_hexUnitOf (h d List.mem_cons_self)).2, Nat.ofDigits_cons]
      omega

/-- The hexadecimal digits of a word are a group that stands for it. -/
theorem isGroup_toHex {word : ℕ} (h : word < 65536) :
  IsGroup (toHex word) ∧ hexValue (toHex word) = word
  := by
  unfold toHex
  by_cases hzero : word = 0
  · rw [if_pos hzero, hzero]
    exact ⟨⟨rfl, by decide, by decide⟩, rfl⟩
  · have hdigits : ∀ d ∈ Nat.digits 16 word, d < 16 :=
      fun d hd => Nat.digits_lt_base (by decide) hd
    rw [if_neg hzero]
    refine ⟨⟨?_, ?_, ?_⟩, ?_⟩
    · rw [List.all_eq_true]
      intro u hu
      obtain ⟨d, hd, rfl⟩ := List.mem_map.1 (List.mem_reverse.1 hu)
      exact (isHexUnit_hexUnitOf (hdigits d hd)).1
    · rw [List.length_reverse, List.length_map, Nat.one_le_iff_ne_zero, Ne,
        List.length_eq_zero_iff]
      exact Nat.digits_ne_nil_iff_ne_zero.2 hzero
    · rw [List.length_reverse, List.length_map]
      exact (Nat.digits_length_le_iff (by decide) _).2 h
    · rw [hexValue, hexValue_digits hdigits, Nat.ofDigits_digits]

/-- The pieces of words. -/
theorem exists_pieces (h : ∀ word ∈ words, word < 65536) :
  ∃ pieces : List Piece, pieces.map Piece.text = words.map toHex ∧
    pieces.flatMap (Piece.words []) = words ∧ ∀ piece ∈ pieces, ¬ piece.IsPlaceholder
  := by
  induction words with
  | nil => exact ⟨[], rfl, rfl, fun _ h => absurd h List.not_mem_nil⟩
  | cons word words ih =>
      obtain ⟨pieces, htext, hwords, hpieces⟩ :=
        ih (fun w hw => h w (List.mem_cons_of_mem _ hw))
      obtain ⟨hgroup, hvalue⟩ := isGroup_toHex (h word List.mem_cons_self)
      refine ⟨.digits ⟨toHex word, hgroup⟩ :: pieces, ?_, ?_, ?_⟩
      · rw [List.map_cons, List.map_cons, htext]
        rfl
      · rw [List.flatMap_cons, hwords, Piece.words, hvalue]
        rfl
      · intro piece hpiece
        obtain rfl | hpiece := List.mem_cons.1 hpiece
        · exact id
        · exact hpieces piece hpiece

theorem wordsOf_cons (high low : UInt8) (bytes : List UInt8) :
  wordsOf (high :: low :: bytes) = (high.toNat * 256 + low.toNat) :: wordsOf bytes
  := by
  rw [wordsOf, ← Nat.shiftLeft_add_eq_or_of_lt low.toNat_lt, Nat.shiftLeft_eq]

/-- The words of bytes have these bytes. -/
theorem wordsOf_facts {n : ℕ} {bytes : List UInt8} (h : bytes.length = 2 * n) :
  (wordsOf bytes).length = n ∧ (∀ word ∈ wordsOf bytes, word < 65536) ∧
    bytesOf (wordsOf bytes) = bytes
  := by
  induction n generalizing bytes with
  | zero =>
      rw [List.length_eq_zero_iff.1 h]
      exact ⟨rfl, fun _ h => absurd h List.not_mem_nil, rfl⟩
  | succ n ih =>
      match bytes, h with
      | high :: low :: bytes, h =>
          have hrest : bytes.length = 2 * n := by simpa [Nat.mul_add] using h
          obtain ⟨hlength, hbound, hbytes⟩ := ih hrest
          have hhigh := high.toNat_lt
          have hlow := low.toNat_lt
          have hshift : (high.toNat * 256 + low.toNat) >>> 8 = high.toNat := by
            rw [Nat.shiftRight_eq_div_pow]
            omega
          have hmask : (high.toNat * 256 + low.toNat) &&& 255 = low.toNat := by
            rw [Nat.and_two_pow_sub_one_eq_mod _ 8]
            omega
          rw [wordsOf_cons]
          refine ⟨by rw [List.length_cons, hlength], ?_, ?_⟩
          · intro word hword
            obtain rfl | hword := List.mem_cons.1 hword
            · omega
            · exact hbound word hword
          · rw [bytesOf, List.flatMap_cons, hshift, hmask, UInt8.ofNat_toNat, UInt8.ofNat_toNat]
            rw [bytesOf] at hbytes
            rw [hbytes]
            rfl

theorem startsWith_colon :
  s.startsWith (ofString ":") = true ↔ s.units.head? = some colon
  := by
  rw [colonString, startsWith, List.isPrefixOf_iff_prefix]
  cases s.units with
  | nil => simp
  | cons u units => simp [eq_comm]

/-- A text that does not begin with the run is printed as it is. -/
theorem not_startsWith_colon {pieces : List Piece} (h : pieces ≠ []) (rest : JsString) :
  ¬ (halfText pieces ++ rest).startsWith (ofString ":") = true
  := by
  rw [startsWith_colon, units_append, List.head?_append_of_ne_nil _ (halfText_ne_nil h)]
  exact (tight_halfText pieces).first

/-- The join of the parts behind a run. -/
theorem joinWith_behind (pieces : List Piece) :
  joinWith (ofString ":")
      (.empty :: ((if pieces = [] then [.empty] else []) ++ pieces.map Piece.text)) =
    ofString ":" ++ halfText pieces
  := by
  by_cases hpieces : pieces = []
  · rw [hpieces]
    decide
  · rw [if_neg hpieces, List.nil_append, joinWith_cons _ _ (by simpa using hpieces)]
    rfl

/-- What is printed is the text of a literal with the words of the bytes. -/
theorem decodeIPv6_eq {data : List UInt8} (h : data.length = 16) :
  ∃ a : Address, decodeIPv6 data = .ok a.text ∧ a.IsLiteral ∧ a.words = some (wordsOf data)
  := by
  obtain ⟨hlength, hbound, -⟩ := wordsOf_facts (n := 8) h
  have hprint : decodeIPv6 data =
      (let best := longestRun (wordsOf data) 0 0 0
      let joined := joinWith (ofString ":") (textParts (wordsOf data) best.1 best.2 0)
      .ok (if joined.startsWith (ofString ":") then ofString ":" ++ joined else joined)) := by
    rw [decodeIPv6, if_neg (not_not.2 h)]
  have hrun := @isRun_longestRun (wordsOf data) 0 0 0 (.inl rfl) (Nat.zero_le _)
  rw [hprint]
  generalize wordsOf data = words at *
  generalize longestRun words 0 0 0 = best at *
  obtain ⟨bestStart, bestLength⟩ := best
  dsimp only at hrun ⊢
  by_cases hzero : bestLength = 0
  · obtain ⟨pieces, htext, hwords, hliteral⟩ := exists_pieces hbound
    have hne : pieces ≠ [] := by
      rintro rfl
      rw [← hwords] at hlength
      cases hlength
    have hjoined : joinWith (ofString ":") (textParts words bestStart bestLength 0) =
        halfText pieces ++ .empty := by
      rw [textParts_plain (.inl hzero), List.drop_zero, ← htext]
      exact congrArg JsString.mk (List.append_nil _).symm
    have ha : (Address.mk pieces none none).dotted = none := rfl
    refine ⟨⟨pieces, none, none⟩, ?_, ?_, ?_⟩
    · rw [hjoined, if_neg (not_startsWith_colon hne _), Address.text_plain ha]
      exact congrArg Except.ok (congrArg JsString.mk (List.append_nil _))
    · intro piece hpiece
      exact hliteral piece (by simpa using hpiece)
    · rw [Address.words_plain ha]
      simp [halvesWords, hwords, hlength]
  · obtain ⟨hfits, hzeros⟩ := hrun.resolve_left hzero
    have hsplit := (hrun.resolve_left hzero).split
    have htake : ∀ word ∈ words.take bestStart, word < 65536 :=
      fun w hw => hbound w (List.mem_of_mem_take hw)
    have hdrop : ∀ word ∈ words.drop (bestStart + bestLength), word < 65536 :=
      fun w hw => hbound w (List.mem_of_mem_drop hw)
    obtain ⟨left, hleft, hleftWords, hleftLiteral⟩ := exists_pieces htake
    obtain ⟨right, hright, hrightWords, hrightLiteral⟩ := exists_pieces hdrop
    have hend : bestStart + bestLength = words.length ↔ right = [] := by
      rw [← List.map_eq_nil_iff (f := Piece.text), hright, List.map_eq_nil_iff,
        List.drop_eq_nil_iff]
      omega
    have hparts : textParts words bestStart bestLength 0 = left.map Piece.text ++
        .empty :: ((if right = [] then [.empty] else []) ++ right.map Piece.text) := by
      rw [textParts_run (Nat.pos_of_ne_zero hzero) hfits (Nat.zero_le _), List.drop_zero,
        Nat.sub_zero, hleft, hright]
      simp only [hend]
    have ha : (Address.mk left (some right) none).dotted = none := rfl
    have htext : (Address.mk left (some right) none).text =
        halfText left ++ ofString ":" ++ (ofString ":" ++ halfText right) := by
      have hcolons : ofString "::" = ofString ":" ++ ofString ":" := by decide
      rw [Address.text_plain ha]
      simp only [halvesText, hcolons, append_assoc]
    refine ⟨⟨left, some right, none⟩, ?_, ?_, ?_⟩
    · rw [hparts, htext]
      by_cases hempty : left = []
      · subst hempty
        have hstarts : (ofString ":" ++ halfText right).startsWith (ofString ":") = true :=
          startsWith_colon.2 (by rw [colonString]; rfl)
        rw [List.map_nil, List.nil_append, joinWith_behind, if_pos hstarts]
        rfl
      · have hfold : joinWith (ofString ":") (left.map Piece.text) = halfText left := rfl
        rw [joinWith_append _ (by simpa using hempty) (List.cons_ne_nil _ _), joinWith_behind,
          append_assoc, hfold, if_neg (not_startsWith_colon hempty _), append_assoc]
    · intro piece hpiece
      obtain hpiece | hpiece := List.mem_append.1 hpiece
      · exact hleftLiteral piece hpiece
      · exact hrightLiteral piece hpiece
    · rw [Address.words_plain ha]
      have hfew : (words.take bestStart).length +
          (words.drop (bestStart + bestLength)).length + bestLength = 8 := by
        rw [List.length_take, List.length_drop]
        omega
      have hlt : (words.take bestStart).length +
          (words.drop (bestStart + bestLength)).length < 8 := by omega
      have hzeros : 8 - ((words.take bestStart).length +
          (words.drop (bestStart + bestLength)).length) = bestLength := by omega
      simp only [Option.map_some, hleftWords, hrightWords, halvesWords, hzeros]
      rw [if_pos hlt, ← hsplit]

/-- The text of an address is read back as the address. And what is read as a literal is one, with
the bytes that are read, exactly unless the string is misread. -/
theorem ipv6_exact (lower : LowerCase) :
  (∀ bytes : List UInt8, bytes.length = 16 →
      ∃ text, decodeIPv6 bytes = .ok text ∧ encodeIPv6 lower text = .ok bytes) ∧
    ∀ s : JsString,
      (∀ bytes, encodeIPv6 lower s = .ok bytes ↔ Denotes s bytes) ↔ ¬ Misread s
  := by
  constructor
  · intro bytes hlength
    obtain ⟨a, hdecode, -, hwords⟩ := decodeIPv6_eq hlength
    have hbytes := (wordsOf_facts (n := 8) hlength).2.2
    refine ⟨a.text, hdecode, (encodeIPv6_eq_ok lower).2 ⟨a, ⟨?_, .inl ?_⟩, ?_⟩⟩
    · intro u hu
      exact lt_of_isLiteralUnit (a.isLiteralUnit_text u hu)
    · have hunits : a.text.units.map lowerUnit = a.text.units.map id :=
        List.map_congr_left
          (fun u hu => lowerUnit_of_isLiteralUnit (a.isLiteralUnit_text u hu))
      exact congrArg JsString.mk (hunits.trans (List.map_id _))
    · rw [hwords, Option.map_some, hbytes]
  · intro s
    constructor
    · intro h hmisread
      have ⟨a, _, hwrites, hwords⟩ := hmisread
      obtain ⟨words, ha⟩ := Option.isSome_iff_exists.1 hwords
      apply not_denotes_of_misread hmisread (bytesOf words)
      apply (h _).1 ((encodeIPv6_eq_ok lower).2 ⟨a, hwrites, _⟩)
      rw [ha, Option.map_some]
    · intro hread bytes
      rw [encodeIPv6_eq_ok]
      constructor
      · rintro ⟨a, hwrites, hbytes⟩
        obtain ⟨words, ha, -⟩ := Option.map_eq_some_iff.1 hbytes
        have hliteral : a.IsLiteral := by
          by_contra hplaceholder
          exact hread ⟨a, hplaceholder, hwrites, by rw [ha]; rfl⟩
        exact ⟨a, hliteral, hwrites, hbytes⟩
      · rintro ⟨a, -, hwrites, hbytes⟩
        exact ⟨a, hwrites, hbytes⟩

/-- A ninth group `tail` is read as nothing. -/
theorem ipv6_tail :
  encodeIPv6 LowerCase.plain (ofString "1:2:3:4:5:6:7:8:tail") =
      .ok [0, 1, 0, 2, 0, 3, 0, 4, 0, 5, 0, 6, 0, 7, 0, 8] ∧
    ∀ bytes, ¬ Denotes (ofString "1:2:3:4:5:6:7:8:tail") bytes
  := by
  constructor
  · rfl
  · rintro bytes ⟨a, hliteral, hwrites, -⟩
    have hmem : (116 : UInt16) ∈ (ofString "1:2:3:4:5:6:7:8:tail").lowerAscii.units := by decide
    obtain h | h | h := mem_bracketed hwrites.2 hmem
    · exact hliteral.notMem.2 h
    · exact absurd h (by decide)
    · exact absurd h (by decide)

end Registry.Mdns
