import GoLike.Lib.Utf8

/-!
# The texts of JSON strings, arrays and objects

A code of values by sequences is delimited when a value can be told apart from what follows
it. The texts of strings, of arrays and of objects, as they are written without white space,
are delimited.
-/

/-! ### Delimited codes -/

/-- A sequence that begins with a code of a value determines the value and the rest. -/
def Delimited {α β : Type} (P : α → Prop) (code : α → List β) : Prop :=
  ∀ a a' X X', P a → P a' → code a ++ X = code a' ++ X' → a = a' ∧ X = X'

namespace Delimited

variable {α β γ : Type} {P : α → Prop} {code : α → List β}

/-- A code that can be read is delimited. -/
theorem of_read {read : List β → Option (α × List β)}
    (h : ∀ a X, P a → read (code a ++ X) = some (a, X)) :
  Delimited P code
  := by
  intro a a' X X' ha ha' heq
  have hread := h a X ha
  rw [heq, h a' X' ha'] at hread
  cases hread
  exact ⟨rfl, rfl⟩

theorem comp {Q : γ → Prop} {f : γ → α} (h : Delimited P code) (hf : Function.Injective f)
    (hP : ∀ c, Q c → P (f c)) :
  Delimited Q (fun c => code (f c))
  := by
  intro c c' X X' hc hc' heq
  obtain ⟨hsame, hrest⟩ := h (f c) (f c') X X' (hP c hc) (hP c' hc') heq
  exact ⟨hf hsame, hrest⟩

/-- Every value is preceded by an element. -/
theorem cons (h : Delimited P code) (b : β) :
  Delimited P (fun a => b :: code a)
  := by
  intro a a' X X' ha ha' heq
  rw [List.cons_append, List.cons_append, List.cons.injEq] at heq
  exact h a a' X X' ha ha' heq.2

/-- The code of a list ends with an element with which no code of a value begins. -/
theorem flatMap (h : Delimited P code) {stop : β}
    (hstop : ∀ a X X', P a → code a ++ X ≠ stop :: X') {l l' : List α} {X X' : List β}
    (hl : ∀ a ∈ l, P a) (hl' : ∀ a ∈ l', P a)
    (heq : l.flatMap code ++ stop :: X = l'.flatMap code ++ stop :: X') :
  l = l' ∧ X = X'
  := by
  induction l generalizing l' with
  | nil =>
      cases l' with
      | nil =>
          rw [List.flatMap_nil, List.nil_append, List.nil_append, List.cons.injEq] at heq
          exact ⟨rfl, heq.2⟩
      | cons a' l' =>
          rw [List.flatMap_nil, List.nil_append, List.flatMap_cons, List.append_assoc] at heq
          exact absurd heq.symm (hstop a' _ _ (hl' a' List.mem_cons_self))
  | cons a l ih =>
      cases l' with
      | nil =>
          rw [List.flatMap_nil, List.nil_append, List.flatMap_cons, List.append_assoc] at heq
          exact absurd heq (hstop a _ _ (hl a List.mem_cons_self))
      | cons a' l' =>
          rw [List.flatMap_cons, List.flatMap_cons, List.append_assoc, List.append_assoc] at heq
          obtain ⟨rfl, hrest⟩ :=
            h a a' _ _ (hl a List.mem_cons_self) (hl' a' List.mem_cons_self) heq
          obtain ⟨rfl, rfl⟩ := ih (fun b hb => hl b (List.mem_cons_of_mem _ hb))
            (fun b hb => hl' b (List.mem_cons_of_mem _ hb)) hrest
          exact ⟨rfl, rfl⟩

end Delimited

namespace JsString

/-! ### Strings -/

/-- The unit of a hexadecimal digit. -/
def hexUnit (d : ℕ) : UInt16 := if d < 10 then UInt16.ofNat (48 + d) else UInt16.ofNat (87 + d)

/-- The value of a hexadecimal digit, in either case. -/
def hexDigit? (u : UInt16) : Option ℕ :=
  let n := u.toNat
  if 48 ≤ n ∧ n ≤ 57 then some (n - 48)
  else if 65 ≤ n ∧ n ≤ 70 then some (n - 55)
  else if 97 ≤ n ∧ n ≤ 102 then some (n - 87)
  else none

theorem hexDigit?_hexUnit {d : ℕ} (h : d < 16) :
  hexDigit? (hexUnit d) = some d
  := by
  interval_cases d <;> rfl

/-- The escape sequence of the digits of a code point. -/
def unicodeEscape (p : ℕ) : List UInt16 :=
  [92, 117, hexUnit (p / 4096 % 16), hexUnit (p / 256 % 16), hexUnit (p / 16 % 16),
    hexUnit (p % 16)]

/-- The units of a code point in a JSON string. -/
def escape (p : ℕ) : List UInt16 :=
  if p = 8 then [92, 98]
  else if p = 9 then [92, 116]
  else if p = 10 then [92, 110]
  else if p = 12 then [92, 102]
  else if p = 13 then [92, 114]
  else if p = 34 then [92, 34]
  else if p = 92 then [92, 92]
  else if p < 32 ∨ 0xD800 ≤ p ∧ p < 0xE000 then unicodeEscape p
  else unitsOfPoint p

/-- The units of a JSON string. -/
def quote (s : JsString) : List UInt16 := 34 :: s.codePoints.flatMap escape ++ [34]

/-- The value of a hexadecimal digit. -/
def hexValue (u : UInt16) : ℕ := if u.toNat < 58 then u.toNat - 48 else u.toNat - 87

/-- The code point of an escape sequence of one letter. -/
def letterValue (u : UInt16) : ℕ :=
  if u = 98 then 8 else if u = 116 then 9 else if u = 110 then 10 else if u = 102 then 12
  else if u = 114 then 13 else u.toNat

/-- Read the digits of an escape sequence. -/
def readDigits : List UInt16 → Option (ℕ × List UInt16)
  | a :: b :: c :: d :: rest =>
      some (((hexValue a * 16 + hexValue b) * 16 + hexValue c) * 16 + hexValue d, rest)
  | _ => none

/-- Read an escape sequence. -/
def readEscape : List UInt16 → Option (ℕ × List UInt16)
  | [] => none
  | u :: rest => if u = 117 then readDigits rest else some (letterValue u, rest)

/-- Read a code point. -/
def readPoint (u : UInt16) : List UInt16 → ℕ × List UInt16
  | [] => (u.toNat, [])
  | v :: rest => if isHigh u && isLow v then (combine u v, rest) else (u.toNat, v :: rest)

/-- Read the first code point of a JSON string. -/
def unescape : List UInt16 → Option (ℕ × List UInt16)
  | [] => none
  | u :: rest => if u = 92 then readEscape rest else some (readPoint u rest)

theorem hexValue_hexUnit {d : ℕ} (h : d < 16) :
  hexValue (hexUnit d) = d
  := by
  interval_cases d <;> rfl

theorem readDigits_unicodeEscape {p : ℕ} (h : p < 0x10000) (X : List UInt16) :
  unescape (unicodeEscape p ++ X) = some (p, X)
  := by
  have hdigits : ((p / 4096 % 16 * 16 + p / 256 % 16) * 16 + p / 16 % 16) * 16 + p % 16 = p := by
    omega
  have hread : unescape (unicodeEscape p ++ X) =
      some (((hexValue (hexUnit (p / 4096 % 16)) * 16 + hexValue (hexUnit (p / 256 % 16))) * 16 +
        hexValue (hexUnit (p / 16 % 16))) * 16 + hexValue (hexUnit (p % 16)), X) := rfl
  rw [hread, hexValue_hexUnit (Nat.mod_lt _ (by decide)), hexValue_hexUnit (Nat.mod_lt _ (by decide)),
    hexValue_hexUnit (Nat.mod_lt _ (by decide)), hexValue_hexUnit (Nat.mod_lt _ (by decide)), hdigits]

/-- A character that needs no escape. -/
theorem unescape_unitsOfPoint {p : ℕ} (hvalid : p.isValidChar) (hp : p ≠ 92) (X : List UInt16) :
  unescape (unitsOfPoint p ++ X) = some (p, X)
  := by
  obtain ⟨u, hunits, htoNat, hhigh⟩ | ⟨high, low, hunits, hhigh, hlow, hcombine⟩ :=
    unitsOfPoint_cases hvalid
  · have hu : u ≠ 92 := by
      rintro rfl
      exact hp htoNat.symm
    rw [hunits, List.singleton_append, unescape, if_neg hu]
    cases X with
    | nil => rw [readPoint, htoNat]
    | cons v X => rw [readPoint, hhigh, Bool.false_and, if_neg Bool.false_ne_true, htoNat]
  · have hu : high ≠ 92 := by
      rintro rfl
      cases hhigh
    rw [hunits, List.cons_append, List.singleton_append, unescape, if_neg hu, readPoint, hhigh, hlow,
      if_pos (Bool.and_self true), hcombine]

/-- A code point. -/
def IsPoint (p : ℕ) : Prop := p < 0x110000

theorem unescape_escape {p : ℕ} (h : IsPoint p) (X : List UInt16) :
  unescape (escape p ++ X) = some (p, X)
  := by
  unfold escape
  split
  · subst p
    rfl
  split
  · subst p
    rfl
  split
  · subst p
    rfl
  split
  · subst p
    rfl
  split
  · subst p
    rfl
  split
  · subst p
    rfl
  split
  · subst p
    rfl
  split
  · exact readDigits_unicodeEscape (by omega) X
  · apply unescape_unitsOfPoint
    · unfold IsPoint at h
      simp only [Nat.isValidChar]
      omega
    · assumption

theorem delimited_escape :
  Delimited IsPoint escape
  := Delimited.of_read (fun _ X h => unescape_escape h X)

theorem isPoint_of_mem {us : List UInt16} :
  ∀ p ∈ pointsOf us, IsPoint p
  := by
  have hunit : ∀ u : UInt16, IsPoint u.toNat := by
    intro u
    have hu : u.toNat < 65536 := u.toNat_lt
    unfold IsPoint
    omega
  induction us using pointsOf.induct with
  | case1 =>
      intro p hp
      cases hp
  | case2 u =>
      intro p hp
      rw [pointsOf, List.mem_singleton] at hp
      rw [hp]
      exact hunit u
  | case3 u v rest hpair ih =>
      intro p hp
      rw [pointsOf, if_pos hpair] at hp
      obtain hfirst | hp := List.mem_cons.mp hp
      · rw [Bool.and_eq_true] at hpair
        have hvalid := isValidChar_combine hpair.1 hpair.2
        rw [hfirst]
        simp only [Nat.isValidChar] at hvalid
        unfold IsPoint
        omega
      · exact ih p hp
  | case4 u v rest hpair ih =>
      intro p hp
      rw [pointsOf, if_neg hpair] at hp
      obtain hfirst | hp := List.mem_cons.mp hp
      · rw [hfirst]
        exact hunit u
      · exact ih p hp

/-- No code point is written with a bare quotation mark. -/
theorem escape_ne_quotation {p : ℕ} (h : IsPoint p) (X X' : List UInt16) :
  escape p ++ X ≠ 34 :: X'
  := by
  intro heq
  have hread := unescape_escape h X
  rw [heq, unescape, if_neg (by decide)] at hread
  have hp : p = 34 := by
    cases X' with
    | nil | cons =>
        cases hread
        rfl
  subst hp
  cases heq

/-- The text of a string is delimited. -/
theorem delimited_quote :
  Delimited (fun _ => True) quote
  := by
  intro s s' X X' _ _ heq
  simp only [quote, List.cons_append, List.append_assoc, List.nil_append, List.cons.injEq,
    true_and] at heq
  obtain ⟨hpoints, hrest⟩ := delimited_escape.flatMap (fun _ X X' h => escape_ne_quotation h X X')
    isPoint_of_mem isPoint_of_mem heq
  exact ⟨codePoints_injective hpoints, hrest⟩

/-! ### Arrays and objects -/

/-- The units of elements with commas between them, between an opening and a closing unit. -/
def enclosed (opening closing : UInt16) : List (List UInt16) → List UInt16
  | [] => [opening, closing]
  | first :: rest => opening :: first ++ rest.flatMap (fun element => 44 :: element) ++ [closing]

/-- The units of a JSON array, from those of its elements. -/
def brackets : List (List UInt16) → List UInt16
  | [] => [91, 93]
  | first :: rest => 91 :: first ++ rest.flatMap (fun element => 44 :: element) ++ [93]

theorem brackets_eq_enclosed (texts : List (List UInt16)) :
  brackets texts = enclosed 91 93 texts
  := by
  cases texts with
  | nil | cons => rfl

/-- The units of a JSON object, from those of its properties. -/
def braces (texts : List (List UInt16)) : List UInt16 := enclosed 123 125 texts

/-- The text of a sequence is delimited when those of its elements are. -/
theorem delimited_enclosed {α : Type} {P : α → Prop} {code : α → List UInt16}
    {opening closing : UInt16} (h : Delimited P code) (hclosing : closing ≠ 44)
    (hstart : ∀ a X X', P a → code a ++ X ≠ closing :: X') :
  Delimited (fun l : List α => ∀ a ∈ l, P a) (fun l => enclosed opening closing (l.map code))
  := by
  have hrest : ∀ {l l' : List α} {X X' : List UInt16}, (∀ a ∈ l, P a) → (∀ a ∈ l', P a) →
      (l.map code).flatMap (fun element => 44 :: element) ++ closing :: X =
        (l'.map code).flatMap (fun element => 44 :: element) ++ closing :: X' →
      l = l' ∧ X = X' := by
    intro l l' X X' hl hl' heq
    rw [List.flatMap_map, List.flatMap_map] at heq
    apply (h.cons 44).flatMap _ hl hl' heq
    intro a X X' _ hcomma
    rw [List.cons_append, List.cons.injEq] at hcomma
    exact hclosing hcomma.1.symm
  intro l l' X X' hl hl' heq
  cases l with
  | nil =>
      cases l' with
      | nil =>
          simp only [List.map_nil, enclosed, List.cons_append, List.nil_append, List.cons.injEq,
            true_and] at heq
          exact ⟨rfl, heq⟩
      | cons a' l' =>
          simp only [List.map_nil, List.map_cons, enclosed, List.cons_append, List.nil_append,
            List.append_assoc, List.cons.injEq, true_and] at heq
          exact absurd heq.symm (hstart a' _ _ (hl' a' List.mem_cons_self))
  | cons a l =>
      cases l' with
      | nil =>
          simp only [List.map_nil, List.map_cons, enclosed, List.cons_append, List.nil_append,
            List.append_assoc, List.cons.injEq, true_and] at heq
          exact absurd heq (hstart a _ _ (hl a List.mem_cons_self))
      | cons a' l' =>
          simp only [List.map_cons, enclosed, List.cons_append, List.nil_append,
            List.append_assoc, List.cons.injEq, true_and] at heq
          obtain ⟨rfl, htail⟩ :=
            h a a' _ _ (hl a List.mem_cons_self) (hl' a' List.mem_cons_self) heq
          obtain ⟨rfl, rfl⟩ := hrest (fun b hb => hl b (List.mem_cons_of_mem _ hb))
            (fun b hb => hl' b (List.mem_cons_of_mem _ hb)) htail
          exact ⟨rfl, rfl⟩

/-- The text of an array is delimited when those of its elements are. -/
theorem delimited_brackets {α : Type} {P : α → Prop} {code : α → List UInt16}
    (h : Delimited P code) (hstart : ∀ a X X', P a → code a ++ X ≠ 93 :: X') :
  Delimited (fun l : List α => ∀ a ∈ l, P a) (fun l => brackets (l.map code))
  := by
  simp only [brackets_eq_enclosed]
  exact delimited_enclosed h (by decide) hstart

/-! ### Characters -/

/-- The units are those of characters. -/
def IsText (us : List UInt16) : Prop := ∃ cs : List Char, us = (ofChars cs).units

theorem isText_nil :
  IsText []
  := ⟨[], rfl⟩

theorem IsText.append {us vs : List UInt16} (h : IsText us) (h' : IsText vs) :
  IsText (us ++ vs)
  := by
  obtain ⟨cs, rfl⟩ := h
  obtain ⟨ds, rfl⟩ := h'
  use cs ++ ds
  simp only [ofChars, List.flatMap_append]

theorem IsText.flatMap {α : Type} {l : List α} {f : α → List UInt16}
    (h : ∀ a ∈ l, IsText (f a)) :
  IsText (l.flatMap f)
  := by
  induction l with
  | nil => exact isText_nil
  | cons a l ih =>
      rw [List.flatMap_cons]
      apply (h a List.mem_cons_self).append
      exact ih (fun b hb => h b (List.mem_cons_of_mem _ hb))

theorem isText_unitsOfPoint {p : ℕ} (h : p.isValidChar) :
  IsText (unitsOfPoint p)
  := by
  use [charOf p]
  simp only [ofChars, List.flatMap_singleton, toNat_charOf h]

/-- Units of ASCII characters. -/
theorem isText_ascii {us : List UInt16} (h : ∀ u ∈ us, u.toNat < 128) :
  IsText us
  := by
  have hunits : us = us.flatMap (fun u => unitsOfPoint u.toNat) := by
    simp only [unitsOfPoint_toNat, List.flatMap_singleton']
  rw [hunits]
  apply IsText.flatMap
  intro u hu
  apply isText_unitsOfPoint
  have hsmall := h u hu
  simp only [Nat.isValidChar]
  omega

/-- The unit of an ASCII character. -/
theorem isText_unit {u : UInt16} (h : u.toNat < 128) :
  IsText [u]
  := by
  apply isText_ascii
  intro v hv
  rw [List.mem_singleton.mp hv]
  exact h

theorem isText_ofString (text : String) :
  IsText (ofString text).units
  := ⟨text.toList, rfl⟩

/-- Units of characters contain no lone surrogate. -/
theorem IsText.isWellFormed {s : JsString} (h : IsText s.units) :
  s.isWellFormed = true
  := by
  obtain ⟨cs, hunits⟩ := h
  have hwell := isWellFormed_ofChars cs
  rw [JsString.isWellFormed, ← hunits] at hwell
  exact hwell

theorem isText_escape {p : ℕ} (h : IsPoint p) :
  IsText (escape p)
  := by
  have hhex : ∀ d, (hexUnit (d % 16)).toNat < 128 := by
    intro d
    have hd : d % 16 < 16 := Nat.mod_lt _ (by decide)
    generalize d % 16 = e at hd
    interval_cases e <;> decide
  have hletter : ∀ u : UInt16, u.toNat < 128 → IsText [92, u] := by
    intro u hu
    apply isText_ascii
    intro v hv
    simp only [List.mem_cons, List.not_mem_nil, or_false] at hv
    obtain rfl | rfl := hv
    · decide
    · exact hu
  unfold escape
  split
  · exact hletter 98 (by decide)
  split
  · exact hletter 116 (by decide)
  split
  · exact hletter 110 (by decide)
  split
  · exact hletter 102 (by decide)
  split
  · exact hletter 114 (by decide)
  split
  · exact hletter 34 (by decide)
  split
  · exact hletter 92 (by decide)
  split
  · apply isText_ascii
    intro u hu
    simp only [unicodeEscape, List.mem_cons, List.not_mem_nil, or_false] at hu
    obtain rfl | rfl | rfl | rfl | rfl | rfl := hu
    · decide
    · decide
    · exact hhex _
    · exact hhex _
    · exact hhex _
    · exact hhex p
  · apply isText_unitsOfPoint
    unfold IsPoint at h
    simp only [Nat.isValidChar]
    omega

theorem isText_quote (s : JsString) :
  IsText (quote s)
  := by
  have hmark : IsText [34] := isText_unit (by decide)
  have hpoints : IsText (s.codePoints.flatMap escape) :=
    IsText.flatMap (fun p hp => isText_escape (isPoint_of_mem p hp))
  exact (hmark.append hpoints).append hmark

theorem isText_enclosed {opening closing : UInt16} {texts : List (List UInt16)}
    (hopening : opening.toNat < 128) (hclosing : closing.toNat < 128)
    (h : ∀ element ∈ texts, IsText element) :
  IsText (enclosed opening closing texts)
  := by
  have hopen : IsText [opening] := isText_unit hopening
  have hclose : IsText [closing] := isText_unit hclosing
  have hcomma : IsText [44] := isText_unit (by decide)
  cases texts with
  | nil => exact hopen.append hclose
  | cons first rest =>
      have hfirst := h first List.mem_cons_self
      have hrest : IsText (rest.flatMap (fun element => 44 :: element)) := by
        apply IsText.flatMap
        intro element helement
        exact hcomma.append (h element (List.mem_cons_of_mem _ helement))
      exact ((hopen.append hfirst).append hrest).append hclose

theorem isText_brackets {texts : List (List UInt16)} (h : ∀ element ∈ texts, IsText element) :
  IsText (brackets texts)
  := by
  rw [brackets_eq_enclosed]
  exact isText_enclosed (by decide) (by decide) h

/-- A text is read back from its bytes, unless it begins with a byte order mark. -/
theorem decodeUtf8_of_isText {s : JsString} (h : IsText s.units)
    (hmark : s.units.head? ≠ some 0xFEFF) :
  decodeUtf8 s.encodeUtf8 = some s
  := by
  obtain ⟨cs, hunits⟩ := h
  have hs : s = ofChars cs := by
    obtain ⟨us⟩ := s
    exact congrArg JsString.mk hunits
  subst hs
  rw [decodeUtf8, encodeUtf8, chars_ofChars, utf8Encode_chars, Option.map_some, stripMark_eq]
  intro hhead
  apply hmark
  cases cs with
  | nil => cases hhead
  | cons c cs =>
      cases hhead
      rfl

end JsString
