import GoLike.Lib.JsonWriter
import GoLike.Lib.Utf8Order
import GoLike.Store.Base64Exact
import Mathlib.Data.List.DropRight

/-!
# The pages of a prefix

A page of the keys that begin with a prefix is a range of the keys of etcd, compared byte by
byte. Where more rows follow a page, the Store issues a cursor: the text of a JSON document in
Base64url that names the prefix, the last key of the page and the revision that the pages are
read at.
-/

open Store JsString

namespace Store.Etcd

/-! ### Ranges -/

/-- Bytes whose last one is incremented. -/
def incrementLast : List UInt8 → List UInt8
  | [] => []
  | [byte] => [byte + 1]
  | byte :: next :: rest => byte :: incrementLast (next :: rest)

/-- The end of the range of a prefix. -/
def prefixRangeEnd (selected : JsString) : JsString :=
  let bytes := selected.encodeUtf8
  if bytes.length = 0 then Base64.encodeBase64 [0] else Base64.encodeBase64 (incrementLast bytes)

/-- Encode a string for the gateway. -/
def encodeText (value : JsString) : JsString := Base64.encodeBase64 value.encodeUtf8

/-- The start of the range of a page, which follows a last key. -/
def pageStart (selected : JsString) : Option JsString → JsString
  | some lastKey => encodeText (lastKey ++ ⟨[0]⟩)
  | none => if selected.isEmpty then Base64.encodeBase64 [0] else encodeText selected

/-- A key is in the range that a request with these fields selects. The end that is one zero
byte selects all the keys from the start on. -/
def InRange (start stop key : JsString) : Prop :=
  ∃ first last : List UInt8, start = Base64.encodeBase64 first ∧ stop = Base64.encodeBase64 last ∧
    first.map UInt8.toNat ≤ key.byteValues ∧
    (last = [0] ∨ key.byteValues < last.map UInt8.toNat)

/-! ### Revisions -/

/-- A positive number in decimal digits, the first of them not zero. -/
def isPositiveDecimal (value : JsString) : Bool :=
  value.units.all isDigit && value.units.head?.any (fun u => u ≠ 48)

/-- The greatest signed integer of 64 bits. -/
def maximumInt64 : ℕ := 9223372036854775807

/-- Validate a positive revision. -/
def compareRevision (value : JsString) : Except StoreError JsString :=
  if ¬ isPositiveDecimal value then
    .error (.typeError "etcd Store revision must be a positive decimal string")
  else if value.decimalValue > maximumInt64 then
    .error (.rangeError "etcd Store revision exceeds signed int64")
  else .ok value

/-- The revision of a response header, which may be zero. -/
def isRevisionDecimal (value : JsString) : Bool :=
  value = ofNat 0 || isPositiveDecimal value && value.decimalValue ≤ maximumInt64

/-! ### Cursors -/

/-- What a cursor names. -/
structure EtcdCursor where
  selected : JsString
  lastKey : JsString
  revision : JsString
  deriving DecidableEq

/-- The document of a cursor. -/
def cursorDocument (cursor : EtcdCursor) : Json :=
  .object
    [(name "version", .number (.ofNat 1)), (name "prefix", .string cursor.selected),
      (name "lastKey", .string cursor.lastKey), (name "revision", .string cursor.revision)]

/-- The text of the document of a cursor. -/
def cursorText (cursor : EtcdCursor) : JsString :=
  ⟨123 :: (ofString "\"version\":1,\"prefix\":").units ++ quote cursor.selected ++
    (ofString ",\"lastKey\":").units ++ quote cursor.lastKey ++
    (ofString ",\"revision\":").units ++ quote cursor.revision ++ [125]⟩

/-- The symbol of Base64url for a symbol of base64. -/
def toUrl (unit : UInt16) : UInt16 := if unit = 43 then 45 else if unit = 47 then 95 else unit

/-- The symbol of base64 for a symbol of Base64url. -/
def ofUrl (unit : UInt16) : UInt16 := if unit = 45 then 43 else if unit = 95 then 47 else unit

/-- A symbol of Base64url. -/
def isUrlSymbol (unit : UInt16) : Bool :=
  65 ≤ unit.toNat && unit.toNat ≤ 90 || 97 ≤ unit.toNat && unit.toNat ≤ 122 || isDigit unit ||
    unit = 95 || unit = 45

/-- Encode a cursor. -/
def encodeCursor (cursor : EtcdCursor) : JsString :=
  ⟨((Base64.encodeBase64 (cursorText cursor).encodeUtf8).units.map toUrl).rdropWhile
    (fun unit => unit = Base64.pad)⟩

/-- What decoding a cursor throws. -/
def invalidCursor : StoreError := .typeError "etcd Store cursor is invalid"

/-- The most bytes of the text of a cursor that are decoded. -/
def maximumCursorBytes : ℕ := 8192

/-- The symbols of a cursor, and the padding that completes a group of four. -/
def paddedUnits (units : List UInt16) : List UInt16 :=
  units.map ofUrl ++ List.replicate ((4 - units.length % 4) % 4) Base64.pad

/-- The cursor of a parsed document. -/
def cursorOf (selected : JsString) : Json → Except StoreError EtcdCursor
  | .object properties =>
      if ¬ hasKeys properties [name "lastKey", name "prefix", name "revision", name "version"] then
        .error invalidCursor
      else
        match Json.property properties (name "lastKey"), Json.property properties (name "revision")
        with
        | some (.string lastKey), some (.string revision) =>
            if Json.property properties (name "version") ≠ some (.number (.ofNat 1)) ∨
                Json.property properties (name "prefix") ≠ some (.string selected) ∨
                lastKey.isEmpty ∨ ¬ lastKey.isWellFormed then
              .error invalidCursor
            else if (storeKey lastKey).toOption = none ∨
                (compareRevision revision).toOption = none then .error invalidCursor
            else if ¬ lastKey.startsWith selected then .error invalidCursor
            else .ok ⟨selected, lastKey, revision⟩
        | _, _ => .error invalidCursor
  | _ => .error invalidCursor

/-- Decode a cursor for a prefix. The parser of JSON texts is a parameter. -/
def decodeCursor (parse : JsString → Option Json) (value selected : JsString) :
    Except StoreError EtcdCursor :=
  if value.units = [] ∨ ¬ value.units.all isUrlSymbol then .error invalidCursor
  else
    let decoded :=
      Base64.decodeBounded (Base64.Refusals.mk () () ()) (.string ⟨paddedUnits value.units⟩)
        maximumCursorBytes
    match decoded.toOption.bind (fun bytes => (decodeUtf8 bytes).bind parse) with
    | none => .error invalidCursor
    | some document => cursorOf selected document

/-! ### Pages -/

/-- The validated response to the request of a page. -/
structure PrefixPage where
  revision : JsString
  rows : List EtcdRow
  more : Bool
  revision_valid : isRevisionDecimal revision = true
  rows_valid : ∀ row ∈ rows, storeKey row.record.key.val = .ok row.record.key

/-- Each row has the prefix, and each key is greater than the one before. -/
def rowsFollow (selected : JsString) : Option Key → List EtcdRow → Bool
  | _, [] => true
  | previous, row :: rest =>
      row.record.key.val.startsWith selected &&
        previous.all (fun key => compareStoreKeys key row.record.key = .lt) &&
        rowsFollow selected (some row.record.key) rest

/-- The response is one to a request with this last key and limit. -/
def acceptsPage (selected : JsString) (lastKey : Option Key) (limit : Option ℕ)
    (page : PrefixPage) : Bool :=
  !(page.more && (limit.isNone || page.rows.isEmpty)) && rowsFollow selected lastKey page.rows

/-- The revision that the pages are read at: that of the cursor, or of the first response. -/
def pagesRevision (continuation : Option EtcdCursor) (page : PrefixPage) : JsString :=
  match continuation with
  | some cursor => cursor.revision
  | none => page.revision

/-- The cursor that a list issues with a page. -/
def nextCursor {ε : Type} (violation : ε) (selected : JsString)
    (continuation : Option EtcdCursor) (page : PrefixPage) : Except ε (Option JsString) :=
  if page.more then
    match page.rows.getLast? with
    | none => .error violation
    | some final =>
        let revision := pagesRevision continuation page
        if revision = ofNat 0 then .error violation
        else .ok (some (encodeCursor ⟨selected, final.record.key.val, revision⟩))
  else .ok none

/-! ### The ranges are those of the prefix -/

theorem encodeBase64_injective :
  Function.Injective Base64.encodeBase64
  := by
  intro a b h
  have ha : Base64.decodeBase64 (Base64.encodeBase64 a) (a.length + b.length) = .ok a :=
    Base64.decodeBase64_encodeBase64 (Nat.le_add_right _ _)
  have hb : Base64.decodeBase64 (Base64.encodeBase64 b) (a.length + b.length) = .ok b :=
    Base64.decodeBase64_encodeBase64 (Nat.le_add_left _ _)
  rw [h, hb] at ha
  cases ha
  rfl

theorem inRange_iff (first last : List UInt8) (key : JsString) :
  InRange (Base64.encodeBase64 first) (Base64.encodeBase64 last) key ↔
    first.map UInt8.toNat ≤ key.byteValues ∧
      (last = [0] ∨ key.byteValues < last.map UInt8.toNat)
  := by
  constructor
  · rintro ⟨first', last', hfirst, hlast, h⟩
    rw [encodeBase64_injective hfirst, encodeBase64_injective hlast]
    exact h
  · intro h
    exact ⟨first, last, rfl, rfl, h⟩

theorem incrementLast_append (init : List UInt8) (byte : UInt8) :
  incrementLast (init ++ [byte]) = init ++ [byte + 1]
  := by
  induction init with
  | nil => rfl
  | cons a init ih =>
      cases init with
      | nil => rfl
      | cons b init =>
          have hcons : incrementLast (a :: b :: init ++ [byte]) =
              a :: incrementLast (b :: init ++ [byte]) := rfl
          rw [hcons, ih]
          rfl

theorem encodeUtf8_eq_nil_iff {s : JsString} :
  s.encodeUtf8 = [] ↔ s.isEmpty = true
  := by
  obtain ⟨units⟩ := s
  cases units with
  | nil => exact ⟨fun _ => rfl, fun _ => rfl⟩
  | cons u rest =>
      have hpoints : pointsOf (u :: rest) ≠ [] := by
        cases rest with
        | nil => simp [pointsOf]
        | cons v rest =>
            rw [pointsOf]
            split
            · exact List.cons_ne_nil _ _
            · exact List.cons_ne_nil _ _
      constructor
      · intro h
        exfalso
        obtain ⟨p, hp⟩ := List.exists_mem_of_ne_nil _ hpoints
        rw [encodeUtf8, List.flatMap_eq_nil_iff] at h
        exact String.utf8EncodeChar_ne_nil (h (charOf p) (List.mem_map_of_mem hp))
      · rintro ⟨⟩

/-- The bytes of the end of the range of a prefix. -/
def rangeEndBytes (selected : JsString) : List UInt8 :=
  if selected.encodeUtf8.length = 0 then [0] else incrementLast selected.encodeUtf8

theorem prefixRangeEnd_eq (selected : JsString) :
  prefixRangeEnd selected = Base64.encodeBase64 (rangeEndBytes selected)
  := by
  simp only [prefixRangeEnd, rangeEndBytes]
  split
  · rfl
  · rfl

theorem startsWith_of_isEmpty {selected : JsString} (h : selected.isEmpty = true) (key : JsString) :
  key.startsWith selected = true
  := by
  obtain ⟨units⟩ := selected
  cases units with
  | nil => rfl
  | cons u rest => cases h

/-- Between the bytes of a prefix and the end of its range are the keys that begin with it. -/
theorem range_iff {selected key : JsString} (hselected : selected.isWellFormed = true)
    (hkey : key.isWellFormed = true) :
  selected.byteValues ≤ key.byteValues ∧
      (rangeEndBytes selected = [0] ∨
        key.byteValues < (rangeEndBytes selected).map UInt8.toNat) ↔
    key.startsWith selected = true
  := by
  obtain hnil | ⟨init, byte, hbytes⟩ := List.eq_nil_or_concat' selected.encodeUtf8
  · have hempty := encodeUtf8_eq_nil_iff.mp hnil
    have hvalues : selected.byteValues = [] := by rw [byteValues, hnil, List.map_nil]
    rw [startsWith_of_isEmpty hempty, hvalues, rangeEndBytes, if_pos (by rw [hnil]; rfl)]
    simp only [LexRange.nil_le, true_or, and_self]
  · have hvalues : selected.byteValues = init.map UInt8.toNat ++ [byte.toNat] := by
      rw [byteValues, hbytes, List.map_append, List.map_singleton]
    have hbyte : byte.toNat < 255 := by
      apply byteValues_lt_255 (s := selected)
      rw [hvalues]
      exact List.mem_append_right _ (List.mem_singleton_self _)
    have hnext : (byte + 1).toNat = byte.toNat + 1 := by
      have hone : (1 : UInt8).toNat = 1 := rfl
      rw [UInt8.toNat_add, hone]
      exact Nat.mod_eq_of_lt (by omega)
    have hend : rangeEndBytes selected = init ++ [byte + 1] := by
      rw [rangeEndBytes, hbytes, if_neg (by simp), incrementLast_append]
    have hends : (rangeEndBytes selected).map UInt8.toNat =
        init.map UInt8.toNat ++ [byte.toNat + 1] := by
      rw [hend, List.map_append, List.map_singleton, hnext]
    have hzero : rangeEndBytes selected ≠ [0] := by
      intro heq
      have hlast := congrArg (fun l => (l.map UInt8.toNat).getLast?) heq
      simp only [hends, List.getLast?_append, List.getLast?_singleton, Option.some_or,
        List.map_singleton, Option.some.injEq] at hlast
      exact absurd hlast (Nat.succ_ne_zero _)
    rw [← byteValues_prefix_iff hselected hkey, hvalues, hends,
      ← LexRange.mem_range_iff (Order.covBy_add_one byte.toNat)]
    simp only [hzero, false_or]

/-- The range of a first page covers exactly the prefix. -/
theorem firstPage_covers {selected : ExactString false} {key : Key} :
  InRange (pageStart selected.val none) (prefixRangeEnd selected.val) key.val ↔
    key.val.startsWith selected.val = true
  := by
  rw [prefixRangeEnd_eq, ← range_iff selected.property.1 key.property.1]
  by_cases hempty : selected.val.isEmpty = true
  · have hvalues : selected.val.byteValues = [] := by
      rw [byteValues, encodeUtf8_eq_nil_iff.mpr hempty, List.map_nil]
    have hstart : pageStart selected.val none = Base64.encodeBase64 [0] := by
      rw [pageStart, if_pos hempty]
    rw [hstart, inRange_iff, hvalues]
    simp only [LexRange.nil_le, true_and, and_iff_right_iff_imp]
    intro _
    have hne : key.val.byteValues ≠ [] := by
      intro hnil
      have hkey := encodeUtf8_eq_nil_iff.mp (List.map_eq_nil_iff.mp hnil)
      rw [key.property.2 rfl] at hkey
      cases hkey
    obtain ⟨b, rest, hb⟩ := List.exists_cons_of_ne_nil hne
    rw [hb]
    apply LexRange.cons_le_cons_iff.mpr
    obtain hpos | hzero := Nat.eq_zero_or_pos b
    · exact Or.inr ⟨hpos.symm, LexRange.nil_le rest⟩
    · exact Or.inl hzero
  · have hstart : pageStart selected.val none = encodeText selected.val := by
      rw [pageStart, if_neg hempty]
    rw [hstart, encodeText, inRange_iff]
    rfl

theorem encodeUtf8_append_zero {s : JsString} (h : s.isWellFormed = true) :
  (s ++ (⟨[0]⟩ : JsString)).byteValues = s.byteValues ++ [0]
  := by
  have hzero : (⟨[0]⟩ : JsString) = ofChars [Char.ofNat 0] := rfl
  conv_lhs => rw [← ofChars_chars h, hzero, ← ofChars_append]
  rw [byteValues, byteValues, encodeUtf8_ofChars, List.flatMap_append, List.map_append]
  rfl

/-- The range of a page that follows a key covers what of the prefix is greater than it. -/
theorem nextPage_covers {selected : ExactString false} {lastKey key : Key}
    (h : lastKey.val.startsWith selected.val = true) :
  InRange (pageStart selected.val (some lastKey.val)) (prefixRangeEnd selected.val) key.val ↔
    key.val.startsWith selected.val = true ∧ compareStoreKeys lastKey key = .lt
  := by
  have hstart : (lastKey.val ++ (⟨[0]⟩ : JsString)).encodeUtf8.map UInt8.toNat ≤
      key.val.byteValues ↔ lastKey.val.byteValues < key.val.byteValues := by
    have hbytes := encodeUtf8_append_zero lastKey.property.1
    rw [byteValues] at hbytes
    rw [hbytes]
    exact LexRange.append_bot_le_iff _ _
  have hcompare : compareStoreKeys lastKey key = .lt ↔
      lastKey.val.byteValues < key.val.byteValues := by
    rw [byteValues_lt_iff lastKey.property.1 key.property.1, compareStoreKeys_eq,
      compareOfLessAndEq_eq_lt]
  have hle : selected.val.byteValues ≤ lastKey.val.byteValues :=
    ((range_iff selected.property.1 lastKey.property.1).mpr h).1
  rw [prefixRangeEnd_eq, pageStart, encodeText, inRange_iff, hstart, hcompare,
    ← range_iff selected.property.1 key.property.1]
  constructor
  · rintro ⟨hlt, hend⟩
    exact ⟨⟨hle.trans hlt.le, hend⟩, hlt⟩
  · rintro ⟨⟨-, hend⟩, hlt⟩
    exact ⟨hlt, hend⟩

/-! ### The bytes of the text of a cursor -/

/-- The bytes of a code point in a JSON string. -/
def escapedPointBytes (p : ℕ) : ℕ :=
  if p = 8 ∨ p = 9 ∨ p = 10 ∨ p = 12 ∨ p = 13 ∨ p = 34 ∨ p = 92 then 2
  else if p < 32 then 6
  else pointBytes p

/-- The bytes of a string in a JSON text, without its quotation marks. -/
def escapedBytes (s : JsString) : ℕ := (s.codePoints.map escapedPointBytes).sum

theorem encodeUtf8_append_of_isText {us vs : List UInt16} (h : IsText us) (h' : IsText vs) :
  (JsString.mk (us ++ vs)).encodeUtf8 = (JsString.mk us).encodeUtf8 ++ (JsString.mk vs).encodeUtf8
  := by
  obtain ⟨cs, rfl⟩ := h
  obtain ⟨ds, rfl⟩ := h'
  have happend : JsString.mk ((ofChars cs).units ++ (ofChars ds).units) = ofChars (cs ++ ds) :=
    (ofChars_append cs ds).symm
  rw [happend, encodeUtf8_ofChars, encodeUtf8_ofChars, encodeUtf8_ofChars, List.flatMap_append]

/-- The number of bytes of a text. -/
def textBytes (us : List UInt16) : ℕ := (JsString.mk us).encodeUtf8.length

theorem textBytes_append {us vs : List UInt16} (h : IsText us) (h' : IsText vs) :
  textBytes (us ++ vs) = textBytes us + textBytes vs
  := by
  rw [textBytes, encodeUtf8_append_of_isText h h', List.length_append]
  rfl

theorem textBytes_flatMap {α : Type} {l : List α} {f : α → List UInt16}
    (h : ∀ a ∈ l, IsText (f a)) :
  textBytes (l.flatMap f) = (l.map (fun a => textBytes (f a))).sum
  := by
  induction l with
  | nil => rfl
  | cons a l ih =>
      have hrest : ∀ b ∈ l, IsText (f b) := fun b hb => h b (List.mem_cons_of_mem _ hb)
      rw [List.flatMap_cons, textBytes_append (h a List.mem_cons_self) (IsText.flatMap hrest),
        ih hrest, List.map_cons, List.sum_cons]

theorem textBytes_unitsOfPoint {p : ℕ} (h : p.isValidChar) :
  textBytes (unitsOfPoint p) = pointBytes p
  := by
  have htext : JsString.mk (unitsOfPoint p) = ofChars [charOf p] := by
    simp only [ofChars, List.flatMap_singleton, toNat_charOf h]
  rw [textBytes, htext, encodeUtf8_ofChars, List.flatMap_singleton]
  have hvalues : (String.utf8EncodeChar (charOf p)).length = (charValues (charOf p)).length :=
    (List.length_map _).symm
  rw [hvalues]
  have hpoint := toNat_charOf h
  obtain ⟨hc, h⟩ | ⟨hc, hc', h⟩ | ⟨hc, hc', h⟩ | ⟨hc, hc', h⟩ := charValues_cases (charOf p)
  all_goals
    rw [hpoint] at hc
    rw [h]
    simp only [pointBytes, List.length_cons, List.length_nil]
  · rw [if_pos hc]
  · rw [hpoint] at hc'
    rw [if_neg (by omega), if_pos hc']
  · rw [hpoint] at hc'
    rw [if_neg (by omega), if_neg (by omega), if_pos hc']
  · rw [if_neg (by omega), if_neg (by omega), if_neg (by omega)]

/-- What a test finds of the units of a list. -/
theorem forall_of_all {us : List UInt16} {p : UInt16 → Prop} [DecidablePred p]
    (h : us.all (fun u => decide (p u)) = true) :
  ∀ u ∈ us, p u
  := by
  intro u hu
  exact of_decide_eq_true (List.all_eq_true.1 h u hu)

theorem textBytes_ascii {us : List UInt16} (h : ∀ u ∈ us, u.toNat < 128) :
  textBytes us = us.length
  := by
  have hunits : us = us.flatMap (fun u => unitsOfPoint u.toNat) := by
    simp only [unitsOfPoint_toNat, List.flatMap_singleton']
  have hvalid : ∀ u ∈ us, u.toNat.isValidChar := by
    intro u hu
    have hsmall := h u hu
    simp only [Nat.isValidChar]
    omega
  have hbytes : us.map (fun u => textBytes (unitsOfPoint u.toNat)) = us.map (fun _ => 1) := by
    apply List.map_congr_left
    intro u hu
    rw [textBytes_unitsOfPoint (hvalid u hu), pointBytes, if_pos (h u hu)]
  conv_lhs => rw [hunits]
  rw [textBytes_flatMap (fun u hu => isText_unitsOfPoint (hvalid u hu)), hbytes]
  simp

theorem textBytes_escape {p : ℕ} (h : p.isValidChar) :
  textBytes (escape p) = escapedPointBytes p
  := by
  unfold escape escapedPointBytes
  split
  case isTrue hp =>
    subst hp
    decide
  split
  case isTrue hp =>
    subst hp
    decide
  split
  case isTrue hp =>
    subst hp
    decide
  split
  case isTrue hp =>
    subst hp
    decide
  split
  case isTrue hp =>
    subst hp
    decide
  split
  case isTrue hp =>
    subst hp
    decide
  split
  case isTrue hp =>
    subst hp
    decide
  have hletters : ¬ (p = 8 ∨ p = 9 ∨ p = 10 ∨ p = 12 ∨ p = 13 ∨ p = 34 ∨ p = 92) := by omega
  rw [if_neg hletters]
  split
  case isTrue hcontrol =>
    have hsmall : p < 32 := by
      simp only [Nat.isValidChar] at h
      omega
    rw [if_pos hsmall]
    have hhex : ∀ d, (hexUnit (d % 16)).toNat < 128 := by
      intro d
      have hd : d % 16 < 16 := Nat.mod_lt _ (by decide)
      generalize d % 16 = e at hd
      interval_cases e <;> decide
    apply textBytes_ascii
    intro u hu
    simp only [unicodeEscape, List.mem_cons, List.not_mem_nil, or_false] at hu
    obtain rfl | rfl | rfl | rfl | rfl | rfl := hu
    · decide
    · decide
    · exact hhex _
    · exact hhex _
    · exact hhex _
    · exact hhex p
  case isFalse hcontrol =>
    have hlarge : ¬ p < 32 := fun hlt => hcontrol (Or.inl hlt)
    rw [if_neg hlarge, textBytes_unitsOfPoint h]

theorem textBytes_quote {s : JsString} (h : s.isWellFormed = true) :
  textBytes (quote s) = escapedBytes s + 2
  := by
  have hmark : IsText [34] := isText_unit (by decide)
  have hescape : ∀ p ∈ s.codePoints, IsText (escape p) :=
    fun p hp => isText_escape (isPoint_of_mem p hp)
  have hpoints : s.codePoints.map (fun p => textBytes (escape p)) =
      s.codePoints.map escapedPointBytes := by
    apply List.map_congr_left
    intro p hp
    exact textBytes_escape (isValidChar_of_wellFormed h p hp)
  have hquotation : textBytes [34] = 1 := by decide
  rw [quote, List.cons_append, ← List.singleton_append,
    textBytes_append hmark ((IsText.flatMap hescape).append hmark),
    textBytes_append (IsText.flatMap hescape) hmark, textBytes_flatMap hescape, hpoints,
    hquotation, escapedBytes]
  omega

/-- The strings of a cursor are well formed. -/
structure EtcdCursor.WellFormed (cursor : EtcdCursor) : Prop where
  selected : cursor.selected.isWellFormed = true
  lastKey : cursor.lastKey.isWellFormed = true
  revision : cursor.revision.isWellFormed = true

/-- The bytes of the text of a cursor: those of its strings, and those of the rest. -/
def cursorBytes (cursor : EtcdCursor) : ℕ :=
  escapedBytes cursor.selected + escapedBytes cursor.lastKey + escapedBytes cursor.revision + 52

/-- The parts that the text of a cursor is joined from. -/
def cursorParts (cursor : EtcdCursor) : List (List UInt16) :=
  [[123], (ofString "\"version\":1,\"prefix\":").units, quote cursor.selected,
    (ofString ",\"lastKey\":").units, quote cursor.lastKey,
    (ofString ",\"revision\":").units, quote cursor.revision, [125]]

theorem cursorText_units (cursor : EtcdCursor) :
  (cursorText cursor).units = (cursorParts cursor).flatMap id
  := by
  simp only [cursorText, cursorParts, List.flatMap_cons, List.flatMap_nil, id, List.append_nil,
    List.append_assoc, List.cons_append, List.nil_append]

theorem isText_cursorParts (cursor : EtcdCursor) :
  ∀ part ∈ cursorParts cursor, IsText part
  := by
  intro part hpart
  simp only [cursorParts, List.mem_cons, List.not_mem_nil, or_false] at hpart
  obtain rfl | rfl | rfl | rfl | rfl | rfl | rfl | rfl := hpart
  · exact isText_unit (by decide)
  · exact isText_ofString _
  · exact isText_quote _
  · exact isText_ofString _
  · exact isText_quote _
  · exact isText_ofString _
  · exact isText_quote _
  · exact isText_unit (by decide)

theorem isText_cursorText (cursor : EtcdCursor) :
  IsText (cursorText cursor).units
  := by
  rw [cursorText_units]
  apply IsText.flatMap
  exact isText_cursorParts cursor

theorem length_cursorText {cursor : EtcdCursor} (h : cursor.WellFormed) :
  (cursorText cursor).encodeUtf8.length = cursorBytes cursor
  := by
  have hbytes : (cursorText cursor).encodeUtf8.length = textBytes (cursorText cursor).units := rfl
  have hopen : textBytes [123] = 1 := by decide
  have hclose : textBytes [125] = 1 := by decide
  have hversion : textBytes (ofString "\"version\":1,\"prefix\":").units = 21 := by
    rw [textBytes_ascii (forall_of_all (by decide))]
    decide
  have hlastKey : textBytes (ofString ",\"lastKey\":").units = 11 := by
    rw [textBytes_ascii (forall_of_all (by decide))]
    decide
  have hrevision : textBytes (ofString ",\"revision\":").units = 12 := by
    rw [textBytes_ascii (forall_of_all (by decide))]
    decide
  rw [hbytes, cursorText_units, textBytes_flatMap (f := id) (isText_cursorParts cursor)]
  simp only [cursorParts, List.map_cons, List.map_nil, List.sum_cons, List.sum_nil, id, hopen,
    hclose, hversion, hlastKey, hrevision, textBytes_quote h.selected, textBytes_quote h.lastKey,
    textBytes_quote h.revision, cursorBytes]
  omega

/-! ### Decoding what was encoded -/

theorem ofUrl_toUrl {u : UInt16} (h : u ∈ Base64.Base64Alphabet) :
  ofUrl (toUrl u) = u ∧ isUrlSymbol (toUrl u) = true ∧ toUrl u ≠ Base64.pad
  := by
  have hall : ∀ u ∈ Base64.Base64Alphabet,
      ofUrl (toUrl u) = u ∧ isUrlSymbol (toUrl u) = true ∧ toUrl u ≠ Base64.pad :=
    forall_of_all (by decide)
  exact hall u h

/-- The padding is stripped, and nothing else. -/
theorem rdropWhile_symbols {symbols : List UInt16} (n : ℕ)
    (h : ∀ u ∈ symbols, u ∈ Base64.Base64Alphabet) :
  ((symbols ++ List.replicate n Base64.pad).map toUrl).rdropWhile (fun u => u = Base64.pad) =
    symbols.map toUrl
  := by
  have hpad : toUrl Base64.pad = Base64.pad := by decide
  rw [List.map_append, List.map_replicate, hpad]
  induction n with
  | zero =>
      rw [List.replicate_zero, List.append_nil]
      apply List.rdropWhile_eq_self_iff.mpr
      intro hne
      have hlast := List.getLast_mem hne
      obtain ⟨u, hu, heq⟩ := List.mem_map.mp hlast
      rw [← heq]
      simpa using (ofUrl_toUrl (h u hu)).2.2
  | succ n ih =>
      rw [List.replicate_succ', ← List.append_assoc, List.rdropWhile_concat_pos _ _ _ (by simp), ih]

/-- A cursor is Base64url, and padding it gives the encoded text back. -/
theorem encodeCursor_units (cursor : EtcdCursor) :
  (encodeCursor cursor).units ≠ [] ∧ (encodeCursor cursor).units.all isUrlSymbol = true ∧
    (⟨paddedUnits (encodeCursor cursor).units⟩ : JsString) =
      Base64.encodeBase64 (cursorText cursor).encodeUtf8
  := by
  obtain ⟨symbols, hsymbols, hmem, hlength⟩ := Base64.encodeUnits_eq (cursorText cursor).encodeUtf8
  have hunits : (encodeCursor cursor).units = symbols.map toUrl := by
    simp only [encodeCursor, Base64.encodeBase64]
    rw [hsymbols, rdropWhile_symbols _ hmem]
  have hback : (symbols.map toUrl).map ofUrl = symbols := by
    rw [List.map_map]
    conv_rhs => rw [← List.map_id symbols]
    apply List.map_congr_left
    intro u hu
    exact (ofUrl_toUrl (hmem u hu)).1
  have hmissing : (4 - symbols.length % 4) % 4 = Base64.missing (cursorText cursor).encodeUtf8 := by
    have hle : Base64.missing (cursorText cursor).encodeUtf8 ≤ 2 := by
      simp only [Base64.missing]
      omega
    omega
  refine ⟨?_, ?_, ?_⟩
  · intro hnil
    rw [hunits, List.map_eq_nil_iff] at hnil
    have hbytes : (cursorText cursor).encodeUtf8 ≠ [] := by
      intro hempty
      have hnone := encodeUtf8_eq_nil_iff.mp hempty
      cases hnone
    have hpos := List.length_pos_of_ne_nil hbytes
    rw [hnil] at hlength
    simp only [List.length_nil, Base64.missing] at hlength
    omega
  · rw [hunits, List.all_eq_true]
    intro u hu
    obtain ⟨v, hv, rfl⟩ := List.mem_map.mp hu
    exact (ofUrl_toUrl (hmem v hv)).2.1
  · rw [hunits, paddedUnits, hback, List.length_map, hmissing, Base64.encodeBase64, hsymbols]

theorem decodeUtf8_cursorText (cursor : EtcdCursor) :
  decodeUtf8 (cursorText cursor).encodeUtf8 = some (cursorText cursor)
  := by
  apply decodeUtf8_of_isText (isText_cursorText cursor)
  have hhead : (cursorText cursor).units.head? = some 123 := rfl
  rw [hhead]
  decide

/-- The text of a cursor beyond the bound is not decoded. -/
theorem decodeCursor_refuses (parse : JsString → Option Json) {cursor : EtcdCursor}
    (h : cursor.WellFormed) (hbytes : maximumCursorBytes < cursorBytes cursor)
    (selected : JsString) :
  decodeCursor parse (encodeCursor cursor) selected = .error invalidCursor
  := by
  obtain ⟨hne, hall, hpadded⟩ := encodeCursor_units cursor
  rw [decodeCursor, if_neg (by simp [hne, hall])]
  simp only [hpadded]
  cases hdecode : Base64.decodeBounded (Base64.Refusals.mk () () ())
      (.string (Base64.encodeBase64 (cursorText cursor).encodeUtf8)) maximumCursorBytes with
  | error e => rfl
  | ok bytes =>
      obtain ⟨hsame, hbound⟩ := (Base64.decodeBounded_eq_ok_iff _ _ _ _).mp hdecode
      rw [← encodeBase64_injective hsame, length_cursorText h] at hbound
      exact absurd hbound (not_le.mpr hbytes)

/-- The text of a cursor is decoded when it is within the bound. -/
theorem decodeCursor_accepts (parse : JsString → Option Json) {cursor : EtcdCursor}
    (h : cursor.WellFormed) (hbytes : cursorBytes cursor ≤ maximumCursorBytes)
    (hparse : parse (cursorText cursor) = some (cursorDocument cursor)) (selected : JsString) :
  decodeCursor parse (encodeCursor cursor) selected = cursorOf selected (cursorDocument cursor)
  := by
  obtain ⟨hne, hall, hpadded⟩ := encodeCursor_units cursor
  have hdecode : Base64.decodeBounded (Base64.Refusals.mk () () ())
      (.string (Base64.encodeBase64 (cursorText cursor).encodeUtf8)) maximumCursorBytes =
        .ok (cursorText cursor).encodeUtf8 := by
    apply (Base64.decodeBounded_eq_ok_iff _ _ _ _).mpr
    exact ⟨rfl, (length_cursorText h).trans_le hbytes⟩
  rw [decodeCursor, if_neg (by simp [hne, hall])]
  simp only [hpadded, hdecode, Except.toOption, Option.bind_some, decodeUtf8_cursorText, hparse]

/-- What a list names in the cursors that it issues. -/
structure EtcdCursor.Issuable (cursor : EtcdCursor) : Prop where
  selected : cursor.selected.isWellFormed = true
  lastKey : (storeKey cursor.lastKey).toOption ≠ none
  revision : compareRevision cursor.revision = .ok cursor.revision
  follows : cursor.lastKey.startsWith cursor.selected = true

theorem exact_of_storeKey {value : JsString} (h : (storeKey value).toOption ≠ none) :
  value.isWellFormed = true ∧ value.isEmpty = false
  := by
  cases hkey : storeKey value with
  | error e =>
      rw [hkey] at h
      exact absurd rfl h
  | ok key =>
      have hval := storeKey_eq_ok hkey
      rw [← hval]
      exact ⟨key.property.1, key.property.2 rfl⟩

theorem isPositiveDecimal_of_compareRevision {value : JsString}
    (h : compareRevision value = .ok value) :
  isPositiveDecimal value = true ∧ value.decimalValue ≤ maximumInt64
  := by
  unfold compareRevision at h
  split at h
  · cases h
  · split at h
    · cases h
    · exact ⟨not_not.mp ‹_›, not_lt.mp ‹_›⟩

theorem EtcdCursor.Issuable.wellFormed {cursor : EtcdCursor} (h : cursor.Issuable) :
  cursor.WellFormed
  := by
  constructor
  case selected => exact h.selected
  case lastKey => exact (exact_of_storeKey h.lastKey).1
  case revision =>
    have hdecimal := (isPositiveDecimal_of_compareRevision h.revision).1
    rw [isPositiveDecimal, Bool.and_eq_true, List.all_eq_true] at hdecimal
    apply wellFormedUnits_of_small
    intro u hu
    have hdigit := hdecimal.1 u hu
    simp only [isDigit, Bool.and_eq_true, decide_eq_true_eq] at hdigit
    omega

/-- The properties of the document of a cursor. -/
theorem cursor_properties (version selected lastKey revision : Json) :
  let properties := [(name "version", version), (name "prefix", selected),
    (name "lastKey", lastKey), (name "revision", revision)]
  hasKeys properties [name "lastKey", name "prefix", name "revision", name "version"] = true ∧
    Json.property properties (name "version") = some version ∧
    Json.property properties (name "prefix") = some selected ∧
    Json.property properties (name "lastKey") = some lastKey ∧
    Json.property properties (name "revision") = some revision
  := by
  refine ⟨?_, rfl, rfl, rfl, rfl⟩
  simp only [hasKeys, List.map]
  decide +kernel

theorem cursorOf_cursorDocument {cursor : EtcdCursor} (h : cursor.Issuable) :
  cursorOf cursor.selected (cursorDocument cursor) = .ok cursor
  := by
  obtain ⟨hkeys, hversion, hselected, hlastKey, hrevision⟩ := cursor_properties
    (.number (.ofNat 1)) (.string cursor.selected) (.string cursor.lastKey)
    (.string cursor.revision)
  obtain ⟨hformed, hempty⟩ := exact_of_storeKey h.lastKey
  have hcompare : (compareRevision cursor.revision).toOption ≠ none := by
    rw [h.revision]
    rintro ⟨⟩
  simp only [cursorOf, cursorDocument, hkeys, hversion, hselected, hlastKey, hrevision, hformed,
    hempty, h.lastKey, hcompare, h.follows, not_true, ne_eq, Bool.false_eq_true, or_self, if_false]

/-- A cursor of a list is accepted back exactly when its text is within the bound. -/
theorem decodeCursor_iff (parse : JsString → Option Json) {cursor : EtcdCursor}
    (h : cursor.Issuable) (hparse : parse (cursorText cursor) = some (cursorDocument cursor)) :
  decodeCursor parse (encodeCursor cursor) cursor.selected = .ok cursor ↔
    cursorBytes cursor ≤ maximumCursorBytes
  := by
  by_cases hle : cursorBytes cursor ≤ maximumCursorBytes
  · rw [decodeCursor_accepts parse h.wellFormed hle hparse, cursorOf_cursorDocument h]
    simp only [hle]
  · rw [decodeCursor_refuses parse h.wellFormed (not_le.mp hle)]
    simp only [hle, reduceCtorEq]

/-! ### What a list issues -/

theorem startsWith_of_rowsFollow {selected : JsString} :
  ∀ {previous : Option Key} {rows : List EtcdRow}, rowsFollow selected previous rows = true →
    ∀ row ∈ rows, row.record.key.val.startsWith selected = true
  | _, [], _, row, hrow => by cases hrow
  | previous, first :: rest, h, row, hrow => by
      simp only [rowsFollow, Bool.and_eq_true] at h
      obtain rfl | hrow := List.mem_cons.mp hrow
      · exact h.1.1
      · exact startsWith_of_rowsFollow h.2 row hrow

theorem compareRevision_eq_ok {value accepted : JsString} (h : compareRevision value = .ok accepted) :
  compareRevision value = .ok value
  := by
  have hcopy := h
  unfold compareRevision at hcopy
  split at hcopy
  · cases hcopy
  · split at hcopy
    · cases hcopy
    · cases hcopy
      exact h

/-- The revision of an accepted cursor is a positive revision. -/
theorem revision_of_decodeCursor {parse : JsString → Option Json} {value selected : JsString}
    {cursor : EtcdCursor} (h : decodeCursor parse value selected = .ok cursor) :
  compareRevision cursor.revision = .ok cursor.revision
  := by
  unfold decodeCursor at h
  split at h
  · cases h
  · dsimp only at h
    split at h
    · cases h
    · unfold cursorOf at h
      split at h
      · split at h
        · cases h
        · split at h
          · split at h
            · cases h
            · split at h
              · cases h
              · rename_i hvalid
                split at h
                · cases h
                · cases h
                  rw [not_or] at hvalid
                  obtain ⟨-, hcompare⟩ := hvalid
                  obtain ⟨accepted, hok⟩ := Option.ne_none_iff_exists'.mp hcompare
                  exact compareRevision_eq_ok (toOption_eq_some hok)
          · cases h
      · cases h

theorem compareRevision_of_isRevisionDecimal {value : JsString} (h : isRevisionDecimal value = true)
    (hne : value ≠ ofNat 0) :
  compareRevision value = .ok value
  := by
  simp only [isRevisionDecimal, Bool.or_eq_true, decide_eq_true_eq, hne, false_or,
    Bool.and_eq_true] at h
  rw [compareRevision, if_neg (not_not.mpr h.1), if_neg (not_lt.mpr h.2)]

/-- A cursor that a list issues names the prefix, the last key of the page and a positive
revision. -/
theorem issuable_of_nextCursor {ε : Type} {violation : ε} {parse : JsString → Option Json}
    {selected : ExactString false} {continuation : Option EtcdCursor} {page : PrefixPage}
    {previous : Option Key} {limit : Option ℕ} {text : JsString}
    (hcontinuation : ∀ cursor ∈ continuation,
      ∃ value, decodeCursor parse value selected.val = .ok cursor)
    (hpage : acceptsPage selected.val previous limit page = true)
    (h : nextCursor violation selected.val continuation page = .ok (some text)) :
  ∃ cursor : EtcdCursor, cursor.Issuable ∧ text = encodeCursor cursor ∧
    cursor.selected = selected.val ∧
    page.rows.getLast?.map (fun row => row.record.key.val) = some cursor.lastKey ∧
    cursor.revision = pagesRevision continuation page
  := by
  unfold nextCursor at h
  split at h
  · split at h
    · cases h
    · rename_i final hfinal
      dsimp only at h
      split at h
      · cases h
      · rename_i hne
        have htext := Option.some.inj (Except.ok.inj h)
        have hmem : final ∈ page.rows := List.mem_of_getLast? hfinal
        simp only [acceptsPage, Bool.and_eq_true] at hpage
        refine ⟨⟨selected.val, final.record.key.val, pagesRevision continuation page⟩, ?_,
          htext.symm, rfl, by rw [hfinal, Option.map_some], rfl⟩
        constructor
        case selected => exact selected.property.1
        case lastKey =>
          rw [page.rows_valid final hmem]
          rintro ⟨⟩
        case revision =>
          cases hcursor : continuation with
          | none =>
              rw [hcursor] at hne
              exact compareRevision_of_isRevisionDecimal page.revision_valid hne
          | some cursor =>
              obtain ⟨value, hvalue⟩ := hcontinuation cursor hcursor
              have hok : compareRevision cursor.revision = .ok cursor.revision :=
                revision_of_decodeCursor hvalue
              exact hok
        case follows => exact startsWith_of_rowsFollow hpage.2 final hmem
  · cases h

/-- The pages of a prefix cover exactly the prefix, and a cursor that a list issues is accepted
back exactly when its text is within the bound of the decoder. -/
theorem paging_exact (selected : ExactString false) (parse : JsString → Option Json) :
  (∀ key : Key, storeKey key.val = .ok key →
      (InRange (pageStart selected.val none) (prefixRangeEnd selected.val) key.val ↔
        key.val.startsWith selected.val = true)) ∧
    (∀ lastKey key : Key, lastKey.val.startsWith selected.val = true →
      storeKey key.val = .ok key →
      (InRange (pageStart selected.val (some lastKey.val)) (prefixRangeEnd selected.val) key.val ↔
        key.val.startsWith selected.val = true ∧ compareStoreKeys lastKey key = .lt)) ∧
    ∀ (ε : Type) (violation : ε) (continuation : Option EtcdCursor) (page : PrefixPage)
      (previous : Option Key) (limit : Option ℕ) (text : JsString),
      (∀ cursor ∈ continuation, ∃ value, decodeCursor parse value selected.val = .ok cursor) →
      acceptsPage selected.val previous limit page = true →
      nextCursor violation selected.val continuation page = .ok (some text) →
      ∃ cursor : EtcdCursor, cursor.selected = selected.val ∧
        page.rows.getLast?.map (fun row => row.record.key.val) = some cursor.lastKey ∧
        cursor.revision = pagesRevision continuation page ∧
        (parse (cursorText cursor) = some (cursorDocument cursor) →
          (decodeCursor parse text selected.val = .ok cursor ↔
            cursorBytes cursor ≤ maximumCursorBytes))
  := by
  refine ⟨fun key _ => firstPage_covers, fun lastKey key h _ => nextPage_covers h, ?_⟩
  intro ε violation continuation page previous limit text hcontinuation hpage hnext
  obtain ⟨cursor, hissuable, htext, hselected, hlast, hrevision⟩ :=
    issuable_of_nextCursor hcontinuation hpage hnext
  refine ⟨cursor, hselected, hlast, hrevision, ?_⟩
  intro hparse
  rw [htext, ← hselected]
  exact decodeCursor_iff parse hissuable hparse

/-- A key of two letters. -/
def shortKey : Key := ⟨ofString "ab", by decide⟩

/-- A page of one row that is not the last. -/
def shortPage : PrefixPage where
  revision := ofNat 7
  rows := [⟨⟨shortKey, [], ⟨[], List.Pairwise.nil⟩, revisionText 7, none⟩, ⟨true, none⟩, 0⟩]
  more := true
  revision_valid := by decide +kernel
  rows_valid := by
    intro row hrow
    rw [List.mem_singleton.mp hrow]
    rfl

theorem paging_exact_short :
  InRange (pageStart (ofString "a") none) (prefixRangeEnd (ofString "a")) (ofString "ab") ∧
    InRange (pageStart (ofString "a") (some (ofString "a"))) (prefixRangeEnd (ofString "a"))
      (ofString "ab") ∧
    ∃ cursor : EtcdCursor, cursor.lastKey = ofString "ab" ∧
      decodeCursor (fun text => if text = cursorText cursor then some (cursorDocument cursor)
        else none) (encodeCursor cursor) (ofString "a") = .ok cursor
  := by
  let selected : ExactString false := ⟨ofString "a", by decide⟩
  let cursor : EtcdCursor := ⟨ofString "a", ofString "ab", ofNat 7⟩
  let parse : JsString → Option Json :=
    fun text => if text = cursorText cursor then some (cursorDocument cursor) else none
  obtain ⟨hfirst, hnext, hcursors⟩ := paging_exact selected parse
  have hkey : storeKey shortKey.val = .ok shortKey := rfl
  refine ⟨(hfirst shortKey hkey).mpr rfl,
    (hnext ⟨ofString "a", by decide⟩ shortKey rfl hkey).mpr ⟨rfl, by decide⟩, cursor, rfl, ?_⟩
  have hpage : acceptsPage selected.val none (some 1) shortPage = true := rfl
  have hissued : nextCursor () selected.val none shortPage = .ok (some (encodeCursor cursor)) := by
    have hne : ofNat 7 ≠ ofNat 0 := fun heq => absurd (ofNat_injective heq) (by decide)
    have hmore : shortPage.more = true := rfl
    have hlast : shortPage.rows.getLast? =
        some ⟨⟨shortKey, [], ⟨[], List.Pairwise.nil⟩, revisionText 7, none⟩, ⟨true, none⟩, 0⟩ := rfl
    have hrevision : pagesRevision none shortPage = ofNat 7 := rfl
    rw [nextCursor, if_pos hmore]
    simp only [hlast, hrevision, if_neg hne]
    rfl
  obtain ⟨issued, hselected, hlast, hrevision, hiff⟩ := hcursors Unit () none shortPage none (some 1)
    (encodeCursor cursor) (by rintro _ ⟨⟩) hpage hissued
  obtain rfl : issued = cursor := by
    obtain ⟨s, k, r⟩ := issued
    cases hselected
    cases hlast
    cases hrevision
    rfl
  apply (hiff (if_pos rfl)).mpr
  decide +kernel

/-! ### A long key -/

/-- A key of control characters. -/
def longKey : Key :=
  ⟨⟨List.replicate 1024 1⟩, by
    constructor
    · apply wellFormedUnits_of_small
      intro u hu
      rw [List.eq_of_mem_replicate hu]
      decide
    · intro _
      rfl⟩

theorem codePoints_longKey :
  longKey.val.codePoints = List.replicate 1024 1
  := by
  have hpoints : ∀ n : ℕ, pointsOf (List.replicate n 1) = List.replicate n 1 := by
    intro n
    induction n with
    | zero => rfl
    | succ n ih =>
        cases n with
        | zero => rfl
        | succ n =>
            rw [List.replicate_succ, List.replicate_succ, pointsOf, if_neg (by decide),
              ← List.replicate_succ, ih]
            rfl
  exact hpoints 1024

theorem storeKey_longKey :
  storeKey longKey.val = .ok longKey
  := by
  have hbytes : longKey.val.utf8Length = 1024 := by
    have hone : pointBytes 1 = 1 := rfl
    rw [utf8Length, codePoints_longKey, List.map_replicate, List.sum_replicate, hone]
    rfl
  rw [storeKey, exactly?_val]
  simp only [hbytes, maximumKeyBytes, gt_iff_lt, lt_irrefl, if_false]

/-- The first page of the keys that begin with the long key, of which there are more. -/
def longPage : PrefixPage where
  revision := ofNat 7
  rows := [⟨⟨longKey, [], ⟨[], List.Pairwise.nil⟩, revisionText 7, none⟩, ⟨true, none⟩, 0⟩]
  more := true
  revision_valid := by decide +kernel
  rows_valid := by
    intro row hrow
    rw [List.mem_singleton.mp hrow]
    exact storeKey_longKey

/-- The cursor of a page is refused by the next call, whose prefix is the same. -/
theorem longCursor_refused :
  ∃ (selected : ExactString false) (page : PrefixPage) (text : JsString),
    selected.val.utf8Length ≤ maximumKeyBytes ∧
    acceptsPage selected.val none (some 1) page = true ∧
    nextCursor () selected.val none page = .ok (some text) ∧
    ∀ parse : JsString → Option Json,
      decodeCursor parse text selected.val = .error invalidCursor
  := by
  have hbytes : longKey.val.utf8Length = 1024 := by
    have hone : pointBytes 1 = 1 := rfl
    rw [utf8Length, codePoints_longKey, List.map_replicate, List.sum_replicate, hone]
    rfl
  have hescaped : escapedBytes longKey.val = 6144 := by
    have hsix : escapedPointBytes 1 = 6 := rfl
    rw [escapedBytes, codePoints_longKey, List.map_replicate, List.sum_replicate, hsix]
    rfl
  have hstarts : longKey.val.startsWith longKey.val = true := by
    rw [startsWith, List.isPrefixOf_iff_prefix]
  have hwell : (EtcdCursor.mk longKey.val longKey.val (ofNat 7)).WellFormed :=
    ⟨longKey.property.1, longKey.property.1, isWellFormed_ofNat 7⟩
  refine ⟨⟨longKey.val, longKey.property.1, fun h => absurd h (by decide)⟩, longPage,
    encodeCursor ⟨longKey.val, longKey.val, ofNat 7⟩, hbytes.le, ?_, ?_, ?_⟩
  · simp only [acceptsPage, longPage, rowsFollow, hstarts]
    rfl
  · have hmore : longPage.more = true := rfl
    rw [nextCursor, if_pos hmore]
    have hlast : longPage.rows.getLast? =
        some ⟨⟨longKey, [], ⟨[], List.Pairwise.nil⟩, revisionText 7, none⟩, ⟨true, none⟩, 0⟩ := rfl
    have hrevision : pagesRevision none longPage = ofNat 7 := rfl
    have hne : ofNat 7 ≠ ofNat 0 := fun heq => absurd (ofNat_injective heq) (by decide)
    simp only [hlast, hrevision, if_neg hne]
  · intro parse
    apply decodeCursor_refuses parse hwell
    rw [cursorBytes, hescaped, maximumCursorBytes]
    omega

end Store.Etcd
