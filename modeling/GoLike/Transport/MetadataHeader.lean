import GoLike.Lib.JsonReader
import GoLike.Lib.UriComponent
import GoLike.Metadata.Snapshot

/-!
# The metadata header

A snapshot travels in one header: the JSON text of its entries, written as a URI component behind
the prefix of the version. The decoder reads a header back and writes it once more; it accepts
exactly the header that is written of the snapshot it returns.
-/

namespace Transport

open JsString OwnOrder Metadata Except

def wirePrefix : JsString := ofString "v1."

def maximumMetadataHeaderBytes : ℕ := 16384

/-! ### Encoding -/

/-- The JSON text of an entry. -/
def entryText (e : JsString × List JsString) : List UInt16 :=
  brackets [quote e.1, brackets (e.2.map quote)]

/-- The JSON text of entries. -/
def entriesText (entries : List (JsString × List JsString)) : JsString :=
  ⟨brackets (entries.map entryText)⟩

/-- The header of entries. -/
def encodeEntries (entries : List (JsString × List JsString)) : Except Failure JsString :=
  match (entriesText entries).encodeURIComponent with
  | none => .error .uriError
  | some encoded =>
      if maximumMetadataHeaderBytes < (wirePrefix ++ encoded).units.length then
        .error (.rangeError "encoded metadata header exceeds 16384 bytes")
      else .ok (wirePrefix ++ encoded)

variable {lower : UnicodeLowerCase}

/-- The entry of a name. -/
def storedEntry (m : Snapshot lower) (key : JsString) :
    Except Failure (JsString × List JsString) :=
  (values m key).map fun stored => (key, stored)

/-- The header of a snapshot; none when it is empty. -/
def encodeMetadataHeader (m : Snapshot lower) : Except Failure (Option JsString) :=
  if (keys m).isEmpty then .ok none
  else do
    let entries ← (keys m).mapM (storedEntry m)
    let header ← encodeEntries entries
    .ok (some header)

/-! ### Decoding -/

def parsedValue : Json → Except Failure JsString
  | .string s => .ok s
  | _ => .error (.typeError "metadata wire values must be strings")

/-- The values of an entry. -/
def parsedValues : Json → Except Failure (List JsString)
  | .array elements => elements.mapM parsedValue
  | _ => .error (.typeError "metadata wire values must be an array")

variable (lower)

/-- An entry, after the names that were seen. -/
def parsedEntry (seen : List JsString) : Json → Except Failure (JsString × List JsString)
  | .array [.string key, value] =>
      if key ≠ lower.toLowerCase key ∨ lower.toLowerCase key ∈ seen then
        .error (.typeError "metadata wire keys must be unique and lower-case")
      else (parsedValues value).map fun values => (key, values)
  | .array [_, _] => .error (.typeError "metadata wire key must be a string")
  | _ => .error (.typeError "metadata wire entry is invalid")

def parsedEntries (seen : List JsString) :
    List Json → Except Failure (List (JsString × List JsString))
  | [] => .ok []
  | element :: rest => do
      let entry ← parsedEntry lower seen element
      let entries ← parsedEntries (lower.toLowerCase entry.1 :: seen) rest
      .ok (entry :: entries)

/-- The entries of a document. -/
def wireEntries : Json → Except Failure (List (JsString × List JsString))
  | .array (element :: rest) => parsedEntries lower [] (element :: rest)
  | _ => .error (.typeError "metadata wire entries must be a non-empty array")

/-- A result that is missing is a failure. -/
def orThrow {α : Type} (failure : Failure) : Option α → Except Failure α
  | none => .error failure
  | some a => .ok a

/-- The names of the entries are not those of the snapshot, in their order. -/
def misordered {lower : UnicodeLowerCase} (entries : List (JsString × List JsString))
    (decoded : Snapshot lower) : Bool :=
  (List.range entries.length).any fun index =>
    entries[index]?.map Prod.fst ≠ (keys decoded)[index]?

variable (numberValue : List UInt16 → JsNumber)

/-- Decode a header that is present. -/
def decodePresentMetadataHeader (value : JsString) : Except Failure (Snapshot lower) := do
  if maximumMetadataHeaderBytes < value.units.length ∨ value.startsWith wirePrefix = false ∨
      value.units.length = wirePrefix.units.length then
    .error (.typeError "metadata wire header is invalid")
  else
    let text ← orThrow .uriError (decodeURIComponent ⟨value.units.drop wirePrefix.units.length⟩)
    let document ← orThrow .syntaxError (JsonReader.parse numberValue text)
    let entries ← wireEntries lower document
    let decoded ← newMetadata lower ((fromEntries entries).map inputOf)
    if misordered entries decoded then
      .error (.typeError "metadata wire header is not canonical")
    else
      let encoded ← encodeEntries entries
      if encoded ≠ value then .error (.typeError "metadata wire header is not canonical")
      else .ok decoded

/-- The snapshot without entries. -/
def emptyMetadata {lower : UnicodeLowerCase} : Snapshot lower := freezeBuilder newBuilder

/-- Decode a header; none stands for the empty snapshot. -/
def decodeMetadataHeader : Option JsString → Except Failure (Snapshot lower)
  | none => .ok emptyMetadata
  | some value =>
      (decodePresentMetadataHeader lower numberValue value).mapError fun _ =>
        .transportProtocolError "invalid metadata wire"

/-! ### Texts -/

/-- The document of an entry. -/
def entryDocument (e : JsString × List JsString) : Json :=
  .array [.string e.1, .array (e.2.map .string)]

variable {lower} {numberValue}

theorem denotes_entryText (e : JsString × List JsString) :
  JsonReader.Denotes numberValue (entryText e) (entryDocument e)
  := by
  have hvalues : JsonReader.Denotes numberValue (brackets (e.2.map quote))
      (.array (e.2.map .string)) :=
    JsonReader.denotes_brackets fun v _ => JsonReader.denotes_quote v
  apply @JsonReader.denotes_brackets numberValue _ Prod.fst Prod.snd
    [(quote e.1, .string e.1), (brackets (e.2.map quote), .array (e.2.map .string))]
  rintro p hp
  obtain rfl | hp := List.mem_cons.1 hp
  · exact JsonReader.denotes_quote e.1
  · rw [List.mem_singleton.1 hp]
    exact hvalues

theorem parse_entriesText (entries : List (JsString × List JsString)) :
  JsonReader.parse numberValue (entriesText entries) = some (.array (entries.map entryDocument))
  := JsonReader.parse_of_denotes (JsonReader.denotes_brackets fun e _ => denotes_entryText e)

theorem isWellFormed_entriesText (entries : List (JsString × List JsString)) :
  (entriesText entries).isWellFormed = true
  := by
  apply IsText.isWellFormed
  apply isText_brackets
  intro us hus
  obtain ⟨e, -, rfl⟩ := List.mem_map.1 hus
  apply isText_brackets
  intro vs hvs
  obtain rfl | hvs := List.mem_cons.1 hvs
  · exact isText_quote e.1
  · rw [List.mem_singleton.1 hvs]
    apply isText_brackets
    intro ws hws
    obtain ⟨v, -, rfl⟩ := List.mem_map.1 hws
    exact isText_quote v

variable {entries : List (JsString × List JsString)}

/-- A header is the prefix and the component of the text of its entries, within the limit. -/
theorem encodeEntries_eq_ok {header : JsString} :
  encodeEntries entries = .ok header ↔
    ∃ encoded, (entriesText entries).encodeURIComponent = some encoded ∧
      header = wirePrefix ++ encoded ∧ header.units.length ≤ maximumMetadataHeaderBytes
  := by
  rw [encodeEntries]
  split
  · rename_i hnone
    constructor
    · rintro ⟨⟩
    · rintro ⟨encoded, hsome, -⟩
      rw [hnone] at hsome
      cases hsome
  · rename_i encoded hsome
    split
    · rename_i hlarge
      constructor
      · rintro ⟨⟩
      · rintro ⟨encoded', hsome', rfl, hle⟩
        rw [hsome] at hsome'
        cases hsome'
        omega
    · rename_i hsmall
      constructor
      · rintro ⟨⟩
        exact ⟨encoded, hsome, rfl, by omega⟩
      · rintro ⟨encoded', hsome', rfl, -⟩
        rw [hsome] at hsome'
        cases hsome'
        rfl

/-- The only failure is that the header is too long. -/
theorem exceeds_of_encodeEntries {failure : Failure} (h : encodeEntries entries = .error failure) :
  ∃ encoded, (entriesText entries).encodeURIComponent = some encoded ∧
    maximumMetadataHeaderBytes < (wirePrefix ++ encoded).units.length
  := by
  rw [encodeEntries] at h
  split at h
  · rename_i hnone
    rw [encodeURIComponent, if_pos (isWellFormed_entriesText entries)] at hnone
    cases hnone
  · rename_i encoded hsome
    split at h
    · rename_i hlarge
      exact ⟨encoded, hsome, hlarge⟩
    · cases h

/-! ### Entries of a snapshot -/

variable {m : Snapshot lower}

theorem storedEntry_eq {e : JsString × List JsString} (he : e ∈ m.entries) :
  storedEntry m e.1 = .ok e
  := by
  rw [storedEntry, values, normalizeKey_of_isKey (m.admitted e he).key]
  simp only [Except.map]
  rw [(JsMap.lookup_eq_some m.nodup).2 he]
  rfl

theorem mapM_storedEntry (h : ∀ e ∈ entries, e ∈ m.entries) :
  (entries.map Prod.fst).mapM (storedEntry m) = .ok entries
  := by
  induction entries with
  | nil => rfl
  | cons e entries ih =>
      rw [List.map_cons, List.mapM_cons, storedEntry_eq (h e List.mem_cons_self),
        ih fun q hq => h q (List.mem_cons_of_mem _ hq)]
      rfl

theorem encodeMetadataHeader_eq (m : Snapshot lower) :
  encodeMetadataHeader m =
    if m.entries.isEmpty then .ok none else (encodeEntries m.entries).map some
  := by
  rw [encodeMetadataHeader, keys, List.isEmpty_map, mapM_storedEntry fun _ h => h]
  congr 1

/-! ### Entries of a document -/

variable {j : Json}

theorem parsedValues_eq_ok {values : List JsString} :
  parsedValues j = .ok values ↔ j = .array (values.map .string)
  := by
  have hmap : ∀ {elements : List Json} {values : List JsString},
      elements.mapM parsedValue = .ok values ↔ elements = values.map .string := by
    intro elements
    induction elements with
    | nil =>
        intro values
        rw [List.mapM_nil, eq_comm (a := ([] : List Json)), List.map_eq_nil_iff]
        exact ⟨fun h => (ok.inj h).symm, fun h => congrArg ok h.symm⟩
    | cons element elements ih =>
        intro values
        rw [List.mapM_cons, bind_eq_ok_iff]
        constructor
        · rintro ⟨s, hs, h⟩
          obtain ⟨rest, hrest, h⟩ := bind_eq_ok_iff.1 h
          cases h
          cases element with
          | string t =>
              cases hs
              rw [List.map_cons, ih.1 hrest]
          | _ => cases hs
        · intro h
          cases values with
          | nil => cases h
          | cons s values =>
              rw [List.map_cons, List.cons.injEq] at h
              obtain ⟨rfl, hrest⟩ := h
              refine ⟨s, rfl, ?_⟩
              rw [ih.2 hrest]
              rfl
  cases j with
  | array elements => rw [parsedValues, hmap, Json.array.injEq]
  | _ =>
      constructor
      · rintro ⟨⟩
      · rintro ⟨⟩

theorem parsedEntry_eq_ok {seen : List JsString} {e : JsString × List JsString} :
  parsedEntry lower seen j = .ok e ↔
    j = entryDocument e ∧ lower.toLowerCase e.1 = e.1 ∧ e.1 ∉ seen
  := by
  constructor
  · intro h
    unfold parsedEntry at h
    split at h
    · rename_i key value
      split at h
      · cases h
      · rename_i hkey
        rw [not_or, not_not] at hkey
        obtain ⟨values, hvalues, rfl⟩ := map_eq_ok_iff.1 h
        rw [parsedValues_eq_ok.1 hvalues]
        refine ⟨rfl, hkey.1.symm, ?_⟩
        rw [hkey.1]
        exact hkey.2
    · cases h
    · cases h
  · rintro ⟨rfl, hlower, hseen⟩
    rw [entryDocument, parsedEntry, if_neg, parsedValues_eq_ok.2 rfl]
    · rfl
    · rw [hlower, not_or, not_not]
      exact ⟨rfl, hseen⟩

/-- The entries of a document are those that it is written of, with distinct lower-case names. -/
theorem parsedEntries_eq_ok {seen : List JsString} {elements : List Json} :
  parsedEntries lower seen elements = .ok entries ↔
    elements = entries.map entryDocument ∧ (entries.map Prod.fst).Nodup ∧
      ∀ e ∈ entries, lower.toLowerCase e.1 = e.1 ∧ e.1 ∉ seen
  := by
  induction elements generalizing seen entries with
  | nil =>
      rw [parsedEntries]
      constructor
      · rintro ⟨⟩
        exact ⟨rfl, List.nodup_nil, fun _ h => absurd h List.not_mem_nil⟩
      · rintro ⟨h, -⟩
        rw [List.map_eq_nil_iff.1 h.symm]
  | cons element elements ih =>
      rw [parsedEntries, bind_eq_ok_iff]
      constructor
      · rintro ⟨e, he, hrest⟩
        obtain ⟨others, hothers, hentries⟩ := bind_eq_ok_iff.1 hrest
        cases hentries
        obtain ⟨rfl, hlower, hseen⟩ := parsedEntry_eq_ok.1 he
        obtain ⟨rfl, hnodup, hall⟩ := ih.1 hothers
        rw [hlower] at hall
        refine ⟨rfl, ?_, ?_⟩
        · rw [List.map_cons, List.nodup_cons]
          refine ⟨?_, hnodup⟩
          intro hmem
          obtain ⟨q, hq, hname⟩ := List.mem_map.1 hmem
          exact (hall q hq).2 (hname ▸ List.mem_cons_self)
        · rintro q hq
          obtain rfl | hq := List.mem_cons.1 hq
          · exact ⟨hlower, hseen⟩
          · exact ⟨(hall q hq).1, fun h => (hall q hq).2 (List.mem_cons_of_mem _ h)⟩
      · rintro ⟨helements, hnodup, hall⟩
        cases entries with
        | nil => cases helements
        | cons e entries =>
            rw [List.map_cons, List.cons.injEq] at helements
            rw [List.map_cons, List.nodup_cons] at hnodup
            obtain ⟨rfl, hrest⟩ := helements
            obtain ⟨hlower, hseen⟩ := hall e List.mem_cons_self
            refine ⟨e, parsedEntry_eq_ok.2 ⟨rfl, hlower, hseen⟩, ?_⟩
            refine bind_eq_ok_iff.2 ⟨entries, ih.2 ⟨hrest, hnodup.2, ?_⟩, rfl⟩
            intro q hq
            obtain ⟨hlower', hseen'⟩ := hall q (List.mem_cons_of_mem _ hq)
            refine ⟨hlower', ?_⟩
            rw [hlower, List.mem_cons, not_or]
            refine ⟨?_, hseen'⟩
            intro hname
            exact hnodup.1 (hname ▸ List.mem_map_of_mem hq)

theorem wireEntries_eq_ok :
  wireEntries lower j = .ok entries ↔
    j = .array (entries.map entryDocument) ∧ entries ≠ [] ∧ (entries.map Prod.fst).Nodup ∧
      ∀ e ∈ entries, lower.toLowerCase e.1 = e.1
  := by
  constructor
  · intro h
    unfold wireEntries at h
    split at h
    · obtain ⟨helements, hnodup, hall⟩ := parsedEntries_eq_ok.1 h
      refine ⟨congrArg Json.array helements, ?_, hnodup, fun e he => (hall e he).1⟩
      rintro rfl
      cases helements
    · cases h
  · rintro ⟨rfl, hne, hnodup, hall⟩
    cases entries with
    | nil => exact absurd rfl hne
    | cons e entries =>
        exact parsedEntries_eq_ok.2 ⟨rfl, hnodup, fun q hq => ⟨hall q hq, List.not_mem_nil⟩⟩

theorem brackets_ne_nil (texts : List (List UInt16)) :
  brackets texts ≠ []
  := by
  cases texts with
  | nil | cons => exact List.cons_ne_nil _ _

/-! ### Order -/

/-- The same entries in the order of their names. -/
theorem eq_of_perm_of_names {l l' : List (JsString × List JsString)} (h : l.Perm l')
    (hnodup : (l.map Prod.fst).Nodup) (hnames : l.map Prod.fst = l'.map Prod.fst) :
  l = l'
  := by
  induction l generalizing l' with
  | nil => exact (List.nil_perm.1 h).symm
  | cons e l ih =>
      cases l' with
      | nil => cases hnames
      | cons e' l' =>
          have hnodup' : ((e :: l).map Prod.fst).Nodup := hnodup
          rw [List.map_cons, List.map_cons, List.cons.injEq] at hnames
          have he' : e' ∈ e :: l := h.mem_iff.2 List.mem_cons_self
          have hsame : e = e' :=
            List.inj_on_of_nodup_map hnodup' List.mem_cons_self he' hnames.1
          subst hsame
          rw [List.map_cons, List.nodup_cons] at hnodup
          rw [ih (List.perm_cons e |>.1 h) hnodup.2 hnames.2]

/-- Entries in the order of a snapshot that has the same. -/
theorem misordered_eq_false (h : m.entries.Perm entries) :
  misordered entries m = false ↔ m.entries = entries
  := by
  constructor
  · intro horder
    have hlength := h.length_eq
    simp only [misordered, List.any_eq_false, List.mem_range, decide_eq_true_eq, not_not] at horder
    apply eq_of_perm_of_names h m.nodup
    apply List.ext_getElem?
    intro index
    rw [List.getElem?_map, List.getElem?_map]
    by_cases hindex : index < entries.length
    · rw [horder index hindex, keys, List.getElem?_map]
    · have hbeyond : m.entries.length ≤ index := by omega
      rw [List.getElem?_eq_none hbeyond, List.getElem?_eq_none (Nat.not_lt.1 hindex)]
  · rintro rfl
    simp only [misordered, List.any_eq_false, List.mem_range, decide_eq_true_eq, not_not]
    intro index _
    rw [keys, List.getElem?_map]

/-! ### The codec -/

theorem fromEntries_perm (h : (entries.map Prod.fst).Nodup) :
  (fromEntries entries).Perm entries
  := by
  rw [fromEntries_eq h]
  exact ownOrder_perm entries

/-- The snapshot of entries of a header, when it lists them in their order. -/
theorem newMetadata_fromEntries (hnodup : (entries.map Prod.fst).Nodup)
    (hlower : ∀ e ∈ entries, lower.toLowerCase e.1 = e.1)
    (h : newMetadata lower ((fromEntries entries).map inputOf) = .ok m) :
  m.entries.Perm entries
  := by
  have hperm := fromEntries_perm hnodup
  have hnodup' := (hperm.map Prod.fst).nodup_iff.2 hnodup
  obtain ⟨-, hentries⟩ :=
    (newMetadata_eq_ok (fun e he => hlower e (hperm.mem_iff.1 he)) hnodup').1 h
  rw [hentries]
  exact (sortedRecord_perm hnodup').trans hperm

/-- A snapshot is set up again from its own entries. -/
theorem newMetadata_entries (m : Snapshot lower) :
  newMetadata lower ((fromEntries m.entries).map inputOf) = .ok m
  := by
  rw [m.fromEntries_entries]
  apply (newMetadata_eq_ok _ m.nodup).2
  · exact ⟨m.admitted, m.ordered.symm⟩
  · intro e he
    exact (m.admitted e he).key.lowerCase

/-- A header is accepted exactly when it is that of the entries of the snapshot. -/
theorem decodePresentMetadataHeader_eq_ok {header : JsString} :
  decodePresentMetadataHeader lower numberValue header = .ok m ↔
    m.entries ≠ [] ∧ encodeEntries m.entries = .ok header
  := by
  unfold decodePresentMetadataHeader
  constructor
  · intro h
    split at h
    case isTrue => cases h
    case isFalse =>
      obtain ⟨text, -, h⟩ := bind_eq_ok_iff.1 h
      obtain ⟨document, -, h⟩ := bind_eq_ok_iff.1 h
      obtain ⟨entries, hwire, h⟩ := bind_eq_ok_iff.1 h
      obtain ⟨decoded, hdecoded, h⟩ := bind_eq_ok_iff.1 h
      obtain ⟨-, hne, hnodup, hlower⟩ := wireEntries_eq_ok.1 hwire
      have hperm := newMetadata_fromEntries hnodup hlower hdecoded
      split at h
      case isTrue => cases h
      case isFalse horder =>
        have hentries := (misordered_eq_false hperm).1 (Bool.not_eq_true _ ▸ horder)
        obtain ⟨encoded, hencoded, h⟩ := bind_eq_ok_iff.1 h
        split at h
        case isTrue => cases h
        case isFalse hsame =>
          rw [not_not] at hsame
          cases h
          rw [hentries]
          exact ⟨hne, hsame ▸ hencoded⟩
  · rintro ⟨hne, hheader⟩
    obtain ⟨encoded, hencoded, rfl, hlength⟩ := encodeEntries_eq_ok.1 hheader
    have htext := decodeURIComponent_encodeURIComponent hencoded
    have hdrop : (wirePrefix ++ encoded).units.drop wirePrefix.units.length = encoded.units :=
      List.drop_left
    have hlong : (wirePrefix ++ encoded).units.length ≠ wirePrefix.units.length := by
      intro heq
      have happend : (wirePrefix ++ encoded).units.length =
          wirePrefix.units.length + encoded.units.length := List.length_append
      have hnil : encoded.units = [] := List.length_eq_zero_iff.1 (by omega)
      have hempty : decodeURIComponent encoded = some ⟨[]⟩ := by
        rw [decodeURIComponent, hnil]
        rfl
      rw [hempty, Option.some.injEq] at htext
      exact brackets_ne_nil _ (congrArg JsString.units htext).symm
    have hchecks : ¬ (maximumMetadataHeaderBytes < (wirePrefix ++ encoded).units.length ∨
        (wirePrefix ++ encoded).startsWith wirePrefix = false ∨
          (wirePrefix ++ encoded).units.length = wirePrefix.units.length) := by
      rw [not_or, not_or]
      refine ⟨by omega, ?_, hlong⟩
      rw [Bool.not_eq_false]
      exact List.isPrefixOf_iff_prefix.2 (List.prefix_append _ _)
    have hwire : wireEntries lower (.array (m.entries.map entryDocument)) = .ok m.entries :=
      wireEntries_eq_ok.2 ⟨rfl, hne, m.nodup, fun e he => (m.admitted e he).key.lowerCase⟩
    have horder : misordered m.entries m = false := (misordered_eq_false (List.Perm.refl _)).2 rfl
    rw [if_neg hchecks, hdrop, htext, orThrow, ok_bind, parse_entriesText, orThrow, ok_bind,
      hwire, ok_bind, newMetadata_entries, ok_bind, if_neg (by rw [horder]; exact Bool.false_ne_true),
      hheader, ok_bind, if_neg (by rw [not_not])]

/-- The headers and the snapshots that fit in one belong to each other: a header is decoded to a
snapshot exactly when it is the header of the snapshot. Two headers of one snapshot are the same,
and a snapshot has no header only when the header would be too long. -/
theorem metadataHeader_exact (lower : UnicodeLowerCase) (numberValue : List UInt16 → JsNumber) :
  (∀ (header : Option JsString) (m : Snapshot lower),
    decodeMetadataHeader lower numberValue header = .ok m ↔ encodeMetadataHeader m = .ok header) ∧
  (∀ (header header' : Option JsString) (m : Snapshot lower),
    decodeMetadataHeader lower numberValue header = .ok m →
    decodeMetadataHeader lower numberValue header' = .ok m → header = header') ∧
  ∀ (m : Snapshot lower) (failure : Failure), encodeMetadataHeader m = .error failure →
    ∃ encoded, (entriesText m.entries).encodeURIComponent = some encoded ∧
      maximumMetadataHeaderBytes < (wirePrefix ++ encoded).units.length
  := by
  have hexact : ∀ (header : Option JsString) (m : Snapshot lower),
      decodeMetadataHeader lower numberValue header = .ok m ↔
        encodeMetadataHeader m = .ok header := by
    intro header m
    rw [encodeMetadataHeader_eq]
    cases header with
    | none =>
        rw [decodeMetadataHeader, ok.injEq]
        constructor
        · rintro rfl
          rfl
        · intro h
          split at h
          case isTrue hnil =>
            apply Snapshot.ext
            exact (List.isEmpty_iff.1 hnil).symm
          case isFalse =>
            obtain ⟨header, -, h⟩ := map_eq_ok_iff.1 h
            cases h
    | some header =>
        rw [decodeMetadataHeader, mapError_eq_ok_iff, decodePresentMetadataHeader_eq_ok]
        split
        case isTrue hnil =>
          constructor
          · rintro ⟨hne, -⟩
            exact absurd (List.isEmpty_iff.1 hnil) hne
          · rintro ⟨⟩
        case isFalse hne =>
          rw [List.isEmpty_iff] at hne
          constructor
          · rintro ⟨-, h⟩
            rw [h]
            rfl
          · intro h
            obtain ⟨header', hheader, heq⟩ := map_eq_ok_iff.1 h
            rw [← Option.some.inj heq]
            exact ⟨hne, hheader⟩
  refine ⟨hexact, ?_, ?_⟩
  · intro header header' m h h'
    have heq := ((hexact header m).1 h).symm.trans ((hexact header' m).1 h')
    exact ok.inj heq
  · intro m failure h
    rw [encodeMetadataHeader_eq] at h
    split at h
    case isTrue => cases h
    case isFalse =>
      apply exceeds_of_encodeEntries
      cases hencode : encodeEntries m.entries with
      | error failure' =>
          rw [hencode] at h
          cases h
          rfl
      | ok header =>
          rw [hencode] at h
          cases h

end Transport
