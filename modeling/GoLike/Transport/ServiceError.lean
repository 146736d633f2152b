import GoLike.Lib.CodePointOrder
import GoLike.Lib.JsSplit
import GoLike.Lib.JsonReader
import GoLike.Metadata.Snapshot

/-!
# Service errors on the wire

A service error is created within bounds of its parts and of its canonical body, the JSON text of
its code, its message and its metadata. The decoder creates the error of a response again, so it
returns only errors within these bounds, and the response of an error is decoded to the error.
-/

namespace Transport

open JsString OwnOrder Metadata Except

def maximumServiceErrorMessageBytes : ℕ := 4096

def maximumServiceErrorMetadataEntries : ℕ := 32

def maximumServiceErrorMetadataKeyBytes : ℕ := 128

def maximumServiceErrorMetadataValueBytes : ℕ := 1024

def maximumServiceErrorBodyBytes : ℕ := 8192

/-- The unit is a small letter or a digit. -/
def isCodeUnit (u : UInt16) : Bool :=
  let n := u.toNat
  97 ≤ n && n ≤ 122 || 48 ≤ n && n ≤ 57

/-- A small letter or digit, and at most 127 of these and of full stops, low lines and hyphens. -/
def isServiceErrorCode (code : JsString) : Bool :=
  match code.units with
  | [] => false
  | first :: rest =>
      isCodeUnit first && rest.length ≤ 127 &&
        rest.all fun u => isCodeUnit u || u = 46 || u = 95 || u = 45

/-- The number is an integer from 400 through 599. -/
def isServiceErrorStatus (status : JsNumber) : Bool :=
  status.toSafeInteger?.any fun n => 400 ≤ n && n ≤ 599

/-! ### Metadata -/

/-- Names are compared by their code points. -/
def CodePointsLe (left right : JsString) : Prop := compareCodePoints left right ≤ 0

instance : DecidableRel CodePointsLe := fun left right =>
  inferInstanceAs (Decidable (compareCodePoints left right ≤ 0))

instance : IsLinearOrder JsString CodePointsLe where
  refl _ := compareCodePoints_le_iff.2 le_rfl
  trans _ _ _ h h' := compareCodePoints_le_iff.2
    (le_trans (compareCodePoints_le_iff.1 h) (compareCodePoints_le_iff.1 h'))
  antisymm _ _ h h' := le_antisymm (compareCodePoints_le_iff.1 h) (compareCodePoints_le_iff.1 h')
  total left right :=
    (le_total left right).imp compareCodePoints_le_iff.2 compareCodePoints_le_iff.2

/-- A record of strings, as the list of its own properties. -/
abbrev StringRecord : Type := { entries : List (JsString × JsString) // Listed entries }

/-- The record to which properties are set one by one. -/
def StringRecord.of (entries : List (JsString × JsString)) : StringRecord :=
  ⟨fromEntries entries, listed_fromEntries entries⟩

/-- A property within the bounds. -/
structure BoundedEntry (e : JsString × JsString) : Prop where
  wellFormed : e.1.isWellFormed = true ∧ e.2.isWellFormed = true
  key : e.1.encodeUtf8.length ≤ maximumServiceErrorMetadataKeyBytes
  value : e.2.encodeUtf8.length ≤ maximumServiceErrorMetadataValueBytes

/-- Check a property. -/
def snapshotEntry (e : JsString × JsString) :
    Except Failure { e : JsString × JsString // BoundedEntry e } :=
  if hwell : e.1.isWellFormed = true ∧ e.2.isWellFormed = true then
    if hkey : e.1.encodeUtf8.length ≤ maximumServiceErrorMetadataKeyBytes then
      if hvalue : e.2.encodeUtf8.length ≤ maximumServiceErrorMetadataValueBytes then
        .ok ⟨e, hwell, hkey, hvalue⟩
      else .error (.rangeError "ServiceError metadata value exceeds 1024 UTF-8 bytes")
    else .error (.rangeError "ServiceError metadata key exceeds 128 UTF-8 bytes")
  else .error
    (.typeError "ServiceError metadata must contain well-formed string keys and values")

/-- Checked properties are the properties. -/
theorem mapM_snapshotEntry_eq_ok {l : List (JsString × JsString)}
    {checked : List { e : JsString × JsString // BoundedEntry e }} :
  l.mapM snapshotEntry = .ok checked ↔ checked.map Subtype.val = l
  := by
  induction l generalizing checked with
  | nil =>
      rw [List.mapM_nil, List.map_eq_nil_iff]
      exact ⟨fun h => (ok.inj h).symm, fun h => congrArg ok h.symm⟩
  | cons e l ih =>
      rw [List.mapM_cons, bind_eq_ok_iff]
      constructor
      · rintro ⟨e', he', hrest⟩
        obtain ⟨others, hothers, hchecked⟩ := bind_eq_ok_iff.1 hrest
        cases hchecked
        have hsame : e'.val = e := by
          unfold snapshotEntry at he'
          split at he'
          · split at he'
            · split at he'
              · rw [← ok.inj he']
              · cases he'
            · cases he'
          · cases he'
        rw [List.map_cons, ih.1 hothers, hsame]
      · intro h
        cases checked with
        | nil => cases h
        | cons e' checked =>
            rw [List.map_cons, List.cons.injEq] at h
            obtain ⟨rfl, hrest⟩ := h
            have he' : snapshotEntry e'.val = .ok e' := by
              rw [snapshotEntry, dif_pos e'.property.wellFormed, dif_pos e'.property.key,
                dif_pos e'.property.value]
            refine ⟨e', he', ?_⟩
            rw [ih.2 hrest]
            rfl

/-- The metadata of an error, in the order in which the record lists it. -/
@[ext]
structure ServiceErrorMetadata where
  entries : List (JsString × JsString)
  nodup : (entries.map Prod.fst).Nodup
  ordered : sortedRecord CodePointsLe entries = entries
  count : entries.length ≤ maximumServiceErrorMetadataEntries
  bounded : ∀ e ∈ entries, BoundedEntry e

theorem ServiceErrorMetadata.listed (m : ServiceErrorMetadata) :
  Listed m.entries
  := by
  rw [← m.ordered]
  exact listed_sortedRecord m.entries

/-- Check, sort and copy the metadata. -/
def snapshotServiceErrorMetadata (value : StringRecord) : Except Failure ServiceErrorMetadata :=
  if hcount : value.val.length ≤ maximumServiceErrorMetadataEntries then
    match hchecked : (sortByName CodePointsLe value.val).mapM snapshotEntry with
    | .error failure => .error failure
    | .ok checked =>
        have hentries := mapM_snapshotEntry_eq_ok.1 hchecked
        have hsorted : fromEntries (checked.map Subtype.val) =
            sortedRecord CodePointsLe value.val := congrArg fromEntries hentries
        have hperm : (fromEntries (checked.map Subtype.val)).Perm value.val :=
          hsorted ▸ sortedRecord_perm value.property.nodup
        .ok {
          entries := fromEntries (checked.map Subtype.val)
          nodup := (hperm.map Prod.fst).nodup_iff.2 value.property.nodup
          ordered := hsorted ▸ sortedRecord_sortedRecord value.property.nodup
          count := hperm.length_eq ▸ hcount
          bounded := by
            intro e he
            have hmem : e ∈ checked.map Subtype.val := by
              rw [hentries]
              exact (sortByName_perm _).mem_iff.2 (hperm.mem_iff.1 he)
            obtain ⟨e', -, rfl⟩ := List.mem_map.1 hmem
            exact e'.property }
  else .error (.rangeError "ServiceError metadata exceeds 32 entries")

theorem snapshotServiceErrorMetadata_eq_ok {value : StringRecord} {m : ServiceErrorMetadata} :
  snapshotServiceErrorMetadata value = .ok m ↔
    value.val.length ≤ maximumServiceErrorMetadataEntries ∧
      (∀ e ∈ value.val, BoundedEntry e) ∧ m.entries = sortedRecord CodePointsLe value.val
  := by
  unfold snapshotServiceErrorMetadata
  split
  case isFalse hcount =>
    constructor
    · rintro ⟨⟩
    · rintro ⟨h, -⟩
      exact absurd h hcount
  case isTrue hcount =>
    split
    case h_1 failure hchecked =>
      constructor
      · rintro ⟨⟩
      · rintro ⟨-, hbounded, -⟩
        let checked : List { e : JsString × JsString // BoundedEntry e } :=
          (sortByName CodePointsLe value.val).attach.map fun e =>
            ⟨e.val, hbounded e.val ((sortByName_perm _).mem_iff.1 e.property)⟩
        have hentries : checked.map Subtype.val = sortByName CodePointsLe value.val := by
          rw [List.map_map]
          exact List.attach_map_subtype_val _
        rw [mapM_snapshotEntry_eq_ok.2 hentries] at hchecked
        cases hchecked
    case h_2 checked hchecked =>
      have hentries := mapM_snapshotEntry_eq_ok.1 hchecked
      have hsorted : fromEntries (checked.map Subtype.val) = sortedRecord CodePointsLe value.val :=
        congrArg fromEntries hentries
      constructor
      · intro h
        rw [← ok.inj h]
        refine ⟨hcount, ?_, hsorted⟩
        intro e he
        have hmem : e ∈ checked.map Subtype.val := by
          rw [hentries]
          exact (sortByName_perm _).mem_iff.2 he
        obtain ⟨e', -, rfl⟩ := List.mem_map.1 hmem
        exact e'.property
      · rintro ⟨-, -, hm⟩
        exact congrArg ok (ServiceErrorMetadata.ext (hsorted.trans hm.symm))

/-! ### Errors -/

/-- The property of a record of strings. -/
def metadataProperty (e : JsString × JsString) : List UInt16 :=
  JsonReader.property e.1 (quote e.2)

/-- The JSON text of an error. -/
def canonicalServiceErrorText (code message : JsString) (metadata : List (JsString × JsString)) :
    JsString :=
  ⟨braces [JsonReader.property (ofString "code") (quote code),
    JsonReader.property (ofString "message") (quote message),
    JsonReader.property (ofString "metadata") (braces (metadata.map metadataProperty))]⟩

/-- The canonical body of an error. -/
def canonicalServiceErrorBody (code message : JsString) (metadata : List (JsString × JsString)) :
    List UInt8 :=
  (canonicalServiceErrorText code message metadata).encodeUtf8

/-- An error within its bounds. -/
@[ext]
structure ServiceError where
  code : JsString
  message : JsString
  status : JsNumber
  metadata : ServiceErrorMetadata
  code_valid : isServiceErrorCode code = true
  message_wellFormed : message.isWellFormed = true
  message_bytes : message.encodeUtf8.length ≤ maximumServiceErrorMessageBytes
  status_valid : isServiceErrorStatus status = true
  body_bytes : (canonicalServiceErrorBody code message metadata.entries).length ≤
    maximumServiceErrorBodyBytes

/-- Create an error. -/
def serviceError (code message : JsString) (status : JsNumber) (metadata : StringRecord) :
    Except Failure ServiceError :=
  if hcode : isServiceErrorCode code = true then
    if hmessage : message.isWellFormed = true then
      if hbytes : message.encodeUtf8.length ≤ maximumServiceErrorMessageBytes then
        if hstatus : isServiceErrorStatus status = true then do
          let metadataSnapshot ← snapshotServiceErrorMetadata metadata
          if hbody : (canonicalServiceErrorBody code message metadataSnapshot.entries).length ≤
              maximumServiceErrorBodyBytes then
            .ok ⟨code, message, status, metadataSnapshot, hcode, hmessage, hbytes, hstatus, hbody⟩
          else .error (.rangeError "ServiceError canonical body exceeds 8192 bytes")
        else .error (.rangeError "ServiceError status must be an integer from 400 through 599")
      else .error (.rangeError "ServiceError message exceeds 4096 UTF-8 bytes")
    else .error (.typeError "ServiceError message must be a well-formed string")
  else .error (.typeError "ServiceError code is invalid")

/-- An error is made of what it is created with, the metadata sorted. -/
theorem serviceError_eq_ok {code message : JsString} {status : JsNumber} {metadata : StringRecord}
    {e : ServiceError} :
  serviceError code message status metadata = .ok e ↔
    e.code = code ∧ e.message = message ∧ e.status = status ∧
      snapshotServiceErrorMetadata metadata = .ok e.metadata
  := by
  unfold serviceError
  constructor
  · intro h
    split at h
    case isFalse => cases h
    split at h
    case isFalse => cases h
    split at h
    case isFalse => cases h
    split at h
    case isFalse => cases h
    obtain ⟨m, hm, h⟩ := bind_eq_ok_iff.1 h
    split at h
    case isFalse => cases h
    cases h
    exact ⟨rfl, rfl, rfl, hm⟩
  · rintro ⟨rfl, rfl, rfl, hm⟩
    rw [dif_pos e.code_valid, dif_pos e.message_wellFormed, dif_pos e.message_bytes,
      dif_pos e.status_valid, hm, ok_bind, dif_pos e.body_bytes]

/-! ### Responses -/

/-- A response, as far as the decoder reads it. -/
structure Response where
  status : JsNumber
  contentType : Option JsString
  /-- The bytes of the body; none when reading it fails. -/
  body : Option (List UInt8)

/-- The response of an error. -/
def serviceErrorResponse (error : ServiceError) : Response where
  status := error.status
  contentType := some (ofString "application/json")
  body := some (canonicalServiceErrorBody error.code error.message error.metadata.entries)

variable (lower : LowerCase) (numberValue : List UInt16 → JsNumber)

/-- The media type is that of JSON, without its parameters. -/
def jsonMediaType (response : Response) : Bool :=
  match response.contentType with
  | none => false
  | some raw =>
      lower.toLowerCase (trimmed ⟨raw.units.takeWhile fun u => u ≠ 59⟩) =
        ofString "application/json"

/-- The object has the properties of an error and no others. -/
def exactServiceErrorKeys (properties : List (JsString × Json)) : Bool :=
  let keys := properties.map Prod.fst
  keys.length = 3 && keys.contains (ofString "code") && keys.contains (ofString "message") &&
    keys.contains (ofString "metadata")

/-- A property whose value is a string. -/
def stringProperty (p : JsString × Json) : Except Failure (JsString × JsString) :=
  match p.2 with
  | .string item => .ok (p.1, item)
  | _ => .error (.typeError "ServiceError body metadata values must be strings")

/-- The record of the metadata of a body. -/
def parsedMetadata : Option Json → Except Failure StringRecord
  | some (.object properties) => (properties.mapM stringProperty).map StringRecord.of
  | _ => .error (.typeError "ServiceError body metadata must be an object")

/-- The error of a document. -/
def parsedServiceError (status : JsNumber) : Json → Option ServiceError
  | .object properties =>
      if exactServiceErrorKeys properties then
        match Json.property properties (ofString "code"),
          Json.property properties (ofString "message") with
        | some (.string code), some (.string message) =>
            (parsedMetadata (Json.property properties (ofString "metadata")) >>=
              serviceError code message status).toOption
        | _, _ => none
      else none
  | _ => none

/-- Decode the error of a response; none when the response is not that of an error. -/
def decodeServiceErrorResponse (response : Response) : Option ServiceError :=
  if isServiceErrorStatus response.status = false then none
  else if jsonMediaType lower response = false then none
  else do
    let bytes ← response.body
    if maximumServiceErrorBodyBytes < bytes.length then none
    else
      let text ← decodeUtf8 bytes
      let parsed ← JsonReader.parse numberValue text
      parsedServiceError response.status parsed

/-! ### The body of an error -/

theorem isText_property {name : JsString} {us : List UInt16} (h : IsText us) :
  IsText (JsonReader.property name us)
  := by
  rw [JsonReader.property, ← List.singleton_append]
  exact (isText_quote name).append ((isText_unit (by decide)).append h)

theorem isText_braces {texts : List (List UInt16)} (h : ∀ element ∈ texts, IsText element) :
  IsText (braces texts)
  := isText_enclosed (by decide) (by decide) h

theorem isText_canonical (code message : JsString) (metadata : List (JsString × JsString)) :
  IsText (canonicalServiceErrorText code message metadata).units
  := by
  have hmetadata : IsText (braces (metadata.map metadataProperty)) := by
    apply isText_braces
    intro us hus
    obtain ⟨e, -, rfl⟩ := List.mem_map.1 hus
    exact isText_property (isText_quote e.2)
  dsimp only [canonicalServiceErrorText]
  apply isText_braces
  intro us hus
  simp only [List.mem_cons, List.not_mem_nil, or_false] at hus
  obtain rfl | rfl | rfl := hus
  · exact isText_property (isText_quote code)
  · exact isText_property (isText_quote message)
  · exact isText_property hmetadata

variable {numberValue}

theorem denotes_metadata {metadata : List (JsString × JsString)} (h : Listed metadata) :
  JsonReader.Denotes numberValue (braces (metadata.map metadataProperty))
    (.object (metadata.map fun e => (e.1, .string e.2)))
  := by
  have hnames : (metadata.map fun e => (e.1, Json.string e.2)).map Prod.fst =
      metadata.map Prod.fst := by
    rw [List.map_map]
    rfl
  have hlisted : Listed (metadata.map fun e => (e.1, Json.string e.2)) :=
    h.sublist (by rw [hnames])
  rw [← hlisted.own]
  exact JsonReader.denotes_braces (fun e _ => JsonReader.denotes_quote e.2) h.nodup

/-- The document of an error. -/
def errorDocument (code message : JsString) (metadata : List (JsString × JsString)) : Json :=
  .object [(ofString "code", .string code), (ofString "message", .string message),
    (ofString "metadata", .object (metadata.map fun e => (e.1, .string e.2)))]

theorem parse_canonical (code message : JsString) {metadata : List (JsString × JsString)}
    (h : Listed metadata) :
  JsonReader.parse numberValue (canonicalServiceErrorText code message metadata) =
    some (errorDocument code message metadata)
  := by
  apply JsonReader.parse_of_denotes
  have hparts := @JsonReader.denotes_braces numberValue _ (fun p => p.2.1) (fun p => p.2.2)
    (fun p : JsString × List UInt16 × Json => p.1)
    [(ofString "code", quote code, .string code),
      (ofString "message", quote message, .string message),
      (ofString "metadata", braces (metadata.map metadataProperty),
        .object (metadata.map fun e => (e.1, .string e.2)))] (by
      intro p hp
      simp only [List.mem_cons, List.not_mem_nil, or_false] at hp
      obtain rfl | rfl | rfl := hp
      · exact JsonReader.denotes_quote code
      · exact JsonReader.denotes_quote message
      · exact denotes_metadata h) (by
      simp only [List.map_cons, List.map_nil]
      decide)
  rw [OwnOrder.ownOrder_eq_self] at hparts
  · exact hparts
  · intro p hp
    simp only [List.map_cons, List.map_nil, List.mem_cons, List.not_mem_nil, or_false] at hp
    obtain rfl | rfl | rfl := hp
    · rfl
    · rfl
    · rfl

/-- The canonical body is read as the text that it was written of. -/
theorem decodeUtf8_canonical (code message : JsString) (metadata : List (JsString × JsString)) :
  decodeUtf8 (canonicalServiceErrorBody code message metadata) =
    some (canonicalServiceErrorText code message metadata)
  := by
  apply decodeUtf8_of_isText (isText_canonical code message metadata)
  intro hhead
  cases hhead

theorem parsedMetadata_strings (entries : List (JsString × JsString)) :
  parsedMetadata (some (.object (entries.map fun e => (e.1, .string e.2)))) =
    .ok (StringRecord.of entries)
  := by
  have hmap : (entries.map fun e => (e.1, Json.string e.2)).mapM stringProperty = .ok entries := by
    induction entries with
    | nil => rfl
    | cons e entries ih =>
        rw [List.map_cons, List.mapM_cons, ih]
        rfl
  rw [parsedMetadata, hmap]
  rfl

/-- The metadata of an error are a snapshot of themselves. -/
theorem snapshot_entries (m : ServiceErrorMetadata) :
  snapshotServiceErrorMetadata (StringRecord.of m.entries) = .ok m
  := by
  have hval : (StringRecord.of m.entries).val = m.entries := m.listed.fromEntries
  apply snapshotServiceErrorMetadata_eq_ok.2
  rw [hval]
  exact ⟨m.count, m.bounded, m.ordered.symm⟩

/-- An error is created again from its own parts. -/
theorem serviceError_parts (e : ServiceError) :
  serviceError e.code e.message e.status (StringRecord.of e.metadata.entries) = .ok e
  := serviceError_eq_ok.2 ⟨rfl, rfl, rfl, snapshot_entries e.metadata⟩

theorem parsedServiceError_errorDocument (e : ServiceError) :
  parsedServiceError e.status (errorDocument e.code e.message e.metadata.entries) = some e
  := by
  have hmetadata : Json.property [(ofString "code", Json.string e.code),
      (ofString "message", .string e.message), (ofString "metadata",
        .object (e.metadata.entries.map fun e => (e.1, .string e.2)))] (ofString "metadata") =
      some (.object (e.metadata.entries.map fun e => (e.1, .string e.2))) := rfl
  have hkeys : ∀ code message metadata : Json, exactServiceErrorKeys [(ofString "code", code),
      (ofString "message", message), (ofString "metadata", metadata)] = true :=
    fun _ _ _ => rfl
  rw [errorDocument, parsedServiceError, if_pos (hkeys _ _ _), hmetadata, parsedMetadata_strings]
  exact congrArg Except.toOption (serviceError_parts e)

theorem jsonMediaType_response (e : ServiceError) :
  jsonMediaType lower (serviceErrorResponse e) = true
  := by
  have hascii : (ofString "application/json").units.all (fun u => u < 128) = true := rfl
  have hlower := lower.ascii (ofString "application/json")
    fun u hu => of_decide_eq_true (List.all_eq_true.1 hascii u hu)
  have htrimmed : trimmed ⟨(ofString "application/json").units.takeWhile fun u => u ≠ 59⟩ =
      ofString "application/json" := rfl
  have hsame : (ofString "application/json").lowerAscii = ofString "application/json" := rfl
  rw [jsonMediaType, serviceErrorResponse]
  simp only [htrimmed, hlower, hsame, decide_true]

/-- The response of an error is decoded to the error. -/
theorem decode_serviceErrorResponse (e : ServiceError) :
  decodeServiceErrorResponse lower numberValue (serviceErrorResponse e) = some e
  := by
  have hstatus : ¬ isServiceErrorStatus (serviceErrorResponse e).status = false := by
    rw [Bool.not_eq_false]
    exact e.status_valid
  have hmedia : ¬ jsonMediaType lower (serviceErrorResponse e) = false := by
    rw [Bool.not_eq_false]
    exact jsonMediaType_response lower e
  have hbytes : ¬ maximumServiceErrorBodyBytes <
      (canonicalServiceErrorBody e.code e.message e.metadata.entries).length :=
    not_lt.2 e.body_bytes
  rw [decodeServiceErrorResponse, if_neg hstatus, if_neg hmedia]
  simp only [serviceErrorResponse, Option.bind_eq_bind, Option.bind_some]
  rw [if_neg hbytes, decodeUtf8_canonical, Option.bind_some, parse_canonical _ _ e.metadata.listed,
    Option.bind_some]
  exact parsedServiceError_errorDocument e

theorem status_of_parsed {status : JsNumber} {j : Json} {e : ServiceError}
    (h : parsedServiceError status j = some e) :
  e.status = status
  := by
  unfold parsedServiceError at h
  split at h
  · split at h
    case isFalse => cases h
    split at h
    · cases hresult : parsedMetadata (Json.property _ (ofString "metadata")) >>=
          serviceError _ _ status with
      | error failure =>
          rw [hresult] at h
          cases h
      | ok e' =>
          rw [hresult] at h
          obtain ⟨metadata, -, hcreated⟩ := bind_eq_ok_iff.1 hresult
          obtain ⟨-, -, hstatus, -⟩ := serviceError_eq_ok.1 hcreated
          cases h
          exact hstatus
    · cases h
  · cases h

theorem status_of_decode {response : Response} {e : ServiceError}
    (h : decodeServiceErrorResponse lower numberValue response = some e) :
  e.status = response.status
  := by
  unfold decodeServiceErrorResponse at h
  split at h
  case isTrue => cases h
  split at h
  case isTrue => cases h
  obtain ⟨bytes, -, h⟩ := Option.bind_eq_some_iff.1 h
  split at h
  case isTrue => cases h
  obtain ⟨text, -, h⟩ := Option.bind_eq_some_iff.1 h
  obtain ⟨parsed, -, h⟩ := Option.bind_eq_some_iff.1 h
  exact status_of_parsed h

/-- The parts of an error are within their bounds, and so is its canonical body. -/
structure Bounded (e : ServiceError) : Prop where
  code : isServiceErrorCode e.code = true
  message : e.message.isWellFormed = true ∧
    e.message.encodeUtf8.length ≤ maximumServiceErrorMessageBytes
  status : ∃ n : ℤ, e.status.toSafeInteger? = some n ∧ 400 ≤ n ∧ n ≤ 599
  count : e.metadata.entries.length ≤ maximumServiceErrorMetadataEntries
  entries : ∀ p ∈ e.metadata.entries, BoundedEntry p
  body : (canonicalServiceErrorBody e.code e.message e.metadata.entries).length ≤
    maximumServiceErrorBodyBytes

theorem bounded (e : ServiceError) :
  Bounded e
  := by
  refine ⟨e.code_valid, ⟨e.message_wellFormed, e.message_bytes⟩, ?_, e.metadata.count,
    e.metadata.bounded, e.body_bytes⟩
  have hstatus := e.status_valid
  rw [isServiceErrorStatus, Option.any_eq_true] at hstatus
  obtain ⟨n, hn, hrange⟩ := hstatus
  rw [Bool.and_eq_true, decide_eq_true_eq, decide_eq_true_eq] at hrange
  exact ⟨n, hn, hrange⟩

/-- An error that is created has the code, the message, the status and the metadata that it is
created with, and its response is decoded to it. An error that is decoded is within all bounds, is
created again from its parts, and its response is decoded to it again. -/
theorem serviceErrors_survive (lower : LowerCase) (numberValue : List UInt16 → JsNumber) :
  (∀ code message status metadata e, serviceError code message status metadata = .ok e →
    e.code = code ∧ e.message = message ∧ e.status = status ∧
      e.metadata.entries.Perm metadata.val ∧
      decodeServiceErrorResponse lower numberValue (serviceErrorResponse e) = some e) ∧
  ∀ response e, decodeServiceErrorResponse lower numberValue response = some e →
    Bounded e ∧ e.status = response.status ∧
      serviceError e.code e.message e.status ⟨e.metadata.entries, e.metadata.listed⟩ = .ok e ∧
      decodeServiceErrorResponse lower numberValue (serviceErrorResponse e) = some e
  := by
  refine ⟨?_, ?_⟩
  · intro code message status metadata e h
    obtain ⟨hcode, hmessage, hstatus, hmetadata⟩ := serviceError_eq_ok.1 h
    obtain ⟨-, -, hentries⟩ := snapshotServiceErrorMetadata_eq_ok.1 hmetadata
    refine ⟨hcode, hmessage, hstatus, ?_, decode_serviceErrorResponse lower e⟩
    rw [hentries]
    exact sortedRecord_perm metadata.property.nodup
  · intro response e h
    refine ⟨bounded e, status_of_decode lower h, ?_, decode_serviceErrorResponse lower e⟩
    have hrecord : (⟨e.metadata.entries, e.metadata.listed⟩ : StringRecord) =
        StringRecord.of e.metadata.entries := Subtype.ext e.metadata.listed.fromEntries.symm
    rw [hrecord]
    exact serviceError_parts e

end Transport
