import GoLike.Store.Document
import GoLike.Store.Table

/-!
# The snapshot file of the File Store

The File Store keeps all its records in one file, a JSON document with the generation, the
records in the order of their keys, and a checksum of both. Loading the file validates the
checksum, the schema and each record. What has been written is loaded as it was written.

The digest over which the checksum is taken is a parameter.
-/

namespace Store.File

def SnapshotSchemaVersion : ℕ := 1

def MaximumRevision : ℕ := JsNumber.MaxSafeInteger

def MaximumKeyBytes : ℕ := 4096

def MaximumValueBytes : ℕ := 16777216

/-- The content of a file: bytes that are not UTF-8, or a text with the document it
parses to, if any. -/
inductive SnapshotBytes where
  | undecodable
  | text (document : Option Json)

/-- Why a snapshot is corrupt. -/
inductive FileStoreCorruptionReason where
  | encoding | json | schema | checksum | record
  deriving DecidableEq

/-- What a snapshot holds. -/
structure LoadedSnapshot where
  records : Records
  revision : ℕ

/-! ### Checksums -/

/-- A SHA-256 digest. -/
abbrev Digest : Type := {bytes : List UInt8 // bytes.length = 32}

/-- The lowercase hexadecimal digit of a value. -/
def hexDigit (value : ℕ) : UInt16 :=
  if value < 10 then UInt16.ofNat (48 + value) else UInt16.ofNat (87 + value)

/-- The two hexadecimal digits of a byte. -/
def hexByte (byte : UInt8) : List UInt16 :=
  [hexDigit (byte.toNat / 16), hexDigit (byte.toNat % 16)]

/-- The checksum of a document of a given digest. -/
def checksumOf (digest : Digest) : JsString := ⟨digest.val.flatMap hexByte⟩

/-- The unit is a lowercase hexadecimal digit. -/
def isHexDigit (u : UInt16) : Bool :=
  (48 ≤ u.toNat && u.toNat < 58) || (97 ≤ u.toNat && u.toNat < 103)

/-- The string consists of 64 lowercase hexadecimal digits. -/
def isChecksum (s : JsString) : Bool := s.units.length = 64 && s.units.all isHexDigit

/-! ### Encoding -/

/-- The document of a record. -/
def encodeRecord (record : StoreRecord) : Json :=
  .object
    [(name "key", .string record.key.val),
      (name "value", .string (Base64.encodeBase64 record.value)),
      (name "metadata", metadataDocument record.metadata),
      (name "revision", .string record.revision.val),
      (name "expiresAt", expiryDocument (record.expiresAt.map Subtype.val))]

/-- The document of which the checksum is taken. -/
def payload (schemaVersion revision records : Json) : Json :=
  .object [(name "schemaVersion", schemaVersion), (name "revision", revision),
    (name "records", records)]

/-- The records in the order of their keys. -/
def sortedRecords (records : Records) : List StoreRecord :=
  sortByKey StoreRecord.key (records.entries.map Sigma.snd)

/-- The snapshot of records at a generation. -/
def encodeSnapshot (digest : Json → Digest) (records : Records) (revision : ℕ) :
    SnapshotBytes :=
  let schemaVersion := Json.number (.ofNat SnapshotSchemaVersion)
  let generation := Json.number (.ofNat revision)
  let persisted := Json.array ((sortedRecords records).map encodeRecord)
  .text (some (.object
    [(name "schemaVersion", schemaVersion), (name "revision", generation),
      (name "records", persisted),
      (name "checksum",
        .string (checksumOf (digest (payload schemaVersion generation persisted))))]))

/-! ### Decoding -/

/-- The record of the properties of a document; `none` stands for any failure. -/
def recordOf (properties : List (JsString × Json)) (maximumRevision : ℕ) :
    Option StoreRecord := do
  let key ← (← (Json.property properties (name "key"))).asString.bind (exactly? true)
  let revision ← (← (Json.property properties (name "revision"))).asString.bind (exactly? true)
  guard revision.val.isDecimal
  let numericRevision := revision.val.decimalValue
  guard (numericRevision ≤ JsNumber.MaxSafeInteger ∧ 1 ≤ numericRevision ∧
    numericRevision ≤ maximumRevision)
  guard (key.val.utf8Length ≤ MaximumKeyBytes)
  let metadata ← metadataObject (← Json.property properties (name "metadata"))
  let expiresAt ← expiryOf (← Json.property properties (name "expiresAt"))
  let value ← (← (Json.property properties (name "value"))).asString
  let bytes ← (Base64.decodeBase64 value MaximumValueBytes).toOption
  (snapshotStoreRecord
    { key := key.val
      value := bytes
      metadata := metadata
      revision := revision.val
      expiresAt := expiresAt.map (fun t => JsNumber.ofNat t.val) }).toOption

/-- Decode one record. -/
def decodeRecord (value : Json) (maximumRevision : ℕ) :
    Except FileStoreCorruptionReason StoreRecord :=
  match value with
  | .object properties =>
      if hasKeys properties
          [name "expiresAt", name "key", name "metadata", name "revision", name "value"] then
        match recordOf properties maximumRevision with
        | none => .error .record
        | some record => .ok record
      else .error .record
  | _ => .error .record

/-- Decode records in order, rejecting a repeated key. -/
def decodeRecords (maximumRevision : ℕ) (records : Records) :
    List Json → Except FileStoreCorruptionReason Records
  | [] => .ok records
  | value :: rest =>
      match decodeRecord value maximumRevision with
      | .error reason => .error reason
      | .ok record =>
          if (records.lookup record.key).isSome then .error .record
          else decodeRecords maximumRevision (records.insert record.key record) rest

/-- Decode and validate a snapshot. -/
def decodeSnapshot (digest : Json → Digest) (bytes : SnapshotBytes) :
    Except FileStoreCorruptionReason LoadedSnapshot :=
  match bytes with
  | .undecodable => .error .encoding
  | .text none => .error .json
  | .text (some (.object properties)) =>
      if ¬ hasKeys properties
          [name "checksum", name "records", name "revision", name "schemaVersion"] then
        .error .schema
      else
        match (Json.property properties (name "checksum")).bind Json.asString,
            Json.property properties (name "schemaVersion"),
            Json.property properties (name "revision"),
            Json.property properties (name "records") with
        | some checksum, some schemaVersion, some revision, some records =>
            if ¬ isChecksum checksum then .error .checksum
            else if checksumOf (digest (payload schemaVersion revision records)) ≠ checksum then
              .error .checksum
            else
              match schemaVersion, revision, records with
              | .number version, .number generation, .array values =>
                  match generation.toSafeNat? with
                  | none => .error .schema
                  | some n =>
                      if version ≠ .ofNat SnapshotSchemaVersion then .error .schema
                      else
                        match decodeRecords n ∅ values with
                        | .error reason => .error reason
                        | .ok loaded => .ok ⟨loaded, n⟩
              | _, _, _ => .error .schema
        | _, _, _, _ => .error .checksum
  | .text (some _) => .error .schema

/-! ### The round trip -/

/-- The record can be stored at a generation: its revision is the decimal text of one
issued by then, and its key and value are within bounds. -/
structure Storable (revision : ℕ) (r : StoreRecord) : Prop where
  decimal : r.revision.val.isDecimal = true
  positive : 1 ≤ r.revision.val.decimalValue
  issued : r.revision.val.decimalValue ≤ revision
  keyBytes : r.key.val.utf8Length ≤ MaximumKeyBytes
  valueBytes : r.value.length ≤ MaximumValueBytes

/-- The properties of the document of a record. -/
theorem recordOf_properties (key value metadata revision expiresAt : Json) :
  let properties := [(name "key", key), (name "value", value), (name "metadata", metadata),
    (name "revision", revision), (name "expiresAt", expiresAt)]
  Json.property properties (name "key") = some key ∧
    Json.property properties (name "value") = some value ∧
    Json.property properties (name "metadata") = some metadata ∧
    Json.property properties (name "revision") = some revision ∧
    Json.property properties (name "expiresAt") = some expiresAt
  := ⟨rfl, rfl, rfl, rfl, rfl⟩

variable {revision : ℕ} {r : StoreRecord}

/-- A storable record is decoded from a document with its fields, in whatever order the
properties of its metadata are listed. -/
theorem decodeRecord_fields (hrevision : revision ≤ MaximumRevision) (h : Storable revision r)
    {metadata : Json} {object : StringRecord} (hobject : metadataObject metadata = some object)
    (hmetadata : snapshotMetadata object = .ok r.metadata) :
  decodeRecord (.object
    [(name "key", .string r.key.val), (name "value", .string (Base64.encodeBase64 r.value)),
      (name "metadata", metadata), (name "revision", .string r.revision.val),
      (name "expiresAt", expiryDocument (r.expiresAt.map Subtype.val))]) revision = .ok r
  := by
  obtain ⟨hdecimal, hpos, hle, hkey, hvalue⟩ := h
  have hsnapshot : snapshotStoreRecord
      { key := r.key.val
        value := r.value
        metadata := object
        revision := r.revision.val
        expiresAt := r.expiresAt.map (fun t => JsNumber.ofNat t.val) } = .ok r := by
    have hwhole := snapshotStoreRecord_toCandidate r
    simp only [snapshotStoreRecord, StoreRecord.toCandidate, snapshotMetadata_toObject] at hwhole
    simp only [snapshotStoreRecord, hmetadata]
    exact hwhole
  have hbase64 : (Base64.decodeBase64 (Base64.encodeBase64 r.value) MaximumValueBytes).toOption =
      some r.value := by
    rw [Base64.decodeBase64_encodeBase64 hvalue]
    rfl
  obtain ⟨hp₁, hp₂, hp₃, hp₄, hp₅⟩ := recordOf_properties (.string r.key.val)
    (.string (Base64.encodeBase64 r.value)) metadata
    (.string r.revision.val) (expiryDocument (r.expiresAt.map Subtype.val))
  have hbounds : r.revision.val.decimalValue ≤ JsNumber.MaxSafeInteger ∧
      1 ≤ r.revision.val.decimalValue ∧ r.revision.val.decimalValue ≤ revision :=
    ⟨hle.trans hrevision, hpos, hle⟩
  rw [decodeRecord, if_pos (by rfl), recordOf, hp₁, hp₂, hp₃, hp₄, hp₅]
  simp only [Option.bind_eq_bind, Option.bind_some, Json.asString, exactly?_val, hdecimal,
    guard, hbounds, hkey, hobject, expiryOf_encode, hbase64, hsnapshot, if_true, and_self]
  rfl

/-- A storable record is decoded from its document. -/
theorem decodeRecord_encodeRecord (hrevision : revision ≤ MaximumRevision)
    (h : Storable revision r) :
  decodeRecord (encodeRecord r) revision = .ok r
  := decodeRecord_fields hrevision h (metadataObject_encode r.metadata)
    (snapshotMetadata_toObject r.metadata)

variable {records : Records}

/-- Records with new and distinct keys are added to those decoded before. -/
theorem decodeRecords_map {encode : StoreRecord → Json} {l : List StoreRecord}
    (hl : ∀ r ∈ l, decodeRecord (encode r) revision = .ok r)
    (hnodup : (l.map StoreRecord.key).Nodup) (hfresh : ∀ r ∈ l, records.lookup r.key = none) :
  ∃ records', decodeRecords revision records (l.map encode) = .ok records' ∧
    ∀ key r, records'.lookup key = some r ↔
      (r ∈ l ∧ r.key = key) ∨ records.lookup key = some r
  := by
  induction l generalizing records with
  | nil => exact ⟨records, rfl, by simp⟩
  | cons r l ih =>
      simp only [List.map_cons, List.nodup_cons] at hnodup
      have hne : ∀ x ∈ l, x.key ≠ r.key := by
        intro x hx heq
        exact hnodup.1 (heq ▸ List.mem_map_of_mem hx)
      have hfresh' : ∀ x ∈ l, (records.insert r.key r).lookup x.key = none := by
        intro x hx
        rw [AList.lookup_insert_ne (hne x hx)]
        exact hfresh x (List.mem_cons_of_mem _ hx)
      obtain ⟨records', hdecode, hlookup⟩ :=
        ih (fun x hx => hl x (List.mem_cons_of_mem _ hx)) hnodup.2 hfresh'
      have hr := hfresh r List.mem_cons_self
      refine ⟨records', ?_, ?_⟩
      · rw [List.map_cons, decodeRecords,
          hl r List.mem_cons_self]
        simp only [hr, Option.isSome_none, Bool.false_eq_true, if_false, hdecode]
      · intro key x
        rw [hlookup]
        by_cases hkey : key = r.key
        · subst hkey
          rw [AList.lookup_insert, hr]
          constructor
          · rintro (⟨hx, heq⟩ | heq)
            · exact absurd heq (hne x hx)
            · cases heq
              exact .inl ⟨List.mem_cons_self, rfl⟩
          · rintro (⟨hx, heq⟩ | heq)
            · cases List.mem_cons.mp hx with
              | inl hxr => exact .inr (by rw [hxr])
              | inr hx => exact absurd heq (hne x hx)
            · cases heq
        · rw [AList.lookup_insert_ne hkey]
          constructor
          · rintro (⟨hx, heq⟩ | heq)
            · exact .inl ⟨List.mem_cons_of_mem _ hx, heq⟩
            · exact .inr heq
          · rintro (⟨hx, heq⟩ | heq)
            · cases List.mem_cons.mp hx with
              | inl hxr => exact absurd (by rw [← heq, hxr]) hkey
              | inr hx => exact .inl ⟨hx, heq⟩
            · exact .inr heq

theorem length_flatMap_hexByte (bytes : List UInt8) :
  (bytes.flatMap hexByte).length = bytes.length * 2
  := by
  induction bytes with
  | nil => rfl
  | cons b bytes ih =>
      rw [List.flatMap_cons, List.length_append, ih, List.length_cons]
      simp only [hexByte, List.length_cons, List.length_nil]
      omega

theorem isChecksum_checksumOf (digest : Digest) :
  isChecksum (checksumOf digest) = true
  := by
  have hdigit : ∀ value : Fin 16, isHexDigit (hexDigit value.val) = true := by decide
  simp only [isChecksum, checksumOf, length_flatMap_hexByte, digest.property, Bool.and_eq_true,
    decide_eq_true_eq, List.all_eq_true, List.mem_flatMap]
  refine ⟨trivial, ?_⟩
  rintro u ⟨b, -, hu⟩
  have hb : b.toNat < 256 := b.toNat_lt
  simp only [hexByte, List.mem_cons, List.not_mem_nil, or_false] at hu
  obtain rfl | rfl := hu
  · exact hdigit ⟨b.toNat / 16, by omega⟩
  · exact hdigit ⟨b.toNat % 16, by omega⟩

/-- The properties of the document of a snapshot. -/
theorem snapshot_properties (schemaVersion revision records checksum : Json) :
  let properties := [(name "schemaVersion", schemaVersion), (name "revision", revision),
    (name "records", records), (name "checksum", checksum)]
  hasKeys properties
      [name "checksum", name "records", name "revision", name "schemaVersion"] = true ∧
    Json.property properties (name "schemaVersion") = some schemaVersion ∧
    Json.property properties (name "revision") = some revision ∧
    Json.property properties (name "records") = some records ∧
    Json.property properties (name "checksum") = some checksum
  := by
  refine ⟨?_, rfl, rfl, rfl, rfl⟩
  simp only [hasKeys, List.map]
  decide +kernel

/-- The records can be stored at a generation. -/
structure StorableAll (records : Records) (revision : ℕ) : Prop where
  revision_le : revision ≤ MaximumRevision
  keyed : Keyed records
  storable : ∀ key r, records.lookup key = some r → Storable revision r

/-- The document of a snapshot, given how a record is encoded. -/
def snapshotDocument (digest : Json → Digest) (encode : StoreRecord → Json) (records : Records)
    (revision : ℕ) : Json :=
  let schemaVersion := Json.number (.ofNat SnapshotSchemaVersion)
  let generation := Json.number (.ofNat revision)
  let persisted := Json.array ((sortedRecords records).map encode)
  .object
    [(name "schemaVersion", schemaVersion), (name "revision", generation),
      (name "records", persisted),
      (name "checksum",
        .string (checksumOf (digest (payload schemaVersion generation persisted))))]

/-- The document of a snapshot is decoded to the records and the generation it was taken of. -/
theorem decodeSnapshot_snapshotDocument (digest : Json → Digest) (h : StorableAll records revision)
    {encode : StoreRecord → Json}
    (hencode : ∀ r, Storable revision r → decodeRecord (encode r) revision = .ok r) :
  ∃ records', decodeSnapshot digest (.text (some (snapshotDocument digest encode records revision))) =
      .ok ⟨records', revision⟩ ∧
    ∀ key, records'.lookup key = records.lookup key
  := by
  let sorted := sortedRecords records
  have hmem : ∀ r, r ∈ sorted ↔ records.lookup r.key = some r := by
    intro r
    simp only [sorted, sortedRecords, mem_sortByKey, List.mem_map]
    constructor
    · rintro ⟨⟨k, r'⟩, hentry, rfl⟩
      have hl : records.lookup k = some r' := AList.mem_lookup_iff.mpr hentry
      have hk : r'.key = k := h.keyed k r' hl
      rw [hk]
      exact hl
    · intro hl
      exact ⟨⟨r.key, r⟩, AList.mem_lookup_iff.mp hl, rfl⟩
  have hdecodes : ∀ r ∈ sorted, decodeRecord (encode r) revision = .ok r := by
    intro r hr
    exact hencode r (h.storable r.key r ((hmem r).mp hr))
  have hnodup : (sorted.map StoreRecord.key).Nodup := by
    have hkeys : (records.entries.map Sigma.fst).Nodup := records.nodupKeys
    have hsame : (records.entries.map Sigma.snd).map StoreRecord.key =
        records.entries.map Sigma.fst := by
      rw [List.map_map]
      apply List.map_congr_left
      rintro ⟨k, r⟩ hentry
      exact h.keyed k r (AList.mem_lookup_iff.mpr hentry)
    rw [← hsame] at hkeys
    exact ((sortByKey_perm StoreRecord.key _).map _).nodup_iff.mpr hkeys
  have hfresh : ∀ r ∈ sorted, (∅ : Records).lookup r.key = none := by simp
  obtain ⟨records', hdecode, hlookup⟩ :=
    decodeRecords_map hdecodes hnodup hfresh
  have hgeneration := JsNumber.toSafeNat?_ofNat h.revision_le
  refine ⟨records', ?_, ?_⟩
  · obtain ⟨hkeys, hp₁, hp₂, hp₃, hp₄⟩ := snapshot_properties (.number (.ofNat SnapshotSchemaVersion))
      (.number (.ofNat revision)) (.array (sorted.map encode))
      (.string (checksumOf (digest (payload (.number (.ofNat SnapshotSchemaVersion))
        (.number (.ofNat revision)) (.array (sorted.map encode))))))
    simp only [snapshotDocument, decodeSnapshot]
    rw [if_neg (not_not.mpr hkeys), hp₁, hp₂, hp₃, hp₄]
    simp only [Option.bind_some, Json.asString, isChecksum_checksumOf, not_true_eq_false,
      if_false, ne_eq, hgeneration]
    rw [hdecode]
  · intro key
    apply Option.ext
    intro r
    rw [hlookup]
    simp only [AList.lookup_empty, reduceCtorEq, or_false, hmem]
    constructor
    · rintro ⟨hl, rfl⟩
      exact hl
    · intro hl
      have hk := h.keyed key r hl
      rw [hk]
      exact ⟨hl, rfl⟩

/-- A snapshot is decoded to the records and the generation it was taken of. -/
theorem decodeSnapshot_encodeSnapshot (digest : Json → Digest) (h : StorableAll records revision) :
  ∃ records', decodeSnapshot digest (encodeSnapshot digest records revision) =
      .ok ⟨records', revision⟩ ∧
    ∀ key, records'.lookup key = records.lookup key
  := decodeSnapshot_snapshotDocument digest h (fun _ hr => decodeRecord_encodeRecord h.revision_le hr)

/-! ### What is accepted -/

theorem recordOf_storable {properties : List (JsString × Json)}
    (h : recordOf properties revision = some r) :
  Storable revision r
  := by
  simp only [recordOf, Option.bind_eq_bind, Option.bind_eq_some_iff, guard_eq_some] at h
  obtain ⟨_, -, key, -, _, -, rev, -, _, hdecimal, _, ⟨-, hpos, hle⟩, _, hkey, _, -, _, -, _, -, _,
    -, _, -, _, -, bytes, hbytes, hr⟩ := h
  have hvalue := Base64.length_le_of_decodeBase64 (toOption_eq_some hbytes)
  obtain ⟨hkey', hvalue', hrev'⟩ := fields_of_snapshotStoreRecord (toOption_eq_some hr)
  simp only at hkey' hvalue' hrev'
  rw [← hrev'] at hdecimal hpos hle
  rw [← hkey'] at hkey
  rw [← hvalue'] at hvalue
  exact ⟨hdecimal, hpos, hle, hkey, hvalue⟩

theorem decodeRecord_storable {value : Json} (h : decodeRecord value revision = .ok r) :
  Storable revision r
  := by
  cases value with
  | object properties =>
      rw [decodeRecord] at h
      split at h
      · split at h
        · cases h
        · rename_i hr
          cases h
          exact recordOf_storable hr
      · cases h
  | _ => cases h

theorem decodeRecords_storable {values : List Json} {loaded : Records}
    (h : decodeRecords revision records values = .ok loaded)
    (hrecords : ∀ key r, records.lookup key = some r → r.key = key ∧ Storable revision r) :
  ∀ key r, loaded.lookup key = some r → r.key = key ∧ Storable revision r
  := by
  induction values generalizing records with
  | nil =>
      cases h
      exact hrecords
  | cons value rest ih =>
      rw [decodeRecords] at h
      split at h
      · cases h
      · rename_i record hrecord
        split at h
        · cases h
        · apply ih h
          intro key r hr
          by_cases hkey : key = record.key
          · subst hkey
            rw [AList.lookup_insert] at hr
            cases hr
            exact ⟨rfl, decodeRecord_storable hrecord⟩
          · rw [AList.lookup_insert_ne hkey] at hr
            exact hrecords key r hr

/-- The records of an accepted snapshot can be stored at its generation. -/
theorem decodeSnapshot_storable {digest : Json → Digest} {bytes : SnapshotBytes}
    {loaded : LoadedSnapshot} (h : decodeSnapshot digest bytes = .ok loaded) :
  StorableAll loaded.records loaded.revision
  := by
  unfold decodeSnapshot at h
  split at h
  · cases h
  · cases h
  · split at h
    · cases h
    · split at h
      · split at h
        · cases h
        · split at h
          · cases h
          · split at h
            · split at h
              · cases h
              · rename_i n hn
                split at h
                · cases h
                · split at h
                  · cases h
                  · rename_i records hrecords
                    cases h
                    have hall := decodeRecords_storable hrecords (by simp)
                    exact ⟨JsNumber.le_of_toSafeNat? hn, fun key r hr => (hall key r hr).1,
                      fun key r hr => (hall key r hr).2⟩
            · cases h
      · cases h
  · cases h

end Store.File
