import GoLike.Store.Base64

/-!
# Records as JSON documents

What the providers that keep records as JSON texts share: the names of properties, the
encoding and decoding of metadata and times of expiry, and the payload under which the
providers over a key-value service store a record. A payload carries the marker of the
operation that wrote it.
-/

namespace Store

/-- The name of a property. -/
def name (text : String) : JsString := JsString.ofString text

/-! ### Encoding -/

/-- The document of metadata. -/
def metadataDocument (metadata : Metadata) : Json :=
  .object (metadata.entries.map (fun e => (e.1.val, .string e.2.val)))

/-- The document of a time of expiry. -/
def expiryDocument : Option ℕ → Json
  | none => .null
  | some t => .number (.ofNat t)

/-- The payload of a record that an operation writes. -/
def payloadDocument (operation : Key) (value : List UInt8) (metadata : Metadata)
    (expiresAt : Option ℕ) : Json :=
  .object
    [(name "version", .number (.ofNat 1)), (name "operation", .string operation.val),
      (name "value", .string (Base64.encodeBase64 value)),
      (name "metadata", metadataDocument metadata),
      (name "expiresAt", expiryDocument expiresAt)]

/-! ### Decoding -/

/-- The object has exactly the listed properties. -/
def hasKeys (properties : List (JsString × Json)) (expected : List JsString) : Bool :=
  (properties.map Prod.fst).isPerm expected

/-- The string, if it is well formed, and not empty when `nonEmpty` is set. -/
def exactly? (nonEmpty : Bool) (value : JsString) : Option (ExactString nonEmpty) :=
  if h : value.isWellFormed = true ∧ (nonEmpty = true → value.isEmpty = false) then
    some ⟨value, h⟩
  else none

/-- The properties of a metadata object whose values are well-formed strings. -/
def metadataEntries : List (JsString × Json) → Option (List (Σ _ : JsString, JsString))
  | [] => some []
  | (key, value) :: rest => do
      let entry ← value.asString
      guard (key.isWellFormed && entry.isWellFormed)
      let others ← metadataEntries rest
      some (⟨key, entry⟩ :: others)

/-- The metadata object of a document. -/
def metadataObject : Json → Option StringRecord
  | .object properties => do
      let entries ← metadataEntries properties
      if h : (entries.map Sigma.fst).Nodup then some ⟨entries, h⟩ else none
  | _ => none

/-- The time of expiry of a document. -/
def expiryOf : Json → Option (Option Timestamp)
  | .null => some none
  | .number x =>
      match h : x.toSafeNat? with
      | none => none
      | some t => some (some ⟨t, JsNumber.le_of_toSafeNat? h⟩)
  | _ => none

/-- The marker of a payload. -/
def markerOf (payload : JsonText) : Option JsString :=
  match payload.document with
  | some (.object properties) => (Json.property properties (name "operation")).bind Json.asString
  | _ => none

@[simp]
theorem markerOf_payloadDocument (operation : Key) (value : List UInt8) (metadata : Metadata)
    (expiresAt : Option ℕ) :
  markerOf (Json.stringify (payloadDocument operation value metadata expiresAt)) =
    some operation.val
  := rfl

/-! ### The round trip -/

theorem exactly?_val {nonEmpty : Bool} (s : ExactString nonEmpty) :
  exactly? nonEmpty s.val = some s
  := by
  rw [exactly?, dif_pos s.property]

theorem metadataEntries_map (es : List MetadataEntry) :
  metadataEntries (es.map (fun e => (e.1.val, .string e.2.val))) =
    some (es.map (fun e => ⟨e.1.val, e.2.val⟩))
  := by
  induction es with
  | nil => rfl
  | cons e es ih => simp [metadataEntries, Json.asString, ih, e.1.property.1, e.2.property.1]

theorem metadataObject_encode (m : Metadata) :
  metadataObject (metadataDocument m) = some m.toObject
  := by
  have hnodup : ((m.entries.map (fun e => (⟨e.1.val, e.2.val⟩ : Σ _ : JsString, JsString))).map
      Sigma.fst).Nodup := m.toObject.nodupKeys
  simp only [metadataDocument, metadataObject, metadataEntries_map, Option.bind_eq_bind, Option.bind_some]
  rw [dif_pos hnodup]
  rfl

theorem expiryOf_encode (expiresAt : Option Timestamp) :
  expiryOf (expiryDocument (expiresAt.map Subtype.val)) = some expiresAt
  := by
  cases expiresAt with
  | none => rfl
  | some t =>
      have ht := JsNumber.toSafeNat?_ofNat t.property
      simp only [Option.map_some, expiryDocument, expiryOf]
      split
      · rename_i hnone
        rw [ht] at hnone
        cases hnone
      · rename_i n hn
        rw [ht] at hn
        cases hn
        rfl

/-! ### What is accepted -/

theorem exactly?_eq_some {nonEmpty : Bool} {value : JsString} {s : ExactString nonEmpty}
    (h : exactly? nonEmpty value = some s) :
  s.val = value
  := by
  rw [exactly?] at h
  split at h
  · cases h
    rfl
  · cases h

theorem toOption_eq_some {α : Type} {v : Except StoreError α} {a : α}
    (h : v.toOption = some a) :
  v = .ok a
  := by
  cases v with
  | ok b =>
      cases h
      rfl
  | error e => cases h

theorem guard_eq_some {p : Prop} [Decidable p] {u : Unit} :
  (guard p : Option Unit) = some u ↔ p
  := by
  by_cases h : p
  · simp [guard, h]
  · simp [guard, h]

theorem fields_of_snapshotStoreRecord {candidate : StoreRecordCandidate} {r : StoreRecord}
    (h : snapshotStoreRecord candidate = .ok r) :
  r.key.val = candidate.key ∧ r.value = candidate.value ∧ r.revision.val = candidate.revision
  := by
  simp only [snapshotStoreRecord, bind_eq_ok, exactString_eq_ok, Except.ok.injEq] at h
  obtain ⟨_, -, key, hkey, _, -, revision, hrevision, rfl⟩ := h
  exact ⟨hkey, rfl, hrevision⟩

end Store
