import GoLike.Store.Document
import GoLike.Store.Options

/-!
# Rows and errors of the etcd Store

A record is stored in etcd as a payload under its key. The row of a key is what decoding
its payload yields, with the payload, the modification revision and the lease it was read
with.
-/

namespace Store.Etcd

/-! ### Errors -/

/-- The request during which an error occurred. -/
inductive Operation where
  | read | write | writeReadback | delete | deleteReadback | leaseGrant | leaseRevoke
  deriving DecidableEq

/-- The name of an operation in error messages. -/
def Operation.text : Operation → String
  | read => "read"
  | write => "write"
  | writeReadback => "write-readback"
  | delete => "delete"
  | deleteReadback => "delete-readback"
  | leaseGrant => "lease-grant"
  | leaseRevoke => "lease-revoke"

/-- What an operation of an etcd Store throws. -/
inductive EtcdError where
  | store (e : StoreError)
  /-- A response that is not successful. -/
  | http (operation : Operation) (status : ℕ) (grpcCode : Option ℤ)
  /-- The request was rejected by the transport. -/
  | transport (operation : Operation)
  /-- A response that does not follow the protocol. -/
  | protocol (operation : Operation)
  /-- The lease of a write was lost before the write. -/
  | leaseLost
  /-- It could not be proven whether the mutation took place. -/
  | uncertain (operation : Operation) (cause : EtcdError)
  /-- The mutation took place but a lease was not revoked. -/
  | cleanup (operation : Operation) (cause : EtcdError)
  | aggregate (errors : List EtcdError) (message : String)

/-- The message of a provider error. -/
def EtcdError.message : EtcdError → String
  | store _ => ""
  | http operation status _ =>
      "etcd Store " ++ operation.text ++ " request failed with HTTP " ++ toString status
  | transport operation => "etcd Store " ++ operation.text ++ " transport failed"
  | protocol operation => "etcd Store " ++ operation.text ++ " response violated the protocol"
  | leaseLost => "etcd Store write lease was lost before commit"
  | uncertain operation _ => "etcd Store " ++ operation.text ++ " outcome could not be proven"
  | cleanup operation _ =>
      "etcd Store " ++ operation.text ++ " committed but lease cleanup failed"
  | aggregate _ message => message

/-- The failure may follow a mutation that took place. -/
def isUncertainFailure : EtcdError → Bool
  | .transport _ | .protocol _ => true
  | .http _ status _ => status = 408 ∨ status = 425 ∨ status = 429 ∨ status ≥ 500
  | _ => false

/-- The failure reports that a lease does not exist. -/
def isMissingLease : EtcdError → Bool
  | .http _ status grpcCode => status = 404 ∧ grpcCode = some 5
  | _ => false

/-! ### Validation -/

def maximumKeyBytes : ℕ := 1024

def maximumValueBytes : ℕ := 524288

def maximumPayloadBytes : ℕ := 786432

/-- Validate a key. -/
def storeKey (value : JsString) : Except StoreError Key :=
  match exactly? true value with
  | none => .error (.typeError "etcd Store key must be a well-formed string")
  | some key =>
      if key.val.utf8Length > maximumKeyBytes then
        .error (.rangeError "etcd Store key exceeds 1024 UTF-8 bytes")
      else .ok key

/-- The payload of a record that an operation writes. The number of bytes of the text of a
document is a parameter. -/
def encodeRecordPayload (textBytes : Json → ℕ) (record : StoreRecordInputSnapshot)
    (operation : Key) (expiresAt : Option ℕ) : Except StoreError JsonText :=
  let payload := payloadDocument operation record.value record.metadata expiresAt
  if record.value.length > maximumValueBytes then
    .error (.rangeError "etcd Store value exceeds 524288 bytes")
  else if textBytes payload > maximumPayloadBytes then
    .error (.rangeError "etcd Store encoded record exceeds 786432 bytes")
  else .ok (Json.stringify payload)

/-! ### Rows -/

/-- The lease of a row that does not expire. -/
def PersistentLease : ℤ := 0

/-- A key and its value, as the gateway reports them. -/
structure KeyValue where
  key : JsString
  modRevision : ℕ
  lease : ℤ
  value : JsonText
  deriving DecidableEq

/-- A validated row. -/
structure EtcdRow where
  record : StoreRecord
  payload : JsonText
  lease : ℤ

/-- The record of a payload; `none` stands for a violation of the protocol. -/
def decodePayload (key revision : Key) (payload : JsonText) (lease : ℤ) : Option StoreRecord :=
  match payload.document with
  | some (.object properties) => do
      guard (hasKeys properties
        [name "expiresAt", name "metadata", name "operation", name "value", name "version"])
      guard (Json.property properties (name "version") = some (.number (.ofNat 1)))
      let _marker ← (← (Json.property properties (name "operation"))).asString.bind (exactly? true)
      let expiresAt ← expiryOf (← Json.property properties (name "expiresAt"))
      guard (expiresAt.isNone = decide (lease = PersistentLease))
      let value ← (← (Json.property properties (name "value"))).asString
      let bytes ← (Base64.decodeBase64 value maximumValueBytes).toOption
      let metadata ← metadataObject (← Json.property properties (name "metadata"))
      (snapshotStoreRecord
        { key := key.val
          value := bytes
          metadata := metadata
          revision := revision.val
          expiresAt := expiresAt.map (fun t => JsNumber.ofNat t.val) }).toOption
  | _ => none

/-- The row of a key and its value; `none` stands for a violation of the protocol. -/
def decodeRow (kv : KeyValue) : Option EtcdRow := do
  let key ← (storeKey kv.key).toOption
  guard (kv.modRevision ≠ 0)
  let record ← decodePayload key (revisionText kv.modRevision) kv.value kv.lease
  some ⟨record, kv.value, kv.lease⟩

/-- The row is the one an operation intended to write. -/
def matchesWrite (row : Option EtcdRow) (payload : JsonText) (lease : ℤ) : Bool :=
  row.any (fun row => row.payload = payload ∧ row.lease = lease)

/-! ### What rows are -/

theorem storeKey_eq_ok {value : JsString} {key : Key} (h : storeKey value = .ok key) :
  key.val = value
  := by
  rw [storeKey] at h
  split at h
  · cases h
  · rename_i hexact
    split at h
    · cases h
    · cases h
      exact exactly?_eq_some hexact

theorem decodePayload_eq_some {key revision : Key} {payload : JsonText} {lease : ℤ}
    {r : StoreRecord} (h : decodePayload key revision payload lease = some r) :
  r.key = key ∧ r.revision = revision
  := by
  rw [decodePayload] at h
  split at h
  · simp only [Option.bind_eq_bind, Option.bind_eq_some_iff] at h
    obtain ⟨_, -, _, -, _, -, _, -, _, -, _, -, _, -, _, -, _, -, _, -, _, -, _, -, h⟩ := h
    obtain ⟨hkey, -, hrevision⟩ := fields_of_snapshotStoreRecord (toOption_eq_some h)
    exact ⟨Subtype.ext hkey, Subtype.ext hrevision⟩
  · cases h

/-- A row has the key, the modification revision, the lease and the payload it was read
with. -/
theorem decodeRow_eq_some {kv : KeyValue} {row : EtcdRow} (h : decodeRow kv = some row) :
  row.record.key.val = kv.key ∧ row.record.revision = revisionText kv.modRevision ∧
    row.payload = kv.value ∧ row.lease = kv.lease
  := by
  simp only [decodeRow, Option.bind_eq_bind, Option.bind_eq_some_iff, Option.some.injEq] at h
  obtain ⟨key, hkey, _, -, record, hrecord, rfl⟩ := h
  obtain ⟨hkey', hrevision⟩ := decodePayload_eq_some hrecord
  have hval := storeKey_eq_ok (toOption_eq_some hkey)
  rw [hkey', hval]
  exact ⟨rfl, hrevision, rfl, rfl⟩

/-- A row that decodes has been modified. -/
theorem modRevision_ne_zero {kv : KeyValue} {row : EtcdRow} (h : decodeRow kv = some row) :
  kv.modRevision ≠ 0
  := by
  simp only [decodeRow, Option.bind_eq_bind, Option.bind_eq_some_iff, guard_eq_some] at h
  obtain ⟨_, -, _, hrevision, -⟩ := h
  exact hrevision

/-! ### The round trip -/

/-- The properties of a payload. -/
theorem payload_properties (version operation value metadata expiresAt : Json) :
  let properties := [(name "version", version), (name "operation", operation),
    (name "value", value), (name "metadata", metadata), (name "expiresAt", expiresAt)]
  hasKeys properties
      [name "expiresAt", name "metadata", name "operation", name "value", name "version"] =
      true ∧
    Json.property properties (name "version") = some version ∧
    Json.property properties (name "operation") = some operation ∧
    Json.property properties (name "value") = some value ∧
    Json.property properties (name "metadata") = some metadata ∧
    Json.property properties (name "expiresAt") = some expiresAt
  := by
  refine ⟨?_, rfl, rfl, rfl, rfl, rfl⟩
  simp only [hasKeys, List.map]
  decide +kernel

/-- A row with the payload of a record decodes to it. -/
theorem decodeRow_payloadDocument {key : Key} (hkey : storeKey key.val = .ok key)
    (operation : Key) {value : List UInt8} (hvalue : value.length ≤ maximumValueBytes)
    (metadata : Metadata) (expiresAt : Option Timestamp) {lease : ℤ}
    (hlease : expiresAt.isNone = decide (lease = PersistentLease)) {modRevision : ℕ}
    (hrevision : modRevision ≠ 0) :
  let payload := Json.stringify
    (payloadDocument operation value metadata (expiresAt.map Subtype.val))
  decodeRow ⟨key.val, modRevision, lease, payload⟩ =
    some ⟨⟨key, value, metadata, revisionText modRevision, expiresAt⟩, payload, lease⟩
  := by
  have hsnapshot := snapshotStoreRecord_toCandidate
    ⟨key, value, metadata, revisionText modRevision, expiresAt⟩
  rw [StoreRecord.toCandidate] at hsnapshot
  have hbase64 : (Base64.decodeBase64 (Base64.encodeBase64 value) maximumValueBytes).toOption =
      some value := by
    rw [Base64.decodeBase64_encodeBase64 hvalue]
    rfl
  obtain ⟨hkeys, hp₁, hp₂, hp₃, hp₄, hp₅⟩ := payload_properties (.number (.ofNat 1))
    (.string operation.val) (.string (Base64.encodeBase64 value)) (metadataDocument metadata)
    (expiryDocument (expiresAt.map Subtype.val))
  have hdecode : decodePayload key (revisionText modRevision)
      (Json.stringify (payloadDocument operation value metadata (expiresAt.map Subtype.val)))
      lease = some ⟨key, value, metadata, revisionText modRevision, expiresAt⟩ := by
    simp only [decodePayload, Json.stringify, payloadDocument, hkeys, hp₁, hp₂, hp₃, hp₄, hp₅,
      Option.bind_eq_bind, Option.bind_some, Json.asString, exactly?_val, expiryOf_encode, hlease,
      metadataObject_encode, hbase64, hsnapshot, guard, if_true]
    rfl
  simp only [decodeRow, hkey, Except.toOption, Option.bind_eq_bind, Option.bind_some, guard,
    hdecode]
  rw [if_pos hrevision]
  rfl

end Store.Etcd
