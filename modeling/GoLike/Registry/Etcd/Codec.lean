import GoLike.Registry.Document

/-!
# The wire format of the etcd registry

A record is one row of etcd. Its key is determined by the name and the identifier of an
instance, and its value carries the instance with fingerprints of its identity and its
content. The digest of a text and its length in bytes are parameters.

A range over the keys of a provider is decoded record by record, and the instances of a
service are collected from it.
-/

open Store

namespace Registry.Etcd

variable {urls : UrlParser}

/-- The functions of texts that the wire format uses. -/
structure TextFunctions where
  /-- The SHA-256 digest of a text, in Base32. -/
  digest : JsonText → JsString
  /-- The number of bytes of a text in UTF-8. -/
  bytes : JsonText → ℕ

def wireMarker : JsString := name "go-like.registry-etcd.instance.v1"

def identityMarker : JsString := name "go-like.registry-instance.identity.v1"

def contentMarker : JsString := name "go-like.registry-instance.content.v1"

def maximumPayloadBytes : ℕ := 1048576

/-- The prefix of the keys of the records of a provider. -/
def recordPrefix (keyPrefix : JsString) : JsString := keyPrefix ++ name "records/"

/-- The identifier of a document. -/
def hash (texts : TextFunctions) (kind : String) (value : Json) : JsString :=
  name kind ++ name "-" ++ texts.digest (Json.stringify value)

/-- The identity of an instance, from its name and its identifier only. -/
def instanceIdentity (texts : TextFunctions) (x : ServiceInstance urls) : JsString :=
  hash texts "li" (.array [.string identityMarker, .string x.name.val, .string x.id.val])

/-- The fingerprint of the complete content of an instance. -/
def instanceContent (texts : TextFunctions) (x : ServiceInstance urls) : JsString :=
  hash texts "lc" (.array [.string contentMarker, instanceDocument x])

/-- An encoded record. -/
structure EncodedRecord (urls : UrlParser) where
  key : JsString
  value : JsonText
  identity : JsString
  content : JsString
  serviceInstance : ServiceInstance urls

/-- A verified record. -/
structure DecodedRecord (urls : UrlParser) where
  identity : JsString
  content : JsString
  serviceInstance : ServiceInstance urls

/-- The value of the record of an instance. -/
def recordValue (texts : TextFunctions) (x : ServiceInstance urls) : JsonText :=
  Json.stringify (.array
    [.string wireMarker, .string (instanceIdentity texts x), .string (instanceContent texts x),
      instanceDocument x])

/-- The record of a validated instance. -/
def recordOf (texts : TextFunctions) (keyPrefix : JsString) (x : ServiceInstance urls) :
    EncodedRecord urls :=
  ⟨recordPrefix keyPrefix ++ instanceIdentity texts x, recordValue texts x,
    instanceIdentity texts x, instanceContent texts x, x⟩

/-- Encode a service instance as one record. -/
def encodeRecord (texts : TextFunctions) (keyPrefix : JsString) (value : ServiceInstanceInput) :
    Except RegistryError (EncodedRecord urls) := do
  let x ← snapshotServiceInstance urls value
  if texts.bytes (recordValue texts x) > maximumPayloadBytes then
    .error (.rangeError "etcd ServiceInstance payload exceeds 1048576 bytes")
  else
    .ok (recordOf texts keyPrefix x)

/-- The identity, the content and the instance of a wire document, before they are
verified. -/
def wireFields (document : Json) : Except RegistryError (JsString × JsString × Json) :=
  match document with
  | .array [marker, identity, content, raw] =>
      if marker = .string wireMarker then
        match identity, content with
        | .string identity, .string content =>
            if instanceCarrier raw then .ok (identity, content, raw)
            else .error (.protocol "etcd managed record fields are invalid")
        | _, _ => .error (.protocol "etcd managed record fields are invalid")
      else .error (.protocol "etcd managed record has an unsupported wire shape")
  | _ => .error (.protocol "etcd managed record has an unsupported wire shape")

/-- Decode and verify one record. -/
def decodeRecord (texts : TextFunctions) (keyPrefix key : JsString) (value : JsonText) :
    Except RegistryError (DecodedRecord urls) :=
  if texts.bytes value > maximumPayloadBytes then
    .error (.protocol "etcd managed record exceeds the payload ceiling")
  else
    match value.document with
    | none => .error (.protocol "etcd managed record is not valid JSON")
    | some document => do
        let (identity, content, raw) ← wireFields document
        match (instanceInput raw).map (snapshotServiceInstance urls) with
        | some (.ok x) =>
            if identity ≠ instanceIdentity texts x ∨ content ≠ instanceContent texts x ∨
                key ≠ recordPrefix keyPrefix ++ identity then
              .error (.protocol "etcd managed record key or canonical hash does not match")
            else .ok ⟨identity, content, x⟩
        | _ => .error (.protocol "etcd managed record contains an invalid ServiceInstance")

/-- An encoded record is read back as its instance. -/
theorem decodeRecord_encodeRecord {texts : TextFunctions} {keyPrefix : JsString}
    {value : ServiceInstanceInput} {record : EncodedRecord urls}
    (h : encodeRecord texts keyPrefix value = .ok record) :
  decodeRecord texts keyPrefix record.key record.value =
    .ok ⟨record.identity, record.content, record.serviceInstance⟩
  := by
  simp only [encodeRecord, bind_eq_ok] at h
  obtain ⟨x, -, h⟩ := h
  split at h
  · cases h
  · rename_i hbytes
    cases h
    dsimp only [recordOf]
    rw [decodeRecord, if_neg hbytes]
    simp [recordValue, Json.stringify, wireFields, bind, Except.bind]

/-! ### Snapshots -/

/-- A row of etcd. -/
structure KeyValue where
  key : JsString
  value : JsonText
  lease : ℤ
  modRevision : ℕ
  deriving DecidableEq

/-- The response to a consistent range request. -/
structure RangeSnapshot where
  revision : ℕ
  records : List KeyValue

/-- A verified record with the row that carries it. -/
structure ManagedDecodedRecord (urls : UrlParser) extends DecodedRecord urls where
  key : JsString
  value : JsonText
  lease : ℤ

/-- Decode one row. -/
def decodeCarrier (texts : TextFunctions) (keyPrefix : JsString) (carrier : KeyValue) :
    Except RegistryError (ManagedDecodedRecord urls) := do
  let decoded ← decodeRecord texts keyPrefix carrier.key carrier.value
  .ok ⟨decoded, carrier.key, carrier.value, carrier.lease⟩

/-- Decode a snapshot in the order of its keys. -/
def decodeSnapshot (texts : TextFunctions) (keyPrefix : JsString) (snapshot : RangeSnapshot) :
    Except RegistryError (List (ManagedDecodedRecord urls)) :=
  snapshot.records.mapM (decodeCarrier texts keyPrefix)

/-- The instances of a service among verified records, or all instances. -/
def instances (records : List (ManagedDecodedRecord urls)) (serviceName : Option JsString) :
    Except RegistryError (List (ServiceInstance urls)) := do
  let named := records.filter (fun record =>
    serviceName.all (fun serviceName => record.serviceInstance.name.val = serviceName))
  let logical ← collectLogical (fun record => record.identity) (fun record => record.content)
    "etcd ServiceInstance identity collision" named .empty
  snapshotServiceInstances (logical.values.map (fun record => record.serviceInstance))

/-- The instances of a service in the rows under the prefix of a provider. -/
def serviceInstances (texts : TextFunctions) (keyPrefix serviceName : JsString)
    (snapshot : RangeSnapshot) : Except RegistryError (List (ServiceInstance urls)) := do
  let decoded ← decodeSnapshot texts keyPrefix snapshot
  instances decoded (some serviceName)

end Registry.Etcd
