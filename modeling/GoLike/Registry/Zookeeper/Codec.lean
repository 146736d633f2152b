import GoLike.Registry.InstanceText
import Mathlib.Data.List.DropRight

/-!
# Paths and records of ZooKeeper

A service is a directory of ZooKeeper, with a child for each of its instances. The children
are listed, and then read one after the other; a child that is gone is left out. The path
segments and the decoding of a child are parameters of that.

A service instance is kept as one child of the directory of its service. The segments of its
path are the Base64 of the name and of the identifier of the instance, in the URL-safe alphabet
and without padding, and its data are the text of the instance behind a marker.
-/

open Store

namespace Registry.Zookeeper

variable {urls : UrlParser}

/-! ### Directories -/

/-- A verified record. A path is represented by its last segment. -/
structure DecodedRecord (urls : UrlParser) where
  path : JsString
  identity : JsonText
  serviceInstance : ServiceInstance urls

/-- The codec of children. -/
structure ChildCodec (urls : UrlParser) where
  decodePathSegment : JsString → Except RegistryError JsString
  decodeRecord : JsString → JsonText → Except RegistryError (DecodedRecord urls)

/-- The children of a service directory with their data; `none` when the directory does not
exist. -/
abbrev Directory : Type := Option (List (JsString × JsonText))

/-- The names of the children, in order. -/
def childNames (children : List (JsString × JsonText)) : List JsString :=
  (children.map Prod.fst).insertionSort (fun left right => left.units ≤ right.units)

/-- The data of a child; `none` when the child does not exist. -/
def childData (directory : Directory) (segment : JsString) : Option JsonText :=
  directory.bind (fun children =>
    (children.find? (fun child => child.1 = segment)).map Prod.snd)

/-- The record of a child, unless the child is gone. -/
def optionalRecord (codec : ChildCodec urls) (segment : JsString) (data : Option JsonText) :
    Except RegistryError (List (DecodedRecord urls)) :=
  match data with
  | none => .ok []
  | some data => do
      let record ← codec.decodeRecord segment data
      .ok [record]

/-- Read one child: its segment is decoded, and then its record. -/
def readChild (codec : ChildCodec urls) (directory : Directory) (segment : JsString) :
    Except RegistryError (List (DecodedRecord urls)) := do
  let _ ← codec.decodePathSegment segment
  optionalRecord codec segment (childData directory segment)

/-- Collect the instances whose names are asked for; their identities are distinct. -/
def collectNamed (serviceName : Option JsString) :
    List (DecodedRecord urls) → List JsonText → Except RegistryError (List (ServiceInstance urls))
  | [], _ => .ok []
  | record :: rest, identities =>
      if serviceName.any (fun serviceName => record.serviceInstance.name.val ≠ serviceName) then
        collectNamed serviceName rest identities
      else if identities.contains record.identity then
        .error (.protocol "ZooKeeper snapshot contains a duplicate service identity")
      else do
        let values ← collectNamed serviceName rest (record.identity :: identities)
        .ok (record.serviceInstance :: values)

/-- The instances of a service among records, or all instances. -/
def instances (records : List (DecodedRecord urls)) (serviceName : Option JsString) :
    Except RegistryError (List (ServiceInstance urls)) := do
  let values ← collectNamed serviceName records []
  snapshotServiceInstances values

/-- The instances of a service among records, in the order of their paths. -/
def sortedInstances (records : List (DecodedRecord urls)) (serviceName : JsString) :
    Except RegistryError (List (ServiceInstance urls)) :=
  instances (records.insertionSort (fun left right => left.path.units ≤ right.path.units))
    (some serviceName)

/-- The records of children that are read one after the other. -/
def readChildren (codec : ChildCodec urls) (directory : Directory) :
    List JsString → Except RegistryError (List (DecodedRecord urls))
  | [] => .ok []
  | segment :: rest => do
      let found ← readChild codec directory segment
      let others ← readChildren codec directory rest
      .ok (found ++ others)

/-- The instances of a service in its directory. -/
def serviceInstances (codec : ChildCodec urls) (serviceName : JsString) (directory : Directory) :
    Except RegistryError (List (ServiceInstance urls)) :=
  match directory with
  | none => sortedInstances [] serviceName
  | some children => do
      let records ← readChildren codec directory (childNames children)
      sortedInstances records serviceName

open JsString

/-! ### Base64 -/

def base64Alphabet : List UInt16 :=
  (List.range 26).map (fun i => UInt16.ofNat (65 + i)) ++
    (List.range 26).map (fun i => UInt16.ofNat (97 + i)) ++
    (List.range 10).map (fun i => UInt16.ofNat (48 + i)) ++ [43, 47]

/-- The equals sign, which is the padding. -/
def padding : UInt16 := 61

/-- The symbol of six of the bits of three bytes. -/
def base64Symbol (combined shift : ℕ) : UInt16 :=
  base64Alphabet.getD ((combined >>> shift) &&& 63) padding

/-- The bits of three bytes. -/
def combineBytes (first second third : UInt8) : ℕ :=
  first.toNat <<< 16 ||| second.toNat <<< 8 ||| third.toNat

/-- The units that encode bytes, three of them at a time. -/
def base64 : List UInt8 → List UInt16
  | [] => []
  | [first] =>
      let combined := combineBytes first 0 0
      [base64Symbol combined 18, base64Symbol combined 12, padding, padding]
  | [first, second] =>
      let combined := combineBytes first second 0
      [base64Symbol combined 18, base64Symbol combined 12, base64Symbol combined 6, padding]
  | first :: second :: third :: rest =>
      let combined := combineBytes first second third
      base64Symbol combined 18 :: base64Symbol combined 12 :: base64Symbol combined 6 ::
        base64Symbol combined 0 :: base64 rest

/-- The value of a unit at one of the last two places, where the padding counts as zero. -/
def indexOrZero (unit : UInt16) : ℕ := if unit = padding then 0 else base64Alphabet.idxOf unit

/-- The bytes that four units at a time stand for. -/
def unbase64Bytes : List UInt16 → List UInt8
  | u :: v :: w :: x :: rest =>
      let combined := base64Alphabet.idxOf u <<< 18 ||| base64Alphabet.idxOf v <<< 12 |||
        indexOrZero w <<< 6 ||| indexOrZero x
      UInt8.ofNat ((combined >>> 16) &&& 255) :: UInt8.ofNat ((combined >>> 8) &&& 255) ::
        UInt8.ofNat (combined &&& 255) :: unbase64Bytes rest
  | _ => []

/-- The number of padding units at the end. -/
def paddingLength (units : List UInt16) : ℕ :=
  if [padding, padding].isSuffixOf units then 2 else if [padding].isSuffixOf units then 1 else 0

/-- Decode units, which have to be what encoding produces. -/
def unbase64 (value : List UInt16) : Except RegistryError (List UInt8) :=
  let bytes := (unbase64Bytes value).take (value.length / 4 * 3 - paddingLength value)
  if base64 bytes ≠ value then
    .error (.protocol "ZooKeeper path segment Base64 is not canonical")
  else .ok bytes

/-! ### Path segments -/

/-- A symbol in the URL-safe alphabet. -/
def urlUnit (unit : UInt16) : UInt16 := if unit = 43 then 45 else if unit = 47 then 95 else unit

/-- A unit of the URL-safe alphabet as a symbol. -/
def plainUnit (unit : UInt16) : UInt16 := if unit = 45 then 43 else if unit = 95 then 47 else unit

/-- Encode a string as a path segment. -/
def encodePathSegment (value : JsString) : JsString :=
  ofString "u-" ++ ⟨((base64 value.encodeUtf8).map urlUnit).rdropWhile (· = padding)⟩

/-- The unit is a letter, a digit, a hyphen or an underscore. -/
def isSegmentUnit (unit : UInt16) : Bool := (base64Alphabet.map urlUnit).contains unit

/-- Decode a path segment as UTF-8. -/
def decodePathSegment (value : JsString) : Except RegistryError JsString :=
  let rest := value.units.drop 2
  if ¬ value.startsWith (ofString "u-") ∨ ¬ rest.all isSegmentUnit then
    .error (.protocol "ZooKeeper path segment is invalid")
  else
    let raw := rest.map plainUnit
    if raw.length % 4 = 1 then
      .error (.protocol "ZooKeeper path segment has invalid Base64 length")
    else do
      let bytes ← unbase64 (raw ++ List.replicate ((4 - raw.length % 4) % 4) padding)
      match decodeUtf8 bytes with
      | none => .error (.protocol "ZooKeeper path segment contains invalid UTF-8")
      | some decoded => .ok decoded

/-! ### Paths -/

/-- The persistent directory of the services. -/
def servicesPath (root : JsString) : JsString := root ++ ofString "/services"

/-- The persistent directory of a service. -/
def servicePath (root serviceName : JsString) : JsString :=
  servicesPath root ++ ofString "/" ++ encodePathSegment serviceName

/-- The path of an instance. -/
def instancePath (root serviceName id : JsString) : JsString :=
  servicePath root serviceName ++ ofString "/" ++ encodePathSegment id

/-! ### Records -/

def wireMarker : JsString := ofString "go-like.registry-zookeeper.v2"

def maximumPayloadBytes : ℕ := 1048576

/-- An instance, encoded as one ephemeral node. -/
structure EncodedRecord (urls : UrlParser) where
  path : JsString
  servicePath : JsString
  data : List UInt8
  identity : JsonText
  serviceInstance : ServiceInstance urls

/-- The bytes of the text of an instance. -/
def recordData (x : ServiceInstance urls) : List UInt8 := (markedText wireMarker x).encodeUtf8

/-- Encode a service instance. -/
def encodeRecord (urls : UrlParser) (root : JsString) (value : ServiceInstanceInput) :
    Except RegistryError (EncodedRecord urls) := do
  let x ← snapshotServiceInstance urls value
  if (recordData x).length > maximumPayloadBytes then
    .error (.rangeError "ZooKeeper service payload exceeds 1048576 bytes")
  else
    .ok ⟨instancePath root x.name.val x.id.val, servicePath root x.name.val, recordData x,
      identity x, x⟩

/-- The instance of a document behind the marker. -/
def recordInstance (document : Json) : Except RegistryError (ServiceInstance urls) :=
  match document with
  | .array [marker, raw] =>
      if marker ≠ .string wireMarker then
        .error (.protocol "ZooKeeper managed record has an unsupported wire shape")
      else
        match (instanceInput raw).map (snapshotServiceInstance urls) with
        | some (.ok x) => .ok x
        | _ => .error (.protocol "ZooKeeper managed record contains an invalid ServiceInstance")
  | _ => .error (.protocol "ZooKeeper managed record has an unsupported wire shape")

/-- The document of the data of a node. -/
def recordDocument (reader : InstanceReader urls wireMarker) (bytes : List UInt8) :
    Except RegistryError Json :=
  if bytes.length > maximumPayloadBytes then
    .error (.protocol "ZooKeeper managed record exceeds the payload ceiling")
  else
    match decodeUtf8 bytes with
    | none => .error (.protocol "ZooKeeper managed record contains invalid UTF-8")
    | some text =>
        match reader.parse text with
        | none => .error (.protocol "ZooKeeper managed record is not valid JSON")
        | some document => .ok document

/-- Decode and verify a node. -/
def decodeRecord (reader : InstanceReader urls wireMarker) (root path : JsString)
    (bytes : List UInt8) : Except RegistryError (DecodedRecord urls) := do
  let document ← recordDocument reader bytes
  let x ← recordInstance document
  if path ≠ instancePath root x.name.val x.id.val then
    .error (.protocol "ZooKeeper managed record path does not match its identity")
  else .ok ⟨path, identity x, x⟩

end Registry.Zookeeper
