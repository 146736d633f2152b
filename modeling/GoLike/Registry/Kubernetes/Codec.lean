import GoLike.Registry.InstanceText
import GoLike.Registry.Mdns.Codec
import GoLike.Registry.Mdns.Ipv6

/-!
# The codec of endpoint slices

A list of the slices of a namespace is decoded item by item, and the instances of a service
are collected from the slices that the provider manages. The verification of one item is a
parameter of that.

A service instance is kept as one endpoint slice. Its labels and annotations carry hashes of the
instance and the text of the instance behind a marker, and its address and port are a projection of
the first endpoint. What is decoded is encoded again, and everything that was derived from the
instance is compared.
-/

open Store

namespace Registry.Kubernetes

variable {urls : UrlParser}

/-! ### Lists of slices -/

/-- The parts of a verified slice that its readers look at. -/
structure ManagedSlice (urls : UrlParser) where
  identity : JsString
  content : JsString
  serviceInstance : ServiceInstance urls

/-- The verification of an item of a list. It ignores the items of others. -/
abbrev DecodeManagedSlice (urls : UrlParser) : Type :=
  Json → Except RegistryError (Option (ManagedSlice urls))

/-- The response to a list request. A resource version is the revision it stands for. -/
structure SliceList where
  resourceVersion : ℕ
  items : List Json

/-- Decode a list, in the order of the identities. -/
def decodeSliceList (decodeManagedSlice : DecodeManagedSlice urls) (list : SliceList) :
    Except RegistryError (List (ManagedSlice urls)) := do
  let decoded ← list.items.mapM decodeManagedSlice
  .ok ((decoded.filterMap id).insertionSort
    (fun left right => left.identity.units ≤ right.identity.units))

/-- The instances of a service among managed slices, or all instances. -/
def instances (records : List (ManagedSlice urls)) (serviceName : Option JsString) :
    Except RegistryError (List (ServiceInstance urls)) := do
  let logical ← collectLogical ManagedSlice.identity ManagedSlice.content
    "Kubernetes duplicate managed identity disagrees" records .empty
  let named := logical.values.filter (fun record =>
    serviceName.all (fun serviceName => record.serviceInstance.name.val = serviceName))
  snapshotServiceInstances (named.map ManagedSlice.serviceInstance)

/-- The instances of a service in a list. -/
def serviceInstances (decodeManagedSlice : DecodeManagedSlice urls) (serviceName : JsString)
    (list : SliceList) : Except RegistryError (List (ServiceInstance urls)) := do
  let records ← decodeSliceList decodeManagedSlice list
  instances records (some serviceName)

end Registry.Kubernetes

open JsString

namespace Registry.Kubernetes.Codec

open Registry.Mdns (base32Symbol base32Groups colon)

variable {urls : UrlParser}

/-! ### The host -/

/-- The host and the port of a URL, as the URL standard prints them. -/
structure UrlHosts where
  hostname : Url → JsString
  port : Url → JsString
  /-- A port is left out or printed in decimal. -/
  port_printed : ∀ url, port url = .empty ∨ ∃ n ≤ 65535, port url = ofNat n
  /-- Only an address of IPv6 is printed with colons. It is printed between brackets. -/
  hostname_printed : ∀ url, colon ∈ (hostname url).units →
    ∃ bytes text, bytes.length = 16 ∧ Mdns.decodeIPv6 bytes = .ok text ∧
      hostname url = ofString "[" ++ text ++ ofString "]"

/-- The functions of the host. -/
structure SliceHost where
  urls : UrlHosts
  lower : LowerCase
  /-- The SHA-256 digest. -/
  digest : List UInt8 → List UInt8
  length_digest : ∀ bytes, (digest bytes).length = 32

/-! ### Constants -/

def wireMarker : JsString := ofString "go-like.registry-kubernetes.v2"

def maximumPayloadBytes : ℕ := 196608

def managedByLabel : JsString := ofString "endpointslice.kubernetes.io/managed-by"

def managedByValue : JsString := ofString "registry-kubernetes.go-like.dev"

def serviceNameLabel : JsString := ofString "kubernetes.io/service-name"

def identityLabel : JsString := ofString "registry.go-like.dev/identity"

def wireAnnotation : JsString := ofString "registry.go-like.dev/wire-version"

def instanceAnnotation : JsString := ofString "registry.go-like.dev/service-instance"

def contentAnnotation : JsString := ofString "registry.go-like.dev/content"

/-! ### Records -/

/-- An address family of endpoint slices. -/
inductive AddressType where
  | ipv4
  | ipv6
  | fqdn
  deriving DecidableEq

/-- The text of an address family. -/
def AddressType.text : AddressType → JsString
  | ipv4 => ofString "IPv4"
  | ipv6 => ofString "IPv6"
  | fqdn => ofString "FQDN"

/-- The fields of a slice that validation looks at. -/
structure Projection where
  addressType : AddressType
  addresses : List JsString
  port : ℕ

/-- A mutation candidate. -/
structure SliceCandidate (urls : UrlParser) extends Projection where
  identity : JsString
  content : JsString
  serviceLabel : JsString
  name : JsString
  serviceInstance : ServiceInstance urls

/-! ### Labels of names -/

/-- A lower-case letter or a digit. -/
def isAlphanumeric (u : UInt16) : Bool := (97 ≤ u && u ≤ 122) || (48 ≤ u && u ≤ 57)

/-- Lower-case letters, digits and hyphens, with no hyphen at either end. -/
def isLabel (s : JsString) : Bool :=
  s.units.head?.any isAlphanumeric && s.units.getLast?.any isAlphanumeric &&
    s.units.all (fun u => isAlphanumeric u || u == 45)

/-- The name of a Pod: labels between dots. -/
def isPodName (s : JsString) : Bool :=
  1 ≤ s.units.length && s.units.length ≤ 253 && (s.split (ofString ".")).all isLabel

/-- A Pod that owns slices. -/
structure PodOwner where
  name : JsString
  uid : JsString
  accepted : isPodName name = true ∧ uid.isEmpty = false

/-- Validate a Pod that owns slices. -/
def kubernetesPodOwner (name uid : JsString) : Except RegistryError PodOwner :=
  if hname : isPodName name = true then
    if huid : uid.isEmpty = false then .ok ⟨name, uid, hname, huid⟩
    else .error (.typeError "Kubernetes owner uid must be a non-empty string")
  else .error (.typeError "Kubernetes owner name must be a DNS-1123 subdomain")

/-- A managed slice that is verified. -/
structure ManagedSlice (urls : UrlParser) extends SliceCandidate urls where
  owner : Option PodOwner
  resourceVersion : JsString

/-! ### Hashes -/

def base32Units (buffer bits : ℕ) : List UInt8 → List UInt16
  | [] => if bits > 0 then [base32Symbol (buffer <<< (5 - bits))] else []
  | byte :: bytes =>
      let buffer := (buffer <<< 8 ||| byte.toNat) % 2 ^ 32
      let groups := base32Groups buffer (bits + 8)
      groups.1 ++ base32Units buffer groups.2 bytes

/-- Encode bytes in lower-case Base32 without padding. -/
def base32 (bytes : List UInt8) : JsString := ⟨base32Units 0 0 bytes⟩

/-- Hash a JSON text behind a marker. -/
def hash (host : SliceHost) (marker : JsString) (value : List UInt16) : JsString :=
  base32 (host.digest (encodeUtf8 ⟨brackets [quote marker, value]⟩))

/-- The hash of the identity of an instance. -/
def identityHash (host : SliceHost) (x : ServiceInstance urls) : JsString :=
  hash host (ofString "go-like.registry-kubernetes.identity.v2")
    (brackets [quote x.name.val, quote x.id.val])

/-- The hash of the content of an instance. -/
def contentHash (host : SliceHost) (x : ServiceInstance urls) : JsString :=
  hash host (ofString "go-like.registry-kubernetes.content.v2") (instanceUnits x)

/-- The hash of the name of a service. -/
def serviceHash (host : SliceHost) (x : ServiceInstance urls) : JsString :=
  hash host (ofString "go-like.registry-kubernetes.service.v2") (quote x.name.val)

/-! ### Projection -/

/-- The host is four octets in decimal. -/
def ipv4 (host : JsString) : Bool :=
  let parts := host.split (ofString ".")
  parts.length == 4 && parts.all (fun part =>
    part.isDecimal && part.units.length ≤ 3 && part.decimalValue ≤ 255)

/-- The octets are among those that validation forbids. -/
def forbiddenIPv4 (host : JsString) : Bool :=
  let parts := (host.split (ofString ".")).map decimalValue
  let first := parts[0]?
  let second := parts[1]?
  first == some 0 || first == some 127 || (first == some 169 && second == some 254) ||
    first.any (fun first => 224 ≤ first && first ≤ 239) || host == ofString "255.255.255.255"

/-- The literal is among those that validation forbids. -/
def forbiddenIPv6 (lower : LowerCase) (host : JsString) : Bool :=
  let normalized := lower.toLowerCase host
  normalized == ofString "::" || normalized == ofString "::1" ||
    ["fe8", "fe9", "fea", "feb"].any (fun start => normalized.startsWith (ofString start)) ||
    normalized.startsWith (ofString "ff")

/-- The host is a DNS name. -/
def hostname (host : JsString) : Bool :=
  1 ≤ host.units.length && host.units.length ≤ 253 &&
    (host.split (ofString ".")).all (fun label =>
      1 ≤ label.units.length && label.units.length ≤ 63 && isLabel label)

/-- A DNS name for what has no native address. -/
def fallbackHost (identity : JsString) : JsString :=
  ⟨(identity.units.drop 3).take 20⟩ ++ ofString ".registry.go-like.invalid"

/-- The port of a URL, or the default port of its scheme. -/
def portOf (host : SliceHost) (parsed : Url) : ℕ :=
  if ¬ (host.urls.port parsed).isEmpty then (host.urls.port parsed).decimalValue
  else if parsed.protocol = ofString "http:" then 80
  else if parsed.protocol = ofString "https:" then 443
  else 1

/-- The host of a URL, without the brackets around a literal. -/
def hostOf (host : SliceHost) (parsed : Url) : JsString :=
  Mdns.unbracket (host.urls.hostname parsed)

/-- The address of a host. -/
def address (host : SliceHost) (text identity : JsString) : AddressType × JsString :=
  if ipv4 text = true ∧ forbiddenIPv4 text = false then (.ipv4, text)
  else if colon ∈ text.units ∧ 37 ∉ text.units ∧ forbiddenIPv6 host.lower text = false then
    (.ipv6, text)
  else if ipv4 text = false ∧ colon ∉ text.units ∧ hostname text = true then (.fqdn, text)
  else (.fqdn, fallbackHost identity)

/-- Project the first endpoint of an instance. -/
def projection (host : SliceHost) (x : ServiceInstance urls) (identity : JsString) :
    Except RegistryError Projection :=
  match x.endpoints with
  | [] => .ok ⟨.fqdn, [fallbackHost identity], 1⟩
  | endpoint :: _ =>
      match urls.parse endpoint.val.val with
      | none => .error (.typeError "Invalid URL")
      | some parsed =>
          let projected := address host (hostOf host parsed) identity
          .ok ⟨projected.1, [projected.2], portOf host parsed⟩

/-! ### Encoding -/

/-- Encode a service instance. -/
def encodeCandidate (urls : UrlParser) (host : SliceHost) (value : ServiceInstanceInput) :
    Except RegistryError (SliceCandidate urls) := do
  let x ← snapshotServiceInstance urls value
  if (markedText wireMarker x).encodeUtf8.length > maximumPayloadBytes then
    .error (.rangeError "Kubernetes service payload exceeds 196608 bytes")
  else
    let identity := ofString "ki-" ++ identityHash host x
    let projected ← projection host x identity
    .ok ⟨projected, identity, ofString "kc-" ++ contentHash host x,
      ofString "ks-" ++ serviceHash host x, ofString "go-like-" ++ identityHash host x, x⟩

/-- The reference to an owner. -/
def ownerReference (owner : PodOwner) : Json :=
  .object
    [(name "apiVersion", .string (ofString "v1")), (name "kind", .string (ofString "Pod")),
      (name "name", .string owner.name), (name "uid", .string owner.uid)]

/-- The metadata of the slice of a candidate. -/
def sliceMetadata (candidate : SliceCandidate urls) (sliceNamespace : JsString)
    (resourceVersion : Option JsString) (owner : Option PodOwner) : Json :=
  .object
    ([(name "name", .string candidate.name), (name "namespace", .string sliceNamespace),
      (name "labels", .object
        [(managedByLabel, .string managedByValue),
          (serviceNameLabel, .string candidate.serviceLabel),
          (identityLabel, .string candidate.identity)]),
      (name "annotations", .object
        [( wireAnnotation, .string (ofString "2")),
          ( instanceAnnotation, .string (markedText wireMarker candidate.serviceInstance)),
          ( contentAnnotation, .string candidate.content)])] ++
      owner.toList.map (fun owner => (name "ownerReferences", .array [ownerReference owner])) ++
      resourceVersion.toList.map (fun version => (name "resourceVersion", .string version)))

/-- The body that creates or replaces the slice of a candidate. -/
def encodeSlice (candidate : SliceCandidate urls) (sliceNamespace : JsString)
    (resourceVersion : Option JsString) (owner : Option PodOwner) : JsonText :=
  Json.stringify (.object
    [(name "apiVersion", .string (ofString "discovery.k8s.io/v1")),
      (name "kind", .string (ofString "EndpointSlice")),
      (name "metadata", sliceMetadata candidate sliceNamespace resourceVersion owner),
      (name "addressType", .string candidate.addressType.text),
      (name "endpoints", .array
        [.object [(name "addresses", .array (candidate.addresses.map .string))]]),
      (name "ports", .array
        [.object
          [(name "name", .string (ofString "go-like")),
            (name "protocol", .string (ofString "TCP")),
            (name "port", .number (.ofNat candidate.port))]])])

/-! ### Reading documents -/

/-- The property of a document, if it is an object. -/
def property (value : Json) (key : JsString) : Option Json :=
  match value with
  | .object properties => Json.property properties key
  | _ => none

/-- A document that has to be an object. -/
def object (value : Option Json) (message : String) : Except RegistryError Json :=
  match value with
  | some (.object properties) => .ok (.object properties)
  | _ => .error (.protocol message)

/-- A property that has to be a non-empty string. -/
def string (value : Json) (key : JsString) (message : String) : Except RegistryError JsString :=
  match property value key with
  | some (.string result) => if result.isEmpty then .error (.protocol message) else .ok result
  | _ => .error (.protocol message)

/-- A document that has to be an array. -/
def array (value : Option Json) (message : String) : Except RegistryError (List Json) :=
  match value with
  | some (.array elements) => .ok elements
  | _ => .error (.protocol message)

/-- A document that has to be an array of one element. -/
def singleton (value : Option Json) (message : String) : Except RegistryError Json :=
  match value with
  | some (.array [element]) => .ok element
  | _ => .error (.protocol message)

/-- A document that has to be an array of strings. -/
def stringArray (value : Option Json) (message : String) : Except RegistryError (List JsString) :=
  match value with
  | some (.array elements) =>
      match strings elements with
      | some texts => .ok texts
      | none => .error (.protocol message)
  | _ => .error (.protocol message)

/-! ### Decoding -/

/-- The reference of the owner of a slice, which has to be a Pod. -/
def podReference (reference : Json) : Except RegistryError PodOwner := do
  let podName ← string reference (name "name") "Kubernetes managed EndpointSlice owner name is invalid"
  let uid ← string reference (name "uid") "Kubernetes managed EndpointSlice owner uid is invalid"
  kubernetesPodOwner podName uid

/-- The owner of a slice. -/
def decodeOwner (metadata : Json) : Except RegistryError (Option PodOwner) :=
  match property metadata (name "ownerReferences") with
  | none => .ok none
  | some references => do
      let element ← singleton (some references) "Kubernetes managed EndpointSlice ownerReferences are invalid"
      let reference ← object (some element) "Kubernetes managed EndpointSlice ownerReference is invalid"
      if property reference (name "apiVersion") ≠ some (.string (ofString "v1")) ∨
          property reference (name "kind") ≠ some (.string (ofString "Pod")) then
        .error (.protocol "Kubernetes managed EndpointSlice owner must be a Pod")
      else
        match podReference reference with
        | .error _ => .error (.protocol "Kubernetes managed EndpointSlice Pod owner is invalid")
        | .ok owner => .ok (some owner)

/-- The instance of an annotation. -/
def decodeInstance (reader : InstanceReader urls wireMarker) (value : JsString) :
    Except RegistryError (ServiceInstance urls) :=
  match reader.parse value with
  | none => .error (.protocol "Kubernetes managed ServiceInstance annotation is not valid JSON")
  | some (.array [marker, raw]) =>
      if marker ≠ .string wireMarker then
        .error (.protocol "Kubernetes managed ServiceInstance marker is invalid")
      else
        match (instanceInput raw).map (snapshotServiceInstance urls) with
        | some (.ok x) => .ok x
        | _ => .error (.protocol "Kubernetes managed ServiceInstance is invalid")
  | some _ => .error (.protocol "Kubernetes managed ServiceInstance marker is invalid")

/-- Compare the name, the labels and the annotations of a slice with those of a candidate. -/
def verifyIdentity (candidate : SliceCandidate urls) (metadata labels annotations : Json) :
    Except RegistryError Unit := do
  let sliceName ← string metadata (name "name") "Kubernetes EndpointSlice name is invalid"
  if sliceName ≠ candidate.name ∨
      property labels identityLabel ≠ some (.string candidate.identity) ∨
      property labels serviceNameLabel ≠ some (.string candidate.serviceLabel) ∨
      property annotations contentAnnotation ≠ some (.string candidate.content) then
    .error (.protocol "Kubernetes managed EndpointSlice identity is inconsistent")
  else .ok ()

/-- Compare the address and the port of a slice with those of a candidate. -/
def verifyProjection (candidate : SliceCandidate urls) (carrier : Json) :
    Except RegistryError Unit := do
  let firstEndpoint ← singleton (property carrier (name "endpoints"))
    "Kubernetes managed EndpointSlice endpoints are invalid"
  let firstPort ← singleton (property carrier (name "ports"))
    "Kubernetes managed EndpointSlice ports are invalid"
  let endpoint ← object (some firstEndpoint) "Kubernetes managed EndpointSlice endpoint is invalid"
  let port ← object (some firstPort) "Kubernetes managed EndpointSlice port is invalid"
  let projectionError : RegistryError :=
    .protocol "Kubernetes managed EndpointSlice projection is inconsistent"
  if property carrier (name "addressType") ≠ some (.string candidate.addressType.text) then
    .error projectionError
  else
    let addresses ← stringArray (property endpoint (name "addresses"))
      "Kubernetes managed EndpointSlice addresses are invalid"
    if brackets (addresses.map quote) ≠ brackets (candidate.addresses.map quote) ∨
        property port (name "port") ≠ some (.number (.ofNat candidate.port)) then
      .error projectionError
    else .ok ()

/-- Decode and verify a slice that is managed. -/
def decodeLabelled (host : SliceHost) (reader : InstanceReader urls wireMarker)
    (carrier metadata labels : Json) (sliceNamespace : JsString) :
    Except RegistryError (ManagedSlice urls) := do
  let written ← string metadata (name "namespace") "Kubernetes EndpointSlice namespace is invalid"
  if written ≠ sliceNamespace then
    .error (.protocol "Kubernetes EndpointSlice escaped the configured namespace")
  else
    let annotations ← object (property metadata (name "annotations"))
      "Kubernetes EndpointSlice annotations are invalid"
    if property annotations wireAnnotation ≠ some (.string (ofString "2")) then
      .error (.protocol "Kubernetes managed wire version is unsupported")
    else
      let value ← string annotations instanceAnnotation
        "Kubernetes managed ServiceInstance annotation is missing"
      let x ← decodeInstance reader value
      let candidate ← encodeCandidate urls host x.toInput
      verifyIdentity candidate metadata labels annotations
      verifyProjection candidate carrier
      let owner ← decodeOwner metadata
      let resourceVersion ← string metadata (name "resourceVersion")
        "Kubernetes EndpointSlice resourceVersion is invalid"
      .ok ⟨candidate, owner, resourceVersion⟩

/-- Decode a slice when it belongs to this provider. -/
def decodeManagedSlice (host : SliceHost) (reader : InstanceReader urls wireMarker) (value : Json)
    (sliceNamespace : JsString) : Except RegistryError (Option (ManagedSlice urls)) := do
  let carrier ← object value "Kubernetes EndpointSlice is invalid"
  let metadata ← object (property carrier (name "metadata"))
    "Kubernetes EndpointSlice metadata is invalid"
  let labels ← object (property metadata (name "labels"))
    "Kubernetes EndpointSlice labels are invalid"
  if property labels managedByLabel ≠ some (.string managedByValue) then .ok none
  else
    let record ← decodeLabelled host reader carrier metadata labels sliceNamespace
    .ok (some record)

/-- The managed slices of a namespace. -/
structure SliceSnapshot (urls : UrlParser) where
  resourceVersion : JsString
  records : List (ManagedSlice urls)

/-- Decode a list, in the order of the identities. -/
def decodeSliceList (host : SliceHost) (reader : InstanceReader urls wireMarker) (value : Json)
    (sliceNamespace : JsString) : Except RegistryError (SliceSnapshot urls) := do
  let carrier ← object value "Kubernetes EndpointSliceList is invalid"
  let metadata ← object (property carrier (name "metadata"))
    "Kubernetes EndpointSliceList metadata is invalid"
  let items ← array (property carrier (name "items"))
    "Kubernetes EndpointSliceList items are invalid"
  let decoded ← items.mapM (fun item => decodeManagedSlice host reader item sliceNamespace)
  let records := (decoded.filterMap id).insertionSort
    (fun left right => left.identity.units ≤ right.identity.units)
  let resourceVersion ← string metadata (name "resourceVersion")
    "Kubernetes EndpointSliceList resourceVersion is invalid"
  .ok ⟨resourceVersion, records⟩

end Registry.Kubernetes.Codec
