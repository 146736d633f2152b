import GoLike.Registry.Kubernetes.Admission

/-!
# The codec of endpoint slices is exact

The body of a slice is decoded to the candidate and the owner it was encoded from. A candidate is
admitted by validation unless the first endpoint has the port zero, and an object that others
manage is ignored when it carries labels.
-/

open Store JsString

namespace Registry.Kubernetes.Codec

variable {urls : UrlParser} {host : SliceHost}

/-! ### Candidates -/

/-- What is derived from an instance. -/
structure Encodes (host : SliceHost) (candidate : SliceCandidate urls) : Prop where
  fits : (markedText wireMarker candidate.serviceInstance).encodeUtf8.length ≤ maximumPayloadBytes
  identity : candidate.identity = ofString "ki-" ++ identityHash host candidate.serviceInstance
  content : candidate.content = ofString "kc-" ++ contentHash host candidate.serviceInstance
  serviceLabel : candidate.serviceLabel =
    ofString "ks-" ++ serviceHash host candidate.serviceInstance
  name : candidate.name = ofString "go-like-" ++ identityHash host candidate.serviceInstance
  projected : projection host candidate.serviceInstance
    (ofString "ki-" ++ identityHash host candidate.serviceInstance) = .ok candidate.toProjection

/-- A candidate is derived from the snapshot. -/
theorem encodeCandidate_eq_ok {value : ServiceInstanceInput} {candidate : SliceCandidate urls} :
  encodeCandidate urls host value = .ok candidate ↔
    snapshotServiceInstance urls value = .ok candidate.serviceInstance ∧ Encodes host candidate
  := by
  rw [encodeCandidate, Except.bind_eq_ok_iff]
  constructor
  · rintro ⟨x, hx, h⟩
    split at h
    · cases h
    · rename_i hfits
      obtain ⟨projected, hprojected, h⟩ := Except.bind_eq_ok_iff.1 h
      rw [Except.ok.injEq] at h
      subst h
      exact ⟨hx, Nat.not_lt.1 hfits, rfl, rfl, rfl, rfl, hprojected⟩
  · rintro ⟨hx, hfits, hidentity, hcontent, hserviceLabel, hname, hprojected⟩
    refine ⟨candidate.serviceInstance, hx, ?_⟩
    rw [if_neg (Nat.not_lt.2 hfits), Except.bind_eq_ok_iff]
    refine ⟨candidate.toProjection, hprojected, ?_⟩
    rw [← hidentity, ← hcontent, ← hserviceLabel, ← hname]

/-- A snapshot is encoded again as the same candidate. -/
theorem Encodes.again {candidate : SliceCandidate urls} (h : Encodes host candidate) :
  encodeCandidate urls host candidate.serviceInstance.toInput = .ok candidate
  := by
  apply encodeCandidate_eq_ok.2
  exact ⟨snapshotServiceInstance_toInput _, h⟩

/-! ### Reading what was written -/

theorem string_eq_ok {value : Json} {key s : JsString} {message : String} :
  string value key message = .ok s ↔ property value key = some (.string s) ∧ s.isEmpty = false
  := by
  rw [string]
  split
  · rename_i result hresult
    rw [hresult]
    split
    · rename_i hempty
      constructor
      · rintro ⟨⟩
      · rintro ⟨hs, hne⟩
        cases hs
        rw [hempty] at hne
        cases hne
    · rename_i hne
      constructor
      · rintro ⟨⟩
        exact ⟨rfl, Bool.eq_false_iff.2 hne⟩
      · rintro ⟨hs, -⟩
        cases hs
        rfl
  · rename_i hother
    constructor
    · rintro ⟨⟩
    · rintro ⟨hs, -⟩
      exact absurd hs (hother s)

theorem string_some {value : Json} {key s : JsString}
    (h : property value key = some (.string s)) (hne : s.isEmpty = false) (message : String) :
  string value key message = .ok s
  := string_eq_ok.2 ⟨h, hne⟩

/-- The instance is read back from its annotation. -/
theorem decodeInstance_markedText (reader : InstanceReader urls wireMarker)
    (x : ServiceInstance urls) :
  decodeInstance reader (markedText wireMarker x) = .ok x
  := by
  obtain ⟨input, hinput, hsnapshot⟩ := snapshot_instanceObject x
  rw [decodeInstance, reader.parse_markedText, markedDocument]
  dsimp only
  rw [if_neg (not_not_intro rfl), hinput, Option.map_some, hsnapshot]

section Written

variable (candidate : SliceCandidate urls) (sliceNamespace : JsString)
  (version : Option JsString) (owner : Option PodOwner)

theorem property_resourceVersion :
  property (sliceMetadata candidate sliceNamespace version owner) (name "resourceVersion") =
    version.map .string
  := by
  cases owner with
  | none | some =>
      cases version with
      | none | some => rfl

theorem property_ownerReferences :
  property (sliceMetadata candidate sliceNamespace version owner) (name "ownerReferences") =
    owner.map (fun owner => .array [ownerReference owner])
  := by
  cases owner with
  | none =>
      cases version with
      | none | some => rfl
  | some owner => rfl

/-- The owner is read back from the metadata. -/
theorem decodeOwner_sliceMetadata :
  decodeOwner (sliceMetadata candidate sliceNamespace version owner) = .ok owner
  := by
  rw [decodeOwner, property_ownerReferences]
  cases owner with
  | none => rfl
  | some owner =>
      obtain ⟨podName, uid, hname, huid⟩ := owner
      have hnonempty : podName.isEmpty = false := by
        simp only [isPodName, Bool.and_eq_true, decide_eq_true_eq] at hname
        cases hunits : podName.units with
        | nil => simp [hunits] at hname
        | cons u us => rw [isEmpty, hunits, List.isEmpty_cons]
      have hreference : podReference (ownerReference ⟨podName, uid, hname, huid⟩) =
          .ok ⟨podName, uid, hname, huid⟩ := by
        rw [podReference, string_some (s := podName) rfl hnonempty, string_some (s := uid) rfl huid]
        simp only [bind, Except.bind]
        rw [kubernetesPodOwner, dif_pos hname, dif_pos huid]
      have hsingleton : ∀ message, singleton
          (some (.array [ownerReference ⟨podName, uid, hname, huid⟩])) message =
          .ok (ownerReference ⟨podName, uid, hname, huid⟩) := fun _ => rfl
      have hobject : ∀ message, object (some (ownerReference ⟨podName, uid, hname, huid⟩)) message =
          .ok (ownerReference ⟨podName, uid, hname, huid⟩) := fun _ => rfl
      have hpod : ¬ (property (ownerReference ⟨podName, uid, hname, huid⟩) (name "apiVersion") ≠
            some (.string (ofString "v1")) ∨
          property (ownerReference ⟨podName, uid, hname, huid⟩) (name "kind") ≠
            some (.string (ofString "Pod"))) := by
        rintro (h | h)
        · exact h rfl
        · exact h rfl
      simp only [Option.map_some, hsingleton, hobject, Except.ok_bind, if_neg hpod, hreference]

/-- The name, the labels and the annotations are those of the candidate. -/
theorem verifyIdentity_written (h : Encodes host candidate) {labels annotations : Json}
    (hidentity : property labels identityLabel = some (.string candidate.identity))
    (hservice : property labels serviceNameLabel = some (.string candidate.serviceLabel))
    (hcontent : property annotations contentAnnotation = some (.string candidate.content)) :
  verifyIdentity candidate (sliceMetadata candidate sliceNamespace version owner) labels annotations =
    .ok ()
  := by
  have hname : candidate.name.isEmpty = false := by
    have hletters : (ofString "go-like-").units = 103 :: (ofString "o-like-").units := by decide
    rw [h.name, isEmpty, units_append, hletters]
    rfl
  rw [verifyIdentity, string_some (s := candidate.name) rfl hname]
  simp only [bind, Except.bind]
  rw [if_neg]
  rintro (hne | hne | hne | hne)
  · exact hne rfl
  · exact hne hidentity
  · exact hne hservice
  · exact hne hcontent

/-- The body, without its metadata. -/
theorem exists_body :
  ∃ body, (encodeSlice candidate sliceNamespace version owner).document = some body ∧
    object (some body) "Kubernetes EndpointSlice is invalid" = .ok body ∧
    property body (name "metadata") =
      some (sliceMetadata candidate sliceNamespace version owner) ∧
    verifyProjection candidate body = .ok ()
  := by
  let body : Json := .object
    [(name "apiVersion", .string (ofString "discovery.k8s.io/v1")),
      (name "kind", .string (ofString "EndpointSlice")),
      (name "metadata", sliceMetadata candidate sliceNamespace version owner),
      (name "addressType", .string candidate.addressType.text),
      (name "endpoints", .array
        [.object [(name "addresses", .array (candidate.addresses.map .string))]]),
      (name "ports", .array
        [.object
          [(name "name", .string (ofString "go-like")),
            (name "protocol", .string (ofString "TCP")),
            (name "port", .number (.ofNat candidate.port))]])]
  refine ⟨body, rfl, rfl, rfl, ?_⟩
  have htype : property body (name "addressType") = some (.string candidate.addressType.text) := rfl
  let endpoint : Json := .object [(name "addresses", .array (candidate.addresses.map .string))]
  have haddresses : stringArray (property endpoint (name "addresses"))
      "Kubernetes managed EndpointSlice addresses are invalid" = .ok candidate.addresses := by
    have hproperty : property endpoint (name "addresses") =
        some (.array (candidate.addresses.map .string)) := rfl
    rw [hproperty, stringArray, strings_map]
  rw [verifyProjection, Except.bind_eq_ok_iff]
  refine ⟨endpoint, rfl, ?_⟩
  rw [Except.bind_eq_ok_iff]
  refine ⟨_, rfl, ?_⟩
  rw [Except.bind_eq_ok_iff]
  refine ⟨endpoint, rfl, ?_⟩
  rw [Except.bind_eq_ok_iff]
  refine ⟨_, rfl, ?_⟩
  dsimp only
  rw [if_neg (not_not_intro htype), Except.bind_eq_ok_iff]
  refine ⟨candidate.addresses, haddresses, ?_⟩
  rw [if_neg]
  rintro (hne | hne)
  · exact hne rfl
  · exact hne rfl

/-- What is read of a body that was written depends on its namespace and on its version. -/
theorem decodeLabelled_written (reader : InstanceReader urls wireMarker)
    (h : Encodes host candidate) {body : Json} (hprojection : verifyProjection candidate body = .ok ())
    {labels : Json} (hidentity : property labels identityLabel = some (.string candidate.identity))
    (hservice : property labels serviceNameLabel = some (.string candidate.serviceLabel))
    (expected : JsString) (record : ManagedSlice urls) :
  decodeLabelled host reader body (sliceMetadata candidate sliceNamespace version owner) labels
      expected = .ok record ↔
    sliceNamespace.isEmpty = false ∧ sliceNamespace = expected ∧
      ∃ written, version = some written ∧ written.isEmpty = false ∧
        record = ⟨candidate, owner, written⟩
  := by
  let annotations : Json := .object
    [( wireAnnotation, .string (ofString "2")),
      ( instanceAnnotation, .string (markedText wireMarker candidate.serviceInstance)),
      ( contentAnnotation, .string candidate.content)]
  have hannotations : object (property (sliceMetadata candidate sliceNamespace version owner)
      (name "annotations")) "Kubernetes EndpointSlice annotations are invalid" =
      .ok annotations := rfl
  have hwire : property annotations wireAnnotation = some (.string (ofString "2")) := rfl
  have htext : string annotations instanceAnnotation
      "Kubernetes managed ServiceInstance annotation is missing" =
      .ok (markedText wireMarker candidate.serviceInstance) :=
    string_some (s := markedText wireMarker candidate.serviceInstance) rfl rfl _
  have hcontent : property annotations contentAnnotation = some (.string candidate.content) := rfl
  have hverify := verifyIdentity_written candidate sliceNamespace version owner h hidentity hservice
    hcontent
  have hnamespace : property (sliceMetadata candidate sliceNamespace version owner)
      (name "namespace") = some (.string sliceNamespace) := rfl
  rw [decodeLabelled, hannotations, Except.ok_bind, if_neg (not_not_intro hwire), htext,
    Except.ok_bind, decodeInstance_markedText, Except.ok_bind, h.again, Except.ok_bind, hverify,
    Except.ok_bind, hprojection, Except.ok_bind,
    decodeOwner_sliceMetadata, Except.ok_bind, Except.bind_eq_ok_iff]
  constructor
  · rintro ⟨written, hwritten, hrest⟩
    obtain ⟨hwritten, hnonempty⟩ := string_eq_ok.1 hwritten
    rw [hnamespace, Option.some.injEq, Json.string.injEq] at hwritten
    subst hwritten
    split at hrest
    · cases hrest
    · rename_i hsame
      obtain ⟨number, hnumber, hrecord⟩ := Except.bind_eq_ok_iff.1 hrest
      obtain ⟨hnumber, hpresent⟩ := string_eq_ok.1 hnumber
      rw [property_resourceVersion, Option.map_eq_some_iff] at hnumber
      obtain ⟨number', hversion, hnumber⟩ := hnumber
      rw [Json.string.injEq] at hnumber
      subst hnumber
      rw [Except.ok.injEq] at hrecord
      exact ⟨hnonempty, not_not.1 hsame, number', hversion, hpresent, hrecord.symm⟩
  · rintro ⟨hnonempty, rfl, number, rfl, hpresent, rfl⟩
    refine ⟨sliceNamespace, string_some hnamespace hnonempty _, ?_⟩
    rw [if_neg (not_not_intro rfl), Except.bind_eq_ok_iff]
    refine ⟨number, ?_, rfl⟩
    apply string_some _ hpresent
    rw [property_resourceVersion]
    rfl

/-- A body is read back when its namespace is that of the reader and its version is given. -/
theorem decodeManagedSlice_written (reader : InstanceReader urls wireMarker)
    (h : Encodes host candidate) {body : Json}
    (hbody : (encodeSlice candidate sliceNamespace version owner).document = some body)
    (expected : JsString) (result : Option (ManagedSlice urls)) :
  decodeManagedSlice host reader body expected = .ok result ↔
    sliceNamespace.isEmpty = false ∧ sliceNamespace = expected ∧
      ∃ written, version = some written ∧ written.isEmpty = false ∧
        result = some ⟨candidate, owner, written⟩
  := by
  obtain ⟨body', hbody', hobject, hmetadata, hprojection⟩ :=
    exists_body candidate sliceNamespace version owner
  rw [hbody', Option.some.injEq] at hbody
  subst hbody
  let labels : Json := .object
    [(managedByLabel, .string managedByValue),
      (serviceNameLabel, .string candidate.serviceLabel),
      (identityLabel, .string candidate.identity)]
  have hmetadataObject : object (some (sliceMetadata candidate sliceNamespace version owner))
      "Kubernetes EndpointSlice metadata is invalid" =
      .ok (sliceMetadata candidate sliceNamespace version owner) := rfl
  have hlabels : object (property (sliceMetadata candidate sliceNamespace version owner)
      (name "labels")) "Kubernetes EndpointSlice labels are invalid" = .ok labels := rfl
  have hmanaged : property labels managedByLabel = some (.string managedByValue) := rfl
  have hidentity : property labels identityLabel = some (.string candidate.identity) := rfl
  have hservice : property labels serviceNameLabel = some (.string candidate.serviceLabel) := rfl
  have hlabelled := decodeLabelled_written candidate sliceNamespace version owner reader h hprojection
    hidentity hservice expected
  rw [decodeManagedSlice, hobject, Except.ok_bind, hmetadata, hmetadataObject, Except.ok_bind,
    hlabels, Except.ok_bind,
    if_neg (not_not_intro hmanaged), Except.bind_eq_ok_iff]
  constructor
  · rintro ⟨record, hrecord, hresult⟩
    obtain ⟨hnonempty, hsame, written, hversion, hpresent, rfl⟩ := (hlabelled record).1 hrecord
    rw [Except.ok.injEq] at hresult
    exact ⟨hnonempty, hsame, written, hversion, hpresent, hresult.symm⟩
  · rintro ⟨hnonempty, hsame, written, hversion, hpresent, rfl⟩
    refine ⟨⟨candidate, owner, written⟩, ?_, rfl⟩
    apply (hlabelled _).2
    exact ⟨hnonempty, hsame, written, hversion, hpresent, rfl⟩

end Written

/-! ### Objects of others -/

/-- The labels of an object. -/
def labelsOf (item : Json) : Option Json :=
  (property item (name "metadata")).bind (fun metadata => property metadata (name "labels"))

/-- The object is labelled as managed by this provider. -/
def Labelled (item : Json) : Prop :=
  (labelsOf item).bind (fun labels => property labels managedByLabel) = some (.string managedByValue)

/-- The object has metadata, and these have labels. -/
def CarriesLabels (item : Json) : Prop := ∃ labels, labelsOf item = some (.object labels)

theorem object_eq_ok {value : Option Json} {message : String} {result : Json} :
  object value message = .ok result ↔ ∃ properties, value = some (.object properties) ∧
    result = .object properties
  := by
  unfold object
  split
  · rename_i properties
    constructor
    · rintro ⟨⟩
      exact ⟨properties, rfl, rfl⟩
    · rintro ⟨properties', hvalue, rfl⟩
      cases hvalue
      rfl
  · rename_i hother
    constructor
    · rintro ⟨⟩
    · rintro ⟨properties, hvalue, -⟩
      exact absurd hvalue (hother properties)

theorem object_of_property {value found : Json} {key : JsString}
    (h : property value key = some found) (message : String) :
  object (some value) message = .ok value
  := by
  apply object_eq_ok.2
  cases value with
  | object properties => exact ⟨properties, rfl, rfl⟩
  | null | bool | number | string | array => cases h

/-- An object that others manage is ignored when it carries labels. -/
theorem decodeManagedSlice_foreign (reader : InstanceReader urls wireMarker)
    (sliceNamespace : JsString) {properties : List (JsString × Json)}
    (hforeign : ¬ Labelled (.object properties)) :
  decodeManagedSlice host reader (.object properties) sliceNamespace = .ok none ↔
    CarriesLabels (.object properties)
  := by
  have hobject : object (some (.object properties)) "Kubernetes EndpointSlice is invalid" =
      .ok (.object properties) := rfl
  rw [decodeManagedSlice, hobject, Except.bind_eq_ok_iff]
  constructor
  · rintro ⟨carrier, hcarrier, h⟩
    rw [Except.ok.injEq] at hcarrier
    subst hcarrier
    obtain ⟨metadata, hmetadata, h⟩ := Except.bind_eq_ok_iff.1 h
    obtain ⟨labels, hlabels, -⟩ := Except.bind_eq_ok_iff.1 h
    obtain ⟨fields, hfields, rfl⟩ := object_eq_ok.1 hmetadata
    obtain ⟨entries, hentries, -⟩ := object_eq_ok.1 hlabels
    use entries
    rw [labelsOf, hfields, Option.bind_some, hentries]
  · rintro ⟨labels, hlabels⟩
    obtain ⟨metadata, hmetadata, hproperty⟩ := Option.bind_eq_some_iff.1 hlabels
    have hmanaged : property (.object labels) managedByLabel ≠ some (.string managedByValue) := by
      intro hvalue
      apply hforeign
      rw [Labelled, hlabels, Option.bind_some, hvalue]
    refine ⟨.object properties, rfl, ?_⟩
    rw [hmetadata, object_of_property hproperty, Except.bind_eq_ok_iff]
    refine ⟨metadata, rfl, ?_⟩
    rw [hproperty, Except.bind_eq_ok_iff]
    exact ⟨.object labels, rfl, if_pos hmanaged⟩

/-! ### Lists -/

/-- A list is decoded as if the object were not in it. -/
def Skips (host : SliceHost) (reader : InstanceReader urls wireMarker) (sliceNamespace : JsString)
    (item : Json) : Prop :=
  ∀ carrier carrier' before after,
    property carrier (name "metadata") = property carrier' (name "metadata") →
    property carrier (name "items") = some (.array (before ++ item :: after)) →
    property carrier' (name "items") = some (.array (before ++ after)) →
    decodeSliceList host reader carrier sliceNamespace =
      decodeSliceList host reader carrier' sliceNamespace

/-- What a list with some items is decoded to. -/
def decodeItems (host : SliceHost) (reader : InstanceReader urls wireMarker)
    (sliceNamespace : JsString) (metadata : Json) (items : List Json) :
    Except RegistryError (SliceSnapshot urls) := do
  let decoded ← items.mapM (fun item => decodeManagedSlice host reader item sliceNamespace)
  let records := (decoded.filterMap id).insertionSort
    (fun left right => left.identity.units ≤ right.identity.units)
  let resourceVersion ← string metadata (name "resourceVersion")
    "Kubernetes EndpointSliceList resourceVersion is invalid"
  .ok ⟨resourceVersion, records⟩

theorem decodeSliceList_items (reader : InstanceReader urls wireMarker) (sliceNamespace : JsString)
    {carrier : Json} {items : List Json}
    (h : property carrier (name "items") = some (.array items)) :
  decodeSliceList host reader carrier sliceNamespace = (do
    let metadata ← object (property carrier (name "metadata"))
      "Kubernetes EndpointSliceList metadata is invalid"
    decodeItems host reader sliceNamespace metadata items)
  := by
  rw [decodeSliceList, object_of_property h, Except.ok_bind, h]
  rfl

/-- An item that is decoded to nothing makes no difference. -/
theorem decodeItems_none (reader : InstanceReader urls wireMarker) (sliceNamespace : JsString)
    (metadata : Json) {item : Json} (before after : List Json)
    (h : decodeManagedSlice host reader item sliceNamespace = .ok none) :
  decodeItems host reader sliceNamespace metadata (before ++ item :: after) =
    decodeItems host reader sliceNamespace metadata (before ++ after)
  := by
  rw [decodeItems, decodeItems, List.mapM_append, List.mapM_append, List.mapM_cons, h]
  simp only [bind_assoc, pure_bind]
  congr 1
  funext decoded
  cases after.mapM (fun item => decodeManagedSlice host reader item sliceNamespace) with
  | error e => rfl
  | ok others =>
      have hsame : ((decoded ++ none :: others).filterMap id) =
          (decoded ++ others).filterMap id := by
        rw [List.filterMap_append, List.filterMap_append]
        rfl
      simp only [bind, Except.bind, hsame]

/-- A list skips an object of others exactly when the object carries labels. -/
theorem skips_iff (reader : InstanceReader urls wireMarker) (sliceNamespace : JsString)
    {properties : List (JsString × Json)} (hforeign : ¬ Labelled (.object properties)) :
  Skips host reader sliceNamespace (.object properties) ↔ CarriesLabels (.object properties)
  := by
  have hskipped := @decodeManagedSlice_foreign _ host reader sliceNamespace _ hforeign
  rw [← hskipped]
  constructor
  · intro hskips
    let metadata : Json := .object [(name "resourceVersion", .string (ofNat 1))]
    let list (items : List Json) : Json :=
      .object [(name "metadata", metadata), (name "items", .array items)]
    have hsame := hskips (list [.object properties]) (list []) [] [] rfl rfl rfl
    have hempty : decodeSliceList host reader (list []) sliceNamespace = .ok ⟨ofNat 1, []⟩ := rfl
    have hitems : property (list [.object properties]) (name "items") =
        some (.array [.object properties]) := rfl
    rw [hempty, decodeSliceList_items reader sliceNamespace hitems, Except.bind_eq_ok_iff] at hsame
    obtain ⟨metadata', -, hdecoded⟩ := hsame
    rw [decodeItems, Except.bind_eq_ok_iff] at hdecoded
    obtain ⟨decoded, hdecoded, hrecords⟩ := hdecoded
    rw [List.mapM_cons, Except.bind_eq_ok_iff] at hdecoded
    obtain ⟨result, hresult, hrest⟩ := hdecoded
    cases hrest
    cases result with
    | none => exact hresult
    | some record =>
        obtain ⟨written, -, hrecords⟩ := Except.bind_eq_ok_iff.1 hrecords
        cases hrecords
  · intro hnone carrier carrier' before after hmetadata hitems hitems'
    rw [decodeSliceList_items reader sliceNamespace hitems,
      decodeSliceList_items reader sliceNamespace hitems', hmetadata]
    congr 1
    funext metadata
    exact decodeItems_none reader sliceNamespace metadata before after hnone

/-! ### Readers of lists -/

/-- The parts of a slice that its readers look at. -/
def ManagedSlice.read (record : ManagedSlice urls) : Kubernetes.ManagedSlice urls :=
  ⟨record.identity, record.content, record.serviceInstance⟩

/-- The verification of the items of a list. -/
def verification (host : SliceHost) (reader : InstanceReader urls wireMarker)
    (sliceNamespace : JsString) : DecodeManagedSlice urls :=
  fun item => (decodeManagedSlice host reader item sliceNamespace).map (Option.map ManagedSlice.read)

/-! ### The codec -/

/-- A candidate is read back from the body of its slice when the body names a namespace and a
version; validation admits it unless the first endpoint has the port zero; and a list skips an
object that is not labelled as managed exactly when the object carries labels. -/
theorem sliceCodec_exact (host : SliceHost) (reader : InstanceReader urls wireMarker) :
  (∀ value x candidate, snapshotServiceInstance urls value = .ok x →
    encodeCandidate urls host value = .ok candidate →
    candidate.serviceInstance = x ∧
    (∀ sliceNamespace version owner, ∃ body,
      (encodeSlice candidate sliceNamespace version owner).document = some body ∧
      ((∃ record, decodeManagedSlice host reader body sliceNamespace = .ok (some record) ∧
          record.toSliceCandidate = candidate ∧ record.owner = owner ∧
          version = some record.resourceVersion) ↔
        sliceNamespace.isEmpty = false ∧
          ∃ written, version = some written ∧ written.isEmpty = false)) ∧
    (Admitted candidate.toProjection ↔ ¬ HasPortZero host x)) ∧
  ∀ sliceNamespace properties, ¬ Labelled (.object properties) →
    (Skips host reader sliceNamespace (.object properties) ↔ CarriesLabels (.object properties))
  := by
  constructor
  · intro value x candidate hx hcandidate
    obtain ⟨hsnapshot, hencodes⟩ := encodeCandidate_eq_ok.1 hcandidate
    rw [hx, Except.ok.injEq] at hsnapshot
    subst hsnapshot
    refine ⟨rfl, ?_, ?_⟩
    · intro sliceNamespace version owner
      obtain ⟨body, hbody, -⟩ := exists_body candidate sliceNamespace version owner
      have hwritten := decodeManagedSlice_written candidate sliceNamespace version owner reader
        hencodes hbody sliceNamespace
      refine ⟨body, hbody, ?_⟩
      constructor
      · rintro ⟨record, hrecord, -⟩
        obtain ⟨hnonempty, -, written, hversion, hpresent, -⟩ := (hwritten _).1 hrecord
        exact ⟨hnonempty, written, hversion, hpresent⟩
      · rintro ⟨hnonempty, written, rfl, hpresent⟩
        refine ⟨⟨candidate, owner, written⟩, ?_, rfl, rfl, rfl⟩
        apply (hwritten _).2
        exact ⟨hnonempty, rfl, written, rfl, hpresent, rfl⟩
    · obtain ⟨fields, hfields, hadmitted⟩ := projection_facts host candidate.serviceInstance
      rw [hencodes.projected, Except.ok.injEq] at hfields
      rw [hfields, hadmitted]
  · intro sliceNamespace properties hforeign
    apply skips_iff reader sliceNamespace hforeign

/-! ### The port zero -/

theorem exact_portZero :
  (ofString "http://h:0/").isWellFormed = true ∧
    (true = true → (ofString "http://h:0/").isEmpty = false)
  := ⟨by decide, fun _ => by decide⟩

/-- The parser of one URL, whose port is zero. -/
def portZeroUrls : UrlParser where
  parse source :=
    if source = ofString "http://h:0/" then
      some ⟨ofString "http:", .empty, .empty, ⟨ofString "http://h:0/", exact_portZero⟩⟩
    else none
  parse_href := by
    intro source url h
    split at h
    · rw [← Option.some.inj h]
      exact if_pos rfl
    · cases h

/-- The host and the port of this URL, with a digest. -/
def portZeroHost : SliceHost where
  urls := {
    hostname := fun _ => ofString "h"
    port := fun _ => ofNat 0
    port_printed := fun _ => .inr ⟨0, by decide, rfl⟩
    hostname_printed := by
      intro url h
      exact absurd h (by decide) }
  lower := .plain
  digest := fun _ => List.replicate 32 0
  length_digest := fun _ => rfl

/-- An instance with this endpoint. -/
def portZeroInstance : ServiceInstance portZeroUrls where
  id := ⟨.empty, exact_empty⟩
  name := ⟨.ofNat 1, exact_one⟩
  version := ⟨.empty, exact_empty⟩
  metadata := ⟨[], sortedByKey_noEntries⟩
  endpoints := [⟨⟨ofString "http://h:0/", exact_portZero⟩, by rfl⟩]
  sorted := List.pairwise_singleton _ _

/-- The slice of an instance with the port zero is not admitted, and an object without labels
fails a list. -/
theorem sliceCodec_portZero :
  (∃ candidate : SliceCandidate portZeroUrls,
    encodeCandidate portZeroUrls portZeroHost portZeroInstance.toInput = .ok candidate ∧
      ¬ Admitted candidate.toProjection) ∧
    ¬ Labelled (.object [(name "metadata", .object [])]) ∧
    decodeSliceList portZeroHost (markedReader portZeroUrls wireMarker)
        (.object
          [(name "metadata", .object [(name "resourceVersion", .string (ofNat 1))]),
            (name "items", .array [.object [(name "metadata", .object [])]])])
        (ofNat 1) =
      .error (.protocol "Kubernetes EndpointSlice labels are invalid")
  := by
  refine ⟨?_, ?_, rfl⟩
  · obtain ⟨fields, hfields, hadmitted⟩ := projection_facts portZeroHost portZeroInstance
    let candidate : SliceCandidate portZeroUrls :=
      ⟨fields, ofString "ki-" ++ identityHash portZeroHost portZeroInstance,
        ofString "kc-" ++ contentHash portZeroHost portZeroInstance,
        ofString "ks-" ++ serviceHash portZeroHost portZeroInstance,
        ofString "go-like-" ++ identityHash portZeroHost portZeroInstance, portZeroInstance⟩
    have hfits : (markedText wireMarker portZeroInstance).encodeUtf8.length ≤ maximumPayloadBytes :=
      by decide +kernel
    refine ⟨candidate, ?_, ?_⟩
    · apply encodeCandidate_eq_ok.2
      exact ⟨snapshotServiceInstance_toInput _, hfits, rfl, rfl, rfl, rfl, hfields⟩
    · rw [hadmitted, not_not]
      exact ⟨_, _, rfl, rfl, rfl⟩
  · intro h
    cases h

end Registry.Kubernetes.Codec
