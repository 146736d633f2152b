import GoLike.Store.Record
import Mathlib.Data.Prod.Lex

/-!
# Service instances

A snapshot of a service instance is validated and canonical: its strings are well formed,
its metadata is sorted by key, and its endpoints are distinct, sorted, and written as the
URL parser prints them. The parser itself is a parameter.
-/

open Store

namespace Registry

/-- What registry operations throw. -/
inductive RegistryError where
  | typeError (message : String)
  | rangeError (message : String)
  /-- A conflict, or a payload that does not follow the protocol. -/
  | protocol (message : String)
  deriving DecidableEq

/-- Validate a string of a service instance. -/
def text (value : JsString) (field : String) (nonEmpty : Bool) :
    Except RegistryError (ExactString nonEmpty) :=
  if h : value.isWellFormed = true ∧ (nonEmpty = true → value.isEmpty = false) then
    .ok ⟨value, h⟩
  else
    .error (.typeError
      (field ++ " must be a" ++ (if nonEmpty then " non-empty" else "") ++ " string"))

@[simp]
theorem text_val {nonEmpty : Bool} (s : ExactString nonEmpty) (field : String) :
  text s.val field nonEmpty = .ok s
  := by
  rw [text, dif_pos s.property]

theorem text_eq_ok {nonEmpty : Bool} {s : JsString} {field : String} {v : ExactString nonEmpty} :
  text s field nonEmpty = .ok v ↔ v.val = s
  := by
  constructor
  · intro h
    rw [text] at h
    split at h
    · cases h
      rfl
    · cases h
  · rintro rfl
    apply text_val

/-! ### Endpoints -/

/-- The parts of a parsed URL that are looked at. -/
structure Url where
  protocol : JsString
  username : JsString
  password : JsString
  /-- The text the URL is printed as. -/
  href : Key

/-- A URL parser. What a URL is printed as parses to the same URL. -/
structure UrlParser where
  parse : JsString → Option Url
  parse_href : ∀ {source url}, parse source = some url → parse url.href.val = some url

/-- The number sign, which begins a fragment. -/
def numberSign : UInt16 := 35

/-- Canonicalize one absolute endpoint URL without credentials or fragments. -/
def endpoint (urls : UrlParser) (value : JsString) : Except RegistryError Key := do
  let source ← text value "ServiceInstance endpoint" true
  match urls.parse source.val with
  | none => .error (.typeError "ServiceInstance endpoint must be an absolute URL")
  | some parsed =>
      if parsed.protocol.isEmpty ∨ ¬ parsed.username.isEmpty ∨ ¬ parsed.password.isEmpty ∨
          parsed.href.val.units.contains numberSign then
        .error (.typeError "ServiceInstance endpoint must omit credentials and fragments")
      else .ok parsed.href

variable {urls : UrlParser}

/-- A canonical endpoint is its own canonical form. -/
theorem endpoint_endpoint {value : JsString} {e : Key} (h : endpoint urls value = .ok e) :
  endpoint urls e.val = .ok e
  := by
  simp only [endpoint, bind_eq_ok] at h
  obtain ⟨source, -, h⟩ := h
  split at h
  · cases h
  · rename_i parsed hparsed
    split at h
    · cases h
    · rename_i hparts
      cases h
      simp only [endpoint, text_val, bind_eq_ok]
      use parsed.href, rfl
      rw [urls.parse_href hparsed]
      dsimp only
      rw [if_neg hparts]

/-- A canonical endpoint. -/
abbrev Endpoint (urls : UrlParser) : Type := {e : Key // endpoint urls e.val = .ok e}

/-- The canonical endpoint of an address. -/
def endpointOf (urls : UrlParser) (value : JsString) : Except RegistryError (Endpoint urls) :=
  match h : endpoint urls value with
  | .error e => .error e
  | .ok e => .ok ⟨e, endpoint_endpoint h⟩

@[simp]
theorem endpointOf_val (e : Endpoint urls) :
  endpointOf urls e.val.val = .ok e
  := by
  rw [endpointOf]
  split
  · rename_i e' h
    rw [e.property] at h
    cases h
  · rename_i e' h
    rw [e.property] at h
    cases h
    rfl

/-! ### Metadata -/

/-- Validate one property of a metadata record. -/
def copyEntry (entry : Σ _ : JsString, JsString) : Except RegistryError MetadataEntry := do
  let key ← text entry.1 "ServiceInstance.metadata key" false
  let value ← text entry.2 "ServiceInstance.metadata value" false
  .ok (key, value)

/-- Validate the properties of a metadata record in order. -/
def copyEntries : List (Σ _ : JsString, JsString) → Except RegistryError (List MetadataEntry)
  | [] => .ok []
  | entry :: rest => do
      let copied ← copyEntry entry
      let others ← copyEntries rest
      .ok (copied :: others)

theorem copyEntry_eq_ok {entry : Σ _ : JsString, JsString} {e : MetadataEntry} :
  copyEntry entry = .ok e ↔ e.1.val = entry.1 ∧ e.2.val = entry.2
  := by
  rw [copyEntry]
  simp only [bind_eq_ok, text_eq_ok, Except.ok.injEq]
  constructor
  · rintro ⟨k, hk, v, hv, rfl⟩
    exact ⟨hk, hv⟩
  · rintro ⟨hk, hv⟩
    exact ⟨e.1, hk, e.2, hv, rfl⟩

theorem map_of_copyEntries {l : List (Σ _ : JsString, JsString)} {es : List MetadataEntry}
    (h : copyEntries l = .ok es) :
  l = es.map (fun e => ⟨e.1.val, e.2.val⟩)
  := by
  induction l generalizing es with
  | nil =>
      cases h
      rfl
  | cons entry rest ih =>
      rw [copyEntries] at h
      simp only [bind_eq_ok, copyEntry_eq_ok, Except.ok.injEq] at h
      obtain ⟨e, ⟨hk, hv⟩, others, hothers, rfl⟩ := h
      rw [List.map_cons, ← ih hothers, hk, hv]

theorem copyEntries_map (es : List MetadataEntry) :
  copyEntries (es.map (fun e => ⟨e.1.val, e.2.val⟩)) = .ok es
  := by
  induction es with
  | nil => rfl
  | cons e es ih =>
      have he : copyEntry ⟨e.1.val, e.2.val⟩ = .ok e := copyEntry_eq_ok.mpr ⟨rfl, rfl⟩
      simp [copyEntries, he, ih, bind, Except.bind]

theorem keys_nodup_of_copyEntries {value : StringRecord} {es : List MetadataEntry}
    (h : copyEntries value.entries = .ok es) :
  (es.map (fun e => e.1.val)).Nodup
  := by
  have hkeys := value.nodupKeys
  rw [List.NodupKeys, List.keys, map_of_copyEntries h, List.map_map] at hkeys
  exact hkeys

/-- Copy a metadata record in the order of its keys. -/
def metadata (value : StringRecord) : Except RegistryError Metadata :=
  match h : copyEntries value.entries with
  | .error e => .error e
  | .ok copied =>
      .ok ⟨sortByKey Prod.fst copied, sortedByKey_sortByKey _ (keys_nodup_of_copyEntries h)⟩

@[simp]
theorem metadata_toObject (m : Metadata) :
  metadata m.toObject = .ok m
  := by
  rw [metadata]
  split
  · rename_i e h
    rw [Metadata.toObject, copyEntries_map] at h
    cases h
  · rename_i copied h
    rw [Metadata.toObject, copyEntries_map] at h
    cases h
    congr 1
    obtain ⟨entries, hs⟩ := m
    simp only [Metadata.mk.injEq]
    apply sortByKey_eq _ hs

/-! ### Snapshots -/

/-- A service instance, before it is validated. -/
structure ServiceInstanceInput where
  id : JsString
  name : JsString
  version : JsString
  metadata : StringRecord
  endpoints : List JsString

/-- The endpoints are distinct and in the order of their texts. -/
def SortedEndpoints {urls : UrlParser} (l : List (Endpoint urls)) : Prop :=
  SortedByKey Subtype.val l

/-- A validated service instance. -/
structure ServiceInstance (urls : UrlParser) where
  id : ExactString false
  name : Key
  version : ExactString false
  metadata : Metadata
  endpoints : List (Endpoint urls)
  sorted : SortedEndpoints endpoints

theorem sortedEndpoints_nil :
  SortedEndpoints ([] : List (Endpoint urls))
  := .nil

theorem sortedByKey_noEntries :
  SortedByKey Prod.fst ([] : List MetadataEntry)
  := .nil

theorem exact_empty :
  JsString.empty.isWellFormed = true ∧ (false = true → JsString.empty.isEmpty = false)
  := ⟨rfl, by simp⟩

theorem exact_one :
  (JsString.ofNat 1).isWellFormed = true ∧ (true = true → (JsString.ofNat 1).isEmpty = false)
  := ⟨rfl, fun _ => rfl⟩

/-- A parser that accepts no URL. -/
def noUrls : UrlParser := ⟨fun _ => none, by simp⟩

/-- An instance without any field but its name. -/
def bareInstance : ServiceInstance noUrls where
  id := ⟨.empty, exact_empty⟩
  name := ⟨.ofNat 1, exact_one⟩
  version := ⟨.empty, exact_empty⟩
  metadata := ⟨[], sortedByKey_noEntries⟩
  endpoints := []
  sorted := sortedEndpoints_nil

/-- The distinct endpoints of a list, in the order of their texts. -/
def sortedEndpoints {urls : UrlParser} (l : List (Endpoint urls)) : List (Endpoint urls) :=
  sortByKey Subtype.val l.dedup

theorem sorted_sortedEndpoints (l : List (Endpoint urls)) :
  SortedEndpoints (sortedEndpoints l)
  := by
  apply sortedByKey_sortByKey
  apply List.Nodup.map _ l.nodup_dedup
  intro a b h
  exact Subtype.ext (Subtype.ext h)

theorem SortedEndpoints.nodup {l : List (Endpoint urls)} (h : SortedEndpoints l) :
  l.Nodup
  := by
  apply List.Pairwise.imp _ h
  intro a b hab heq
  rw [heq] at hab
  exact lt_irrefl _ hab

theorem sortedEndpoints_eq {l : List (Endpoint urls)} (h : SortedEndpoints l) :
  sortedEndpoints l = l
  := by
  rw [sortedEndpoints, h.nodup.dedup]
  exact sortByKey_eq _ h

/-- Copy and validate one service instance. -/
def snapshotServiceInstance (urls : UrlParser) (value : ServiceInstanceInput) :
    Except RegistryError (ServiceInstance urls) := do
  let endpoints ← value.endpoints.mapM (endpointOf urls)
  let id ← text value.id "ServiceInstance.id" false
  let name ← text value.name "ServiceInstance.name" true
  let version ← text value.version "ServiceInstance.version" false
  let metadata ← metadata value.metadata
  .ok ⟨id, name, version, metadata, sortedEndpoints endpoints, sorted_sortedEndpoints endpoints⟩

namespace ServiceInstance

variable {urls : UrlParser}

/-- A validated service instance, to be validated again. -/
def toInput (instance' : ServiceInstance urls) : ServiceInstanceInput where
  id := instance'.id.val
  name := instance'.name.val
  version := instance'.version.val
  metadata := instance'.metadata.toObject
  endpoints := instance'.endpoints.map (fun e => e.val.val)

end ServiceInstance

theorem mapM_endpointOf (l : List (Endpoint urls)) :
  (l.map (fun e => e.val.val)).mapM (endpointOf urls) = .ok l
  := by
  induction l with
  | nil => rfl
  | cons e l ih => simp [List.mapM_cons, ih, bind, Except.bind, pure, Except.pure]

/-- A snapshot of a snapshot is the snapshot itself. -/
@[simp]
theorem snapshotServiceInstance_toInput (x : ServiceInstance urls) :
  snapshotServiceInstance urls x.toInput = .ok x
  := by
  simp only [snapshotServiceInstance, ServiceInstance.toInput, mapM_endpointOf, text_val,
    metadata_toObject, bind, Except.bind, sortedEndpoints_eq x.sorted]

/-! ### Complete snapshots -/

/-- The text that identifies a service instance. -/
def identity {urls : UrlParser} (x : ServiceInstance urls) : JsonText :=
  Json.stringify (.array [.string x.name.val, .string x.id.val])

theorem identity_eq_iff {x y : ServiceInstance urls} :
  identity x = identity y ↔ x.name = y.name ∧ x.id = y.id
  := by
  simp [identity, Json.stringify, Subtype.ext_iff]

/-- Compare complete service identities. -/
def compareInstances {urls : UrlParser} (left right : ServiceInstance urls) : Ordering :=
  (compareStoreKeys left.name right.name).then
    ((compareStoreKeys left.id right.id).then (compareStoreKeys left.version right.version))

/-- The order of service instances, by name, identifier and version. -/
def sortKey {urls : UrlParser} (x : ServiceInstance urls) :
    JsString ×ₗ JsString ×ₗ JsString :=
  toLex (x.name.val, toLex (x.id.val, x.version.val))

theorem compareStoreKeys_eq_compare {m n : Bool} (l : ExactString m) (r : ExactString n) :
  compareStoreKeys l r = compare l.val r.val
  := by
  rw [compareStoreKeys_eq, LinearOrder.compare_eq_compareOfLessAndEq]
  simp only [compareOfLessAndEq]
  congr

theorem compareInstances_eq (x y : ServiceInstance urls) :
  compareInstances x y = compare (sortKey x) (sortKey y)
  := by
  simp only [compareInstances, compareStoreKeys_eq_compare]
  rfl

theorem isLE_compareInstances (x y : ServiceInstance urls) :
  (compareInstances x y).isLE = true ↔ sortKey x ≤ sortKey y
  := by
  rw [compareInstances_eq, ← Ordering.ne_gt_iff_isLE]
  exact compare_le_iff_le

/-- Sort service instances by name, identifier and version. -/
def sortInstances {urls : UrlParser} (l : List (ServiceInstance urls)) :
    List (ServiceInstance urls) :=
  l.insertionSort (fun left right => (compareInstances left right).isLE = true)

/-- No two instances have the same identity. -/
def DistinctIdentities {urls : UrlParser} (l : List (ServiceInstance urls)) : Prop :=
  (l.map identity).Nodup

theorem sortInstances_perm (l : List (ServiceInstance urls)) :
  (sortInstances l).Perm l
  := List.perm_insertionSort _ l

theorem sorted_sortInstances (l : List (ServiceInstance urls)) :
  (sortInstances l).Pairwise (fun x y => sortKey x ≤ sortKey y)
  := by
  let r : ServiceInstance urls → ServiceInstance urls → Prop :=
    fun left right => (compareInstances left right).isLE = true
  have total : Std.Total r :=
    ⟨fun x y => by
      simp only [r, isLE_compareInstances]
      apply le_total⟩
  have trans : IsTrans (ServiceInstance urls) r :=
    ⟨fun x y z => by
      simp only [r, isLE_compareInstances]
      apply le_trans⟩
  have hle : (sortInstances l).Pairwise r := List.pairwise_insertionSort r l
  apply hle.imp
  intro x y h
  exact (isLE_compareInstances x y).mp h

/-- Instances with distinct identities are sorted in one way. -/
theorem sortInstances_congr {l l' : List (ServiceInstance urls)} (hdistinct : DistinctIdentities l)
    (hperm : l.Perm l') :
  sortInstances l = sortInstances l'
  := by
  have hsorted : (sortInstances l).Perm (sortInstances l') :=
    (sortInstances_perm l).trans (hperm.trans (sortInstances_perm l').symm)
  apply hsorted.eq_of_pairwise _ (sorted_sortInstances l) (sorted_sortInstances l')
  intro x y hx hy hxy hyx
  have hkey : sortKey x = sortKey y := le_antisymm hxy hyx
  have hidentity : identity x = identity y := by
    simp only [sortKey, toLex_inj, Prod.mk.injEq] at hkey
    rw [identity_eq_iff]
    exact ⟨Subtype.ext hkey.1, Subtype.ext hkey.2.1⟩
  rw [(sortInstances_perm l).mem_iff] at hx
  rw [(sortInstances_perm l').mem_iff, ← hperm.mem_iff] at hy
  exact List.inj_on_of_nodup_map hdistinct hx hy hidentity

/-- Collect service instances whose identities are distinct, in order. -/
def collectInstances {urls : UrlParser} (identities : List JsonText) :
    List (ServiceInstance urls) → Except RegistryError Unit
  | [] => .ok ()
  | value :: values =>
      if identities.contains (identity value) then
        .error (.typeError "ServiceInstance snapshot contains a duplicate service identity")
      else collectInstances (identity value :: identities) values

/-- A complete snapshot of service instances. -/
def snapshotServiceInstances {urls : UrlParser} (values : List (ServiceInstance urls)) :
    Except RegistryError (List (ServiceInstance urls)) := do
  collectInstances [] values
  .ok (sortInstances values)

theorem collectInstances_eq_ok {identities : List JsonText} {values : List (ServiceInstance urls)}
    (h : DistinctIdentities values) (hnew : ∀ x ∈ values, identity x ∉ identities) :
  collectInstances identities values = .ok ()
  := by
  induction values generalizing identities with
  | nil => rfl
  | cons x values ih =>
      rw [DistinctIdentities, List.map_cons, List.nodup_cons] at h
      rw [collectInstances, if_neg (by simpa using hnew x List.mem_cons_self)]
      apply ih h.2
      intro y hy hmem
      obtain heq | hmem := List.mem_cons.mp hmem
      · apply h.1
        rw [← heq]
        exact List.mem_map_of_mem hy
      · exact hnew y (List.mem_cons_of_mem _ hy) hmem

/-- Instances with distinct identities have a snapshot. -/
theorem snapshotServiceInstances_eq {values : List (ServiceInstance urls)}
    (h : DistinctIdentities values) :
  snapshotServiceInstances values = .ok (sortInstances values)
  := by
  rw [snapshotServiceInstances, collectInstances_eq_ok h fun _ _ => List.not_mem_nil]
  rfl

end Registry
